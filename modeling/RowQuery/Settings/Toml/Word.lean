import RowQuery.Settings.Toml.Table
import RowQuery.Settings.Toml.Text

namespace RowQuery.Toml

/-- Whether digits stand here, with single underscores between them. -/
def isDigits (isDigit : Char → Bool) : List Char → Bool
  | [] => false
  | [c] => isDigit c
  | c :: '_' :: rest => isDigit c && isDigits isDigit rest
  | c :: rest => isDigit c && isDigits isDigit rest

def withoutUnderscores (s : List Char) : List Char := s.filter (· ≠ '_')

/-- A whole number without a sign in a base up to sixteen. -/
def natInBase? (base : Nat) (s : List Char) : Option Nat :=
  let isDigit := fun c => (Json.hexValue? c).any (· < base)
  if isDigits isDigit s then
    some ((withoutUnderscores s).foldl (fun n c => base * n + (Json.hexValue? c).getD 0) 0)
  else none

/-- Decimal digits, of which the first is zero only if there is no other. -/
def isWhole (s : List Char) : Bool := isDigits Char.isDigit s && Json.isWhole (withoutUnderscores s)

def int? (s : List Char) : Option Int64 :=
  match s with
  | '0' :: 'x' :: rest => (natInBase? 16 rest).bind fun n => int64OfInt? n
  | '0' :: 'o' :: rest => (natInBase? 8 rest).bind fun n => int64OfInt? n
  | '0' :: 'b' :: rest => (natInBase? 2 rest).bind fun n => int64OfInt? n
  | s =>
    let (negative, body) := Double.readSign s
    if isWhole body then
      let n := digitsValue (withoutUnderscores body)
      int64OfInt? (if negative then -n else n)
    else none

def isExponent : List Char → Bool
  | [] => false
  | c :: rest => (c = 'e' || c = 'E') && isDigits Char.isDigit (Double.readSign rest).2

/-- Whether a point with digits, an exponent or both stand here. -/
def isFraction (s : List Char) : Bool :=
  match s with
  | '.' :: rest =>
    let isMark := fun c => c = 'e' || c = 'E'
    let exponent := rest.dropWhile fun c => !isMark c
    isDigits Char.isDigit (rest.takeWhile fun c => !isMark c) && (exponent.isEmpty || isExponent exponent)
  | s => isExponent s

/-- A number with a point or an exponent, an infinity or a NaN. A positive number too great for a double is
refused. -/
def float? (s : List Char) : Option Double :=
  let (negative, body) := Double.readSign s
  let isPart := fun c : Char => c.isDigit || c = '_'
  if body = ['i', 'n', 'f'] then some (.infinite negative)
  else if body = ['n', 'a', 'n'] then some .nan
  else if isWhole (body.takeWhile isPart) ∧ isFraction (body.dropWhile isPart) then
    match Double.readDecimal? negative (withoutUnderscores body) with
    | some (.infinite false) => none
    | x => x
  else none

def word? (s : List Char) : Option Node :=
  if s = ['t', 'r', 'u', 'e'] then some (.scalar (.bool true))
  else if s = ['f', 'a', 'l', 's', 'e'] then some (.scalar (.bool false))
  else match momentText? s, int? s with
    | some text, _ => some (.moment (String.ofList text))
    | none, some i => some (.scalar (.int i))
    | none, none => (float? s).map fun x => .scalar (.float x)

def isWordChar (c : Char) : Bool := !(isSpace c || c = '\n' || c = ',' || c = ']' || c = '\x7d' || c = '#')

/-- Reads a word, or a date and a time with a space between them. -/
def readWord? (s : List Char) : Option (Node × List Char) :=
  let word := s.takeWhile isWordChar
  let one := (word? word).map fun v => (v, s.dropWhile isWordChar)
  match s.dropWhile isWordChar with
  | ' ' :: rest =>
    match momentText? (word ++ ' ' :: rest.takeWhile isWordChar) with
    | some text => some (.moment (String.ofList text), rest.dropWhile isWordChar)
    | none => one
  | _ => one

def readPlain? (s : List Char) : Option (Node × List Char) :=
  match s with
  | [] => none
  | c :: _ =>
    if c = '\x22' ∨ c = '\x27' then (readText? s).map fun (text, rest) => (.scalar (.text text), rest)
    else readWord? s

end RowQuery.Toml
