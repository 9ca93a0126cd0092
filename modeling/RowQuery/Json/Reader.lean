import RowQuery.Double.Numeral
import RowQuery.Json.Basic

namespace RowQuery.Json

def isSpace (c : Char) : Bool := c = ' ' || c = '\t' || c = '\n' || c = '\r'

def skipSpace (s : List Char) : List Char := s.dropWhile isSpace

def hexValue? (c : Char) : Option Nat :=
  if c.isDigit then some (c.toNat - 48)
  else if 'a' ≤ c ∧ c ≤ 'f' then some (c.toNat - 87)
  else if 'A' ≤ c ∧ c ≤ 'F' then some (c.toNat - 55)
  else none

def readHex? : List Char → Option (Nat × List Char)
  | a :: b :: c :: d :: rest => do
    let a ← hexValue? a
    let b ← hexValue? b
    let c ← hexValue? c
    let d ← hexValue? d
    some (((a * 16 + b) * 16 + c) * 16 + d, rest)
  | _ => none

/-- The character of a `\u` escape, which takes a second escape if the first is a high surrogate. -/
def readUnicode? (s : List Char) : Option (Char × List Char) := do
  let (high, rest) ← readHex? s
  if 0xD800 ≤ high ∧ high < 0xDC00 then
    match rest with
    | '\\' :: 'u' :: rest => do
      let (low, rest) ← readHex? rest
      if 0xDC00 ≤ low ∧ low < 0xE000 then
        some (Char.ofNat (0x10000 + (high - 0xD800) * 0x400 + (low - 0xDC00)), rest)
      else none
    | _ => none
  else if 0xDC00 ≤ high ∧ high < 0xE000 then none
  else some (Char.ofNat high, rest)

def escapedChar? (c : Char) : Option Char :=
  match c with
  | 'b' => some '\x08'
  | 't' => some '\t'
  | 'n' => some '\n'
  | 'f' => some '\x0c'
  | 'r' => some '\r'
  | '\\' => some '\\'
  | '/' => some '/'
  | '\x22' => some '\x22'
  | _ => none

/-- The characters up to the closing quote, of which `fuel` bounds the number. -/
def readChars? : Nat → List Char → Option (List Char × List Char)
  | 0, _ => none
  | _, [] => none
  | fuel + 1, '\\' :: 'u' :: rest => do
    let (c, rest) ← readUnicode? rest
    let (cs, rest) ← readChars? fuel rest
    some (c :: cs, rest)
  | fuel + 1, '\\' :: c :: rest => do
    let c ← escapedChar? c
    let (cs, rest) ← readChars? fuel rest
    some (c :: cs, rest)
  | fuel + 1, c :: rest =>
    if c = '\x22' then some ([], rest)
    else if c = '\\' ∨ c.toNat < 32 then none
    else do
      let (cs, rest) ← readChars? fuel rest
      some (c :: cs, rest)

def readText? (s : List Char) : Option (String × List Char) :=
  (readChars? (s.length + 1) s).map fun (cs, rest) => (String.ofList cs, rest)

/-- Whether the digits before the point may stand: at least one, and no zero in front of others. -/
def isWhole (digits : List Char) : Bool :=
  match digits with
  | [] => false
  | ['0'] => true
  | d :: _ => d ≠ '0'

def isNumberChar (c : Char) : Bool := c.isDigit || c = '-' || c = '+' || c = '.' || c = 'e' || c = 'E'

/-- Reads a whole number as an integer while it fits, and all other numbers as finite doubles. -/
def numberOf? (s : List Char) : Option Number :=
  let (negative, body) := match s with
    | '-' :: rest => (true, rest)
    | s => (false, s)
  let whole := body.takeWhile Char.isDigit
  if !isWhole whole then none
  else match body.dropWhile Char.isDigit with
    | [] =>
      let n := digitsValue whole
      match if negative ∧ n = 0 then none else Integer.ofInt? (if negative then -n else n) with
      | some i => some (.integer i)
      | none => float? negative whole [] []
    | '.' :: rest =>
      let fraction := rest.takeWhile Char.isDigit
      if fraction = [] then none else float? negative whole fraction (rest.dropWhile Char.isDigit)
    | rest => float? negative whole [] rest
where
  float? (negative : Bool) (whole fraction exponent : List Char) : Option Number := do
    let exponent ← Double.readExponent? exponent
    let x ← (Numeral.ofDigits whole fraction exponent).double? negative
    some (.float x)

def dropWord (word s : List Char) : Option (List Char) := List.isPrefixOf? word s

mutual

/-- Reads one value from the front of a text; `fuel` bounds the depth and the number of items. -/
def read? : Nat → List Char → Option (Json × List Char)
  | 0, _ => none
  | fuel + 1, s =>
    match skipSpace s with
    | [] => none
    | '[' :: rest =>
      match skipSpace rest with
      | ']' :: rest => some (.array [], rest)
      | rest => (readItems? fuel rest).map fun (items, rest) => (.array items, rest)
    | '\x7b' :: rest =>
      match skipSpace rest with
      | '\x7d' :: rest => some (.object [], rest)
      | rest => (readMembers? fuel rest).map fun (members, rest) => (.object (Dict.ofList members).entries, rest)
    | '\x22' :: rest => (readText? rest).map fun (s, rest) => (.string s, rest)
    | 'n' :: rest => (dropWord ['u', 'l', 'l'] rest).map (.null, ·)
    | 't' :: rest => (dropWord ['r', 'u', 'e'] rest).map (.bool true, ·)
    | 'f' :: rest => (dropWord ['a', 'l', 's', 'e'] rest).map (.bool false, ·)
    | s => (numberOf? (s.takeWhile isNumberChar)).map fun n => (.number n, s.dropWhile isNumberChar)

def readItems? : Nat → List Char → Option (List Json × List Char)
  | 0, _ => none
  | fuel + 1, s => do
    let (a, rest) ← read? fuel s
    match skipSpace rest with
    | ',' :: rest => do
      let (items, rest) ← readItems? fuel rest
      some (a :: items, rest)
    | ']' :: rest => some ([a], rest)
    | _ => none

def readMembers? : Nat → List Char → Option (List (String × Json) × List Char)
  | 0, _ => none
  | fuel + 1, s =>
    match skipSpace s with
    | '\x22' :: rest => do
      let (name, rest) ← readText? rest
      match skipSpace rest with
      | ':' :: rest => do
        let (a, rest) ← read? fuel rest
        match skipSpace rest with
        | ',' :: rest => do
          let (members, rest) ← readMembers? fuel rest
          some ((name, a) :: members, rest)
        | '\x7d' :: rest => some ([(name, a)], rest)
        | _ => none
      | _ => none
    | _ => none

end

/-- Reads a text that holds one value and nothing else. Of two members of one name the later counts. -/
def ofText? (s : String) : Option Json :=
  let cs := s.toList
  match read? (2 * cs.length + 2) cs with
  | some (a, rest) => if skipSpace rest = [] then some a else none
  | none => none

end RowQuery.Json
