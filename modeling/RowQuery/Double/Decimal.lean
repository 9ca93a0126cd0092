import RowQuery.Double.Basic

namespace RowQuery

def digitsValue (s : List Char) : Nat := s.foldl (fun n c => 10 * n + (c.toNat - 48)) 0

def digitChars (n : Nat) : List Char := Nat.toDigits 10 n

def powerOfTen (n : Nat) : Nat := Nat.pow 10 n

/-- Digits with an optional plus sign, if their value fits 64 bits. -/
def countOf? (s : List Char) : Option UInt64 :=
  let digits := match s with
    | '+' :: rest => rest
    | s => s
  if digits ≠ [] ∧ digits.all Char.isDigit ∧ digitsValue digits < UInt64.size then
    some (UInt64.ofNat (digitsValue digits))
  else none

namespace Double

/-- The double nearest to `digits * 10 ^ exponent`. Exponents far outside the range of doubles are
answered without writing the power out. -/
def ofDecimal (negative : Bool) (digits : Nat) (exponent : Int) : Double :=
  let top := (digitChars digits).length + exponent
  if digits = 0 ∨ top < -330 then .finite (.zero negative)
  else if 310 < top then .infinite negative
  else if 0 ≤ exponent then ofNat negative (digits * powerOfTen exponent.toNat)
  else ofRatio negative (digits * unitsInOne) (powerOfTen (-exponent).toNat)

def readSign : List Char → Bool × List Char
  | '-' :: rest => (true, rest)
  | '+' :: rest => (false, rest)
  | s => (false, s)

def readExponent? : List Char → Option Int
  | [] => some 0
  | c :: rest =>
    if c = 'e' ∨ c = 'E' then
      let (negative, digits) := readSign rest
      if digits ≠ [] ∧ digits.all Char.isDigit then
        some (if negative then -digitsValue digits else digitsValue digits)
      else none
    else none

/-- Digits with an optional point among or around them, then an exponent part. -/
def readDecimal? (negative : Bool) (s : List Char) : Option Double :=
  let whole := s.takeWhile Char.isDigit
  let (fraction, rest) := match s.dropWhile Char.isDigit with
    | '.' :: rest => (rest.takeWhile Char.isDigit, rest.dropWhile Char.isDigit)
    | rest => ([], rest)
  if whole = [] ∧ fraction = [] then none
  else (readExponent? rest).map fun e => ofDecimal negative (digitsValue (whole ++ fraction)) (e - fraction.length)

/-- Reads a number: an optional sign, then `inf`, `infinity` or `nan` in any case, or a decimal number. -/
def ofText? (s : List Char) : Option Double :=
  let (negative, rest) := readSign s
  let word := rest.map Char.toLower
  if word = ['i', 'n', 'f'] ∨ word = ['i', 'n', 'f', 'i', 'n', 'i', 't', 'y'] then some (.infinite negative)
  else if word = ['n', 'a', 'n'] then some .nan
  else readDecimal? negative rest

end Double

end RowQuery
