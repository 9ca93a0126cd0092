import RowQuery.Double.Decimal

namespace RowQuery

structure Decimal where
  digits : Nat
  exponent : Int
deriving DecidableEq

/-- Where a value goes that lies in the middle between two decimals. -/
inductive Tie
  | toEven
  | awayFromZero
deriving DecidableEq

def Tie.goesDown (tie : Tie) (num den : Nat) : Bool :=
  let r := num % den
  2 * r < den || (2 * r == den && tie == .toEven && num / den % 2 == 0)

namespace FiniteDouble

/-- The number of digits before the point, or, below one tenth, minus the number of zeros after it. -/
def pointPosition (magnitude : Nat) : Int :=
  let whole := magnitude / Double.unitsInOne
  if whole ≠ 0 then (digitChars whole).length
  else
    let below := (Double.unitsInOne - 1) / magnitude
    1 - if below = 0 then 0 else (digitChars below).length

/-- The two neighbours of `magnitude` units among the whole multiples of `10 ^ exponent`, the nearer one
first. -/
def neighbours (tie : Tie) (magnitude : Nat) (exponent : Int) : List Nat :=
  let num := if 0 ≤ exponent then magnitude else magnitude * powerOfTen (-exponent).toNat
  let den := if 0 ≤ exponent then Double.unitsInOne * powerOfTen exponent.toNat else Double.unitsInOne
  let below := num / den
  if tie.goesDown num den then [below, below + 1] else [below + 1, below]

/-- The first decimal of `width` digits beside the magnitude that reads back as it. -/
def decimalOfWidth? (tie : Tie) (x : FiniteDouble) (width : Nat) : Option Decimal :=
  let exponent := pointPosition x.magnitude - width
  ((neighbours tie x.magnitude exponent).find? fun digits =>
    Double.ofDecimal false digits exponent == .finite ⟨false, x.exponent, x.fraction⟩).map (⟨·, exponent⟩)

/-- The decimal with the fewest digits that reads back as the magnitude, and of those the nearest. -/
def shortest (tie : Tie) (x : FiniteDouble) : Decimal :=
  if x.magnitude = 0 then ⟨0, 0⟩
  else ((List.range 17).findSome? fun n => decimalOfWidth? tie x (n + 1)).getD ⟨0, 0⟩

end FiniteDouble

namespace Decimal

def significant (d : Decimal) : List Char := ((digitChars d.digits).reverse.dropWhile (· == '0')).reverse

def point (d : Decimal) : Int := (digitChars d.digits).length + d.exponent

/-- Digits with a point in them or with the zeros that put them in their place. A whole number ends in
`ending`. -/
def positional (digits : List Char) (point : Int) (ending : List Char) : List Char :=
  if point ≤ 0 then ['0', '.'] ++ List.replicate (-point).toNat '0' ++ digits
  else if digits.length ≤ point.toNat then
    digits ++ List.replicate (point.toNat - digits.length) '0' ++ ending
  else digits.take point.toNat ++ '.' :: digits.drop point.toNat

def intChars (i : Int) : List Char := if i < 0 then '-' :: digitChars i.natAbs else digitChars i.natAbs

def scientific (digits : List Char) (point : Int) : List Char :=
  let mantissa := match digits with
    | [] => []
    | d :: [] => [d]
    | d :: rest => d :: '.' :: rest
  let exponent := point - 1
  mantissa ++ 'e' :: (if exponent < 0 then intChars exponent else '+' :: intChars exponent)

end Decimal

structure FloatLayout where
  /-- Positional notation is used where the point lies above `low` and not above `high`. -/
  low : Option Int
  high : Option Int
  ending : List Char
  tie : Tie

namespace FloatLayout

/-- JSON text: positional from `0.00001` up to sixteen digits before the point, and always with a point. A tie goes
to the even digit. -/
def json : FloatLayout := ⟨some (-5), some 16, ['.', '0'], .toEven⟩

/-- Plain text: always positional, and a whole number has no point. A tie goes to the greater magnitude. -/
def plain : FloatLayout := ⟨none, none, [], .awayFromZero⟩

def isPositional (layout : FloatLayout) (point : Int) : Bool :=
  layout.low.all (· < point) && layout.high.all (point ≤ ·)

def chars (layout : FloatLayout) (x : FiniteDouble) : List Char :=
  let sign := if x.negative then ['-'] else []
  let d := x.shortest layout.tie
  if d.digits = 0 then sign ++ '0' :: layout.ending
  else if layout.isPositional d.point then sign ++ Decimal.positional d.significant d.point layout.ending
  else sign ++ Decimal.scientific d.significant d.point

end FloatLayout

end RowQuery
