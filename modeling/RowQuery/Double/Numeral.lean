import RowQuery.Double.Decimal

namespace RowQuery

/-- A number as far as its digits fit 64 bits, and the power of ten that goes with them. -/
structure Numeral where
  significand : UInt64
  exponent : Int
deriving DecidableEq

namespace Numeral

def appendDigits (n : UInt64) : List Char → UInt64 × List Char
  | [] => (n, [])
  | c :: rest =>
    let next := 10 * n.toNat + (c.toNat - 48)
    if next < UInt64.size then appendDigits (UInt64.ofNat next) rest else (n, c :: rest)

/-- The digits before and behind a point, of which those that do not fit are dropped. Each one dropped before
the point raises the exponent. -/
def ofDigits (whole fraction : List Char) (exponent : Int) : Numeral :=
  let (n, dropped) := appendDigits 0 whole
  let (n, ignored) := appendDigits n fraction
  ⟨n, exponent + dropped.length + ignored.length - fraction.length⟩

/-- The greatest exponent at which a power of ten is a finite double. -/
def exponentLimit : Nat := 308

def tenTo (n : Nat) : FiniteDouble := (Double.ofNat false (powerOfTen (min n exponentLimit))).finite?.getD default

/-- The double of a numeral, if it is finite. The significand, the power of ten and their product or quotient
are rounded one after the other. A power that is no double is divided by in two steps; of 64 bits nothing is
left after two full ones, so that there is no third. -/
def double? (negative : Bool) (n : Numeral) : Option FiniteDouble := do
  let x ← (Double.ofNat negative n.significand.toNat).finite?
  if n.significand = 0 then some x
  else if 0 ≤ n.exponent then
    if n.exponent ≤ exponentLimit then (Double.mulFinite x (tenTo n.exponent.toNat)).finite? else none
  else
    let y ← (Double.divFinite x (tenTo n.exponent.natAbs)).finite?
    (Double.divFinite y (tenTo (n.exponent.natAbs - exponentLimit))).finite?

end Numeral

end RowQuery
