namespace RowQuery

/-- The number of fractions under one exponent, `2 ^ 52`. -/
abbrev fractionCount : Nat := 4503599627370496

/-- A finite double: its sign, its exponent field and its fraction field. -/
structure FiniteDouble where
  negative : Bool
  exponent : Fin 2047
  fraction : Fin fractionCount
deriving DecidableEq

inductive Double
  | finite (x : FiniteDouble)
  | infinite (negative : Bool)
  | nan
deriving DecidableEq

namespace FiniteDouble

/-- The exponent and fraction fields read as one number. A greater number has a greater code. -/
def code (x : FiniteDouble) : Nat := x.exponent.val * fractionCount + x.fraction.val

/-- The place among the finite doubles, counted from zero; both zeros stand at zero. -/
def rank (x : FiniteDouble) : Int := if x.negative then -x.code else x.code

/-- The magnitude in units of `2 ^ -1074`, of which every finite double is a whole number. -/
def magnitude (x : FiniteDouble) : Nat :=
  if x.exponent.val = 0 then x.fraction.val else (fractionCount + x.fraction.val) <<< (x.exponent.val - 1)

def units (x : FiniteDouble) : Int := if x.negative then -x.magnitude else x.magnitude

def zero (negative : Bool) : FiniteDouble := ⟨negative, 0, 0⟩

instance : Inhabited FiniteDouble := ⟨zero false⟩

def same (x y : FiniteDouble) : Bool := x.rank == y.rank

@[simp]
theorem same_self (x : FiniteDouble) : x.same x = true := by simp [same]

theorem same_comm (x y : FiniteDouble) : x.same y = y.same x := Bool.beq_comm

end FiniteDouble

namespace Double

def zero : Double := .finite (.zero false)

def one : Double := .finite ⟨false, 1023, 0⟩

def unitsInOne : Nat := 1 <<< 1074

def finite? : Double → Option FiniteDouble
  | .finite x => some x
  | _ => none

/-- The double of magnitude `mantissa * 2 ^ shift` units. A mantissa of `2 ^ 52` or more counts in the
exponent field, so that one that was rounded up to `2 ^ 53` needs no case of its own. -/
def ofScaled (negative : Bool) (mantissa shift : Nat) : Double :=
  if h : shift + mantissa / fractionCount < 2047 then
    .finite ⟨negative, ⟨shift + mantissa / fractionCount, h⟩, ⟨mantissa % fractionCount, Nat.mod_lt _ (by decide)⟩⟩
  else .infinite negative

/-- The whole number nearest to `num / den`; a half goes to the even neighbour. -/
def nearest (num den : Nat) : Nat :=
  let m := num / den
  let r := num % den
  if den < 2 * r ∨ den = 2 * r ∧ m % 2 = 1 then m + 1 else m

/-- The double nearest to `num / den` units. -/
def ofRatio (negative : Bool) (num den : Nat) : Double :=
  let shift := (num / den).log2 - 52
  ofScaled negative (nearest num (den <<< shift)) shift

/-- The double nearest to a whole number, which is cut or filled up to 53 binary digits. -/
def ofNat (negative : Bool) (n : Nat) : Double :=
  if n = 0 then .finite (.zero negative)
  else ofScaled negative (nearest (n <<< (52 - n.log2)) (1 <<< (n.log2 - 52))) (1022 + n.log2)

def ofInt (i : Int) : Double := ofNat (decide (i < 0)) i.natAbs

/-- The place in the order of doubles; infinity stands where the next exponent would. -/
def place? : Double → Option Int
  | .finite x => some x.rank
  | .infinite false => some (2047 * fractionCount)
  | .infinite true => some (-2047 * fractionCount)
  | .nan => none

def compare? (x y : Double) : Option Ordering :=
  match x.place?, y.place? with
  | some a, some b => some (compare a b)
  | _, _ => none

/-- The double nearest to the exact sum. A sum of zero is negative only if both terms are. -/
def addFinite (x y : FiniteDouble) : Double :=
  let sum := x.units + y.units
  if sum = 0 then .finite (.zero (x.negative && y.negative)) else ofRatio (decide (sum < 0)) sum.natAbs 1

def add : Double → Double → Double
  | .finite x, .finite y => addFinite x y
  | .nan, _ => .nan
  | _, .nan => .nan
  | .infinite a, .infinite b => if a = b then .infinite a else .nan
  | .infinite a, .finite _ => .infinite a
  | .finite _, .infinite b => .infinite b

def mulFinite (x y : FiniteDouble) : Double :=
  ofRatio (x.negative != y.negative) (x.magnitude * y.magnitude) unitsInOne

def divFinite (x y : FiniteDouble) : Double :=
  ofRatio (x.negative != y.negative) (x.magnitude * unitsInOne) y.magnitude

theorem compare?_swap (x y : Double) : y.compare? x = (x.compare? y).map Ordering.swap := by
  unfold compare?
  cases x.place? <;> cases y.place? <;> simp [Int.compare_swap]

end Double

end RowQuery
