import RowQuery.Dict
import RowQuery.Double.Basic

namespace RowQuery

/-- A whole number that a JSON text can hold exactly, from `-2 ^ 63` up to but not including `2 ^ 64`. -/
structure Integer where
  val : Int
  lower : -9223372036854775808 ≤ val
  upper : val < 18446744073709551616
deriving DecidableEq

/-- A JSON number. A whole number and a float are different even if they stand for the same number. -/
inductive Number
  | integer (i : Integer)
  | float (x : FiniteDouble)
deriving DecidableEq

inductive Json
  | null
  | bool (b : Bool)
  | number (n : Number)
  | string (s : String)
  | array (items : List Json)
  | object (members : List (String × Json))

abbrev Row := Dict Json

/-- A whole number in 64 bits with a sign, if it fits. -/
def int64OfInt? (i : Int) : Option Int64 :=
  if -9223372036854775808 ≤ i ∧ i < 9223372036854775808 then some (Int64.ofInt i) else none

theorem toInt_of_int64OfInt? {i : Int} {k : Int64} (h : int64OfInt? i = some k) : k.toInt = i := by
  unfold int64OfInt? at h
  split at h
  · rw [← Option.some.inj h, Int64.toInt_ofInt_of_le (by omega) (by omega)]
  · simp at h

theorem int64OfInt?_toInt (k : Int64) : int64OfInt? k.toInt = some k := by
  have hl := Int64.le_toInt k
  have hu := Int64.toInt_lt k
  rw [int64OfInt?, if_pos (by omega), Int64.ofInt_toInt]

namespace Integer

def ofInt? (i : Int) : Option Integer :=
  if h : -9223372036854775808 ≤ i ∧ i < 18446744073709551616 then some ⟨i, h.1, h.2⟩ else none

def ofInt64 (i : Int64) : Integer where
  val := i.toInt
  lower := Int64.le_toInt i
  upper := by have h := Int64.toInt_lt i; omega

def ofUInt64 (n : UInt64) : Integer where
  val := n.toNat
  lower := by omega
  upper := by have h := n.toNat_lt; omega

def int64? (i : Integer) : Option Int64 := int64OfInt? i.val

def uint64? (i : Integer) : Option UInt64 := if 0 ≤ i.val then some (UInt64.ofNat i.val.toNat) else none

theorem toInt_of_int64? {i : Integer} {k : Int64} (h : i.int64? = some k) : k.toInt = i.val :=
  toInt_of_int64OfInt? h

theorem int64?_ofInt64 (k : Int64) : (ofInt64 k).int64? = some k :=
  int64OfInt?_toInt k

theorem uint64?_ofUInt64 (n : UInt64) : (ofUInt64 n).uint64? = some n := by
  have h : 0 ≤ (ofUInt64 n).val := Int.natCast_nonneg _
  rw [uint64?, if_pos h]
  exact congrArg some (UInt64.ofNat_toNat (x := n))

end Integer

namespace Number

def toDouble : Number → Double
  | .integer i => .ofInt i.val
  | .float x => .finite x

def int64? : Number → Option Int64
  | .integer i => i.int64?
  | .float _ => none

def uint64? : Number → Option UInt64
  | .integer i => i.uint64?
  | .float _ => none

/-- Structural equality up to the sign of a zero. -/
def same : Number → Number → Bool
  | .integer i, .integer j => i == j
  | .float x, .float y => x.same y
  | _, _ => false

def isZero : Number → Bool
  | .integer i => i.val == 0
  | .float x => x.rank == 0

theorem same_self (n : Number) : n.same n = true := by cases n <;> simp [same]

theorem same_comm (m n : Number) : m.same n = n.same m := by
  cases m <;> cases n <;> simp [same, FiniteDouble.same_comm, Bool.beq_comm]

end Number

namespace Json

mutual

/-- Structural equality with the numbers compared by `eq`. -/
def eqBy (eq : Number → Number → Bool) : Json → Json → Bool
  | .null, .null => true
  | .bool a, .bool b => a == b
  | .number m, .number n => eq m n
  | .string s, .string t => s == t
  | .array l, .array m => eqItems eq l m
  | .object l, .object m => eqMembers eq l m
  | _, _ => false

def eqItems (eq : Number → Number → Bool) : List Json → List Json → Bool
  | [], [] => true
  | a :: l, b :: m => eqBy eq a b && eqItems eq l m
  | _, _ => false

def eqMembers (eq : Number → Number → Bool) : List (String × Json) → List (String × Json) → Bool
  | [], [] => true
  | (k, a) :: l, (n, b) :: m => k == n && eqBy eq a b && eqMembers eq l m
  | _, _ => false

end

/-- Structural equality up to the sign of a zero. -/
def same : Json → Json → Bool := eqBy Number.same

mutual

theorem eqBy_beq (a b : Json) : eqBy (· == ·) a b = true ↔ a = b := by
  cases a <;> cases b <;> simp [eqBy, eqItems_beq, eqMembers_beq]

theorem eqItems_beq (l m : List Json) : eqItems (· == ·) l m = true ↔ l = m := by
  cases l <;> cases m <;> simp [eqItems, eqBy_beq, eqItems_beq]

theorem eqMembers_beq (l m : List (String × Json)) : eqMembers (· == ·) l m = true ↔ l = m := by
  cases l <;> cases m <;> simp [eqMembers, eqBy_beq, eqMembers_beq, Prod.ext_iff, and_assoc]

end

instance : DecidableEq Json := fun a b => decidable_of_iff _ (eqBy_beq a b)

instance : Inhabited Json := ⟨null⟩

mutual

theorem eqBy_self {eq : Number → Number → Bool} (h : ∀ n, eq n n = true) (a : Json) : eqBy eq a a = true := by
  cases a <;> simp [eqBy, h, eqItems_self h, eqMembers_self h]

theorem eqItems_self {eq : Number → Number → Bool} (h : ∀ n, eq n n = true) (l : List Json) :
    eqItems eq l l = true := by
  cases l <;> simp [eqItems, eqBy_self h, eqItems_self h]

theorem eqMembers_self {eq : Number → Number → Bool} (h : ∀ n, eq n n = true) (l : List (String × Json)) :
    eqMembers eq l l = true := by
  cases l <;> simp [eqMembers, eqBy_self h, eqMembers_self h]

end

theorem same_self (a : Json) : a.same a = true := eqBy_self Number.same_self a

def isNull : Json → Bool
  | .null => true
  | _ => false

def text? : Json → Option String
  | .string s => some s
  | _ => none

/-- The values that count as given: not null, false, zero, `""`, `"0"`, `[]` or an empty object. -/
def isTruthy : Json → Bool
  | .null => false
  | .bool b => b
  | .number n => !n.isZero
  | .string s => s ≠ "" && s ≠ "0"
  | .array items => !items.isEmpty
  | .object members => !members.isEmpty

def ofInt64 (i : Int64) : Json := .number (.integer (.ofInt64 i))

def ofUInt64 (n : UInt64) : Json := .number (.integer (.ofUInt64 n))

/-- A double as a value; JSON has no infinite numbers and no NaN, which become null. -/
def ofDouble : Double → Json
  | .finite x => .number (.float x)
  | _ => .null

def ofRow (row : Row) : Json := .object row.entries

def record (members : List (String × Json)) : Json := ofRow (.ofList members)

end Json

end RowQuery
