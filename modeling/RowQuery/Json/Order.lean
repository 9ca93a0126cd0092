import RowQuery.Double.Decimal
import RowQuery.Json.Basic
import RowQuery.Text.Blank

namespace RowQuery.Json

/-- The number a value stands for: itself, the number its text reads as, or 1 and 0 for true and false. -/
def number? : Json → Option Double
  | .number n => some n.toDouble
  | .string s => Double.ofText? (Text.trim s.toList)
  | .bool b => some (if b then .one else .zero)
  | _ => none

/-- The order of two values. Null has none; two texts are compared as texts; an array or an object is
equal to its like and has no order otherwise; all else is compared as numbers. -/
def compare? : Json → Json → Option Ordering
  | .null, _ => none
  | _, .null => none
  | .string s, .string t => some (compare s t)
  | .array l, b => if (Json.array l).same b then some .eq else none
  | .object l, b => if (Json.object l).same b then some .eq else none
  | a, .array m => if a.same (.array m) then some .eq else none
  | a, .object m => if a.same (.object m) then some .eq else none
  | a, b =>
    match a.number?, b.number? with
    | some x, some y => x.compare? y
    | _, _ => none

def equal (a b : Json) : Bool := a.compare? b == some .eq

/-- The order of two values in a sort: nulls come first, and values without an order count as equal. -/
def sortOrder (a b : Json) : Ordering :=
  match a.isNull, b.isNull with
  | true, true => .eq
  | true, false => .lt
  | false, true => .gt
  | false, false => (a.compare? b).getD .eq

def isOne (a : Json) : Bool :=
  match a.number? with
  | some x => x.compare? .one == some .eq
  | none => false

@[simp]
theorem compare?_null_left (a : Json) : Json.null.compare? a = none := by cases a <;> rfl

@[simp]
theorem compare?_null_right (a : Json) : a.compare? .null = none := by cases a <;> rfl

@[simp]
theorem equal_null_left (a : Json) : Json.null.equal a = false := by simp [equal]

@[simp]
theorem equal_null_right (a : Json) : a.equal .null = false := by simp [equal]

end RowQuery.Json
