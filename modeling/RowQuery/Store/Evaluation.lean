import RowQuery.Calendar.Timestamp
import RowQuery.Query.Basic
import RowQuery.Query.Operator
import RowQuery.Store.Tuple
import RowQuery.Store.Error

namespace RowQuery

namespace Operator

def evaluate (operator : String) (a b : Json) : Except StoreError Bool :=
  match ofText? (normalized operator) with
  | some op => .ok (op.apply a b)
  | none => .error (.unsupportedOperator (normalized operator))

theorem evaluate_comparison {operator : String} {c : Comparison} {a b : Json}
    (hop : ofText? (normalized operator) = some (.comparison c)) (hb : b.isNull = false) :
    evaluate operator a b = .ok (c.holds (a.compare? b)) := by
  have happly : apply (.comparison c) a b = c.holds (a.compare? b) := by
    unfold apply
    rw [if_neg (by simp [hb])]
    cases a with
    | null => rw [Json.compare?_null_left]; rfl
    | _ => rfl
  rw [evaluate, hop]
  exact congrArg Except.ok happly

end Operator

namespace Comparison

/-- Whether an order is one that the comparison of a given exact spelling admits. -/
def evaluate (operator : String) (o : Option Ordering) : Except StoreError Bool :=
  match ofText? operator with
  | some c => .ok (c.holds o)
  | none => .error (.unsupportedOperator operator)

end Comparison

namespace Json

def date? : Json → Option Date
  | .string s => Date.ofText? s.toList
  | _ => none

def ofMonth (month : Nat) : Json := .ofInt64 (Int64.ofNat month)

end Json

namespace Tuple

/-- Whether a tuple meets a condition. A column without a date meets no test of its date or month. -/
def meets (t : Tuple) : Condition → Except StoreError Bool
  | .compare field operator value => Operator.evaluate operator (t.resolve field) value
  | .isIn field values =>
    let a := t.resolve field
    .ok (!a.isNull && values.any a.equal)
  | .isNotIn field values =>
    let a := t.resolve field
    .ok (values.isEmpty || !a.isNull && !values.any a.equal)
  | .between field start stop =>
    let a := t.resolve field
    .ok (Comparison.ge.holds (a.compare? start) && Comparison.le.holds (a.compare? stop))
  | .date field operator value =>
    match (t.resolve field).date?, value.date? with
    | some a, some b => Comparison.evaluate operator (some (a.order b))
    | _, _ => .ok false
  | .month field operator value =>
    match (t.resolve field).date? with
    | some a => Comparison.evaluate operator ((Json.ofMonth a.month).compare? value)
    | none => .ok false

/-- Whether a tuple meets a group, of which no more is looked at than the answer needs. -/
def meetsClause (t : Tuple) (c : Clause) : Except StoreError Bool :=
  match c.logic, c.conditions with
  | _, [] => .ok true
  | .and, conditions => conditions.allM t.meets
  | .or, conditions => conditions.anyM t.meets

def meetsAll (t : Tuple) (clauses : List Clause) : Except StoreError Bool := clauses.allM t.meetsClause

/-- Whether two columns are related as a join asks; a null is related to nothing. -/
def joins (t : Tuple) (on : JoinConstraint) : Except StoreError Bool :=
  let a := t.resolve on.first
  let b := t.resolve on.second
  if a.isNull || b.isNull then .ok false else Operator.evaluate on.operator a b

end Tuple

end RowQuery
