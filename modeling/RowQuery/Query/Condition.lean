import RowQuery.Descriptor.Basic

namespace RowQuery

inductive Condition
  | compare (field operator : String) (value : Json)
  | isIn (field : String) (values : List Json)
  | isNotIn (field : String) (values : List Json)
  | between (field : String) (start stop : Json)
  | date (field operator : String) (value : Json)
  /-- A comparison of the month, from 1 to 12, of the date that a column holds. -/
  | month (field operator : String) (value : Json)
deriving DecidableEq

inductive Logic
  | and
  | or
deriving DecidableEq

/-- A group of conditions, which counts as one conjunct of a query. -/
structure Clause where
  logic : Logic
  conditions : List Condition
deriving DecidableEq

namespace Condition

def ofPredicate (p : Predicate) : Condition := .compare p.column p.operator p.value

def ofRange (r : Range) : Condition := .between r.column r.start r.stop

end Condition

namespace Clause

def single (c : Condition) : Clause := ⟨.and, [c]⟩

/-- An empty group constrains nothing. -/
def isUnconstrained (c : Clause) : Bool := c.conditions.isEmpty

end Clause

end RowQuery
