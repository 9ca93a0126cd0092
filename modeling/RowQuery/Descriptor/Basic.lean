import RowQuery.Json.Printer

namespace RowQuery

/-- A test of a column against a value. A null value marks the test as absent. -/
structure Predicate where
  column : String
  operator : String
  value : Json
deriving DecidableEq

inductive Direction
  | ascending
  | descending
deriving DecidableEq

structure Order where
  column : String
  direction : Direction
deriving DecidableEq

/-- A range of a column, both ends included. -/
structure Range where
  column : String
  start : Json
  stop : Json
deriving DecidableEq

/-- A request for the rows of a relation, whose name may be a path with dots. -/
structure RelationSpec where
  name : String
  fields : Option (List String) := none
  conditions : List Predicate := []
  limit : Option UInt64 := none
  order : Option Order := none
deriving DecidableEq

structure JoinSpec where
  table : String
  tableColumn : String
  operator : String
  sourceColumn : String
deriving DecidableEq

/-- A column and the values it may or may not have, or a list of another length, which asks for nothing. -/
inductive Membership
  | pair (column : String) (values : Json)
  | ignored (items : List Json) (arity : items.length ≠ 2)
deriving DecidableEq

structure Descriptor where
  relations : Option (List RelationSpec) := none
  joins : Option (List JoinSpec) := none
  whereIn : Option Membership := none
  whereNotIn : Option Membership := none
  whereAll : Option (List Predicate) := none
  whereAny : Option (List Predicate) := none
  whereDate : Option Predicate := none
  whereMonth : Option Predicate := none
  between : Option Range := none
  order : Option Order := none
  limit : Option UInt64 := none
deriving DecidableEq

namespace Predicate

def isActive (p : Predicate) : Bool := !p.value.isNull

def text (p : Predicate) : String := p.column ++ " " ++ p.operator ++ " " ++ p.value.text

end Predicate

namespace Direction

def isAscending : Direction → Bool
  | .ascending => true
  | .descending => false

def sql : Direction → String
  | .ascending => "ASC"
  | .descending => "DESC"

def name : Direction → String
  | .ascending => "asc"
  | .descending => "desc"

end Direction

namespace Membership

def items : Membership → List Json
  | .pair column values => [.string column, values]
  | .ignored items _ => items

/-- The values of a membership test: those of a list, none for null, and otherwise the value alone. -/
def collection : Json → List Json
  | .array items => items
  | .null => []
  | a => [a]

def pair? : Membership → Option (String × List Json)
  | .pair column values => some (column, collection values)
  | .ignored _ _ => none

end Membership

namespace Descriptor

def isEmpty (d : Descriptor) : Bool := d == {}

end Descriptor

end RowQuery
