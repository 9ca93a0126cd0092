import RowQuery.Json.Printer

namespace RowQuery

inductive Fragment
  | descriptor | filter
  | relation | relationField | relationCondition | relationLimit | relationOrder
  | join | whereIn | whereNotIn | whereAll | whereAny | whereDate | whereMonth | between | order | limit
deriving DecidableEq

/-- The components of a fragment that have to be texts. -/
inductive Component
  | column | operator | table | tableColumn | sourceColumn | direction | field | name | relationName
deriving DecidableEq

inductive Fault
  | notObject (found : Json)
  | notList (found : Json)
  | tooShort (expected found : Nat)
  | tokenCount (expected found : Nat)
  | notText (component : Component) (found : Json)
  | missing (component : Component)
  | unknownDirection (token : String)
  | notLimit (found : Json)
deriving DecidableEq

structure Malformed where
  fragment : Fragment
  fault : Fault
deriving DecidableEq

def Fragment.label : Fragment → String
  | .descriptor => "descriptor"
  | .filter => "filter"
  | .relation => "relation"
  | .relationField => "relation.field"
  | .relationCondition => "relation.condition"
  | .relationLimit => "relation.limit"
  | .relationOrder => "relation.order"
  | .join => "join"
  | .whereIn => "whereIn"
  | .whereNotIn => "whereNotIn"
  | .whereAll => "where"
  | .whereAny => "orWhere"
  | .whereDate => "whereDate"
  | .whereMonth => "whereMonth"
  | .between => "between"
  | .order => "order"
  | .limit => "limit"

def Component.label : Component → String
  | .column => "column"
  | .operator => "operator"
  | .table => "table"
  | .tableColumn => "table column"
  | .sourceColumn => "source column"
  | .direction => "direction"
  | .field => "field"
  | .name => "name"
  | .relationName => "relation name"

def Fault.message : Fault → String
  | .notObject found => "expected an object, found " ++ found.text
  | .notList found => "expected a list, found " ++ found.text
  | .tooShort expected found => s!"expected {expected} components, found {found}"
  | .tokenCount expected found => s!"expected {expected} comma-separated tokens, found {found}"
  | .notText component found => component.label ++ " must be a string, found " ++ found.text
  | .missing component => "missing " ++ component.label
  | .unknownDirection token => "invalid order direction: " ++ token
  | .notLimit found => "expected a positive integer, found " ++ found.text

def Malformed.message (e : Malformed) : String :=
  "Malformed filter fragment `" ++ e.fragment.label ++ "`: " ++ e.fault.message

end RowQuery
