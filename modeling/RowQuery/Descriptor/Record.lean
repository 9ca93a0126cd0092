import RowQuery.Descriptor.Basic

namespace RowQuery

/-- A direction by its exact name, alone or as the one member of an object, whose value is null. -/
def Direction.ofRecord? : Json → Option Direction
  | .string name => ofName? name
  | .object [(name, .null)] => ofName? name
  | _ => none
where
  ofName? (name : String) : Option Direction :=
    if name = "asc" then some .ascending else if name = "desc" then some .descending else none

def Predicate.toRecord (p : Predicate) : Json :=
  .record [("column", .string p.column), ("operator", .string p.operator), ("value", p.value)]

/-- Reads an object with all members of a predicate, or the list of their values. -/
def Predicate.ofRecord? : Json → Option Predicate
  | .object members => do
    let column ← (← members.lookup "column").text?
    let operator ← (← members.lookup "operator").text?
    let value ← members.lookup "value"
    some ⟨column, operator, value⟩
  | .array [.string column, .string operator, value] => some ⟨column, operator, value⟩
  | _ => none

def Order.toRecord (o : Order) : Json :=
  .record [("column", .string o.column), ("direction", .string o.direction.name)]

def Order.ofRecord? : Json → Option Order
  | .object members => do
    let column ← (← members.lookup "column").text?
    let direction ← Direction.ofRecord? (← members.lookup "direction")
    some ⟨column, direction⟩
  | .array [.string column, direction] => (Direction.ofRecord? direction).map (⟨column, ·⟩)
  | _ => none

def Range.toRecord (r : Range) : Json :=
  .record [("column", .string r.column), ("start", r.start), ("end", r.stop)]

def Range.ofRecord? : Json → Option Range
  | .object members => do
    let column ← (← members.lookup "column").text?
    let start ← members.lookup "start"
    let stop ← members.lookup "end"
    some ⟨column, start, stop⟩
  | .array [.string column, start, stop] => some ⟨column, start, stop⟩
  | _ => none

end RowQuery
