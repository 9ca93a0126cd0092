import RowQuery.Descriptor.Basic

namespace RowQuery

def memberOf {α : Type} (name : String) (write : α → Json) (a : Option α) : List (String × Json) :=
  (a.map fun a => (name, write a)).toList

def listJson {α : Type} (write : α → Json) (l : List α) : Json := .array (l.map write)

def Predicate.toJson (p : Predicate) : Json := .array [.string p.column, .string p.operator, p.value]

def Order.toJson (o : Order) : Json := .array [.string o.column, .string o.direction.name]

def Range.toJson (r : Range) : Json := .array [.string r.column, r.start, r.stop]

def JoinSpec.toJson (j : JoinSpec) : Json :=
  .array [.string j.table, .string j.tableColumn, .string j.operator, .string j.sourceColumn]

def Membership.toJson (m : Membership) : Json := .array m.items

def RelationSpec.toJson (r : RelationSpec) : Json :=
  .record (("name", .string r.name) :: ("condition", listJson Predicate.toJson r.conditions) ::
    memberOf "field" (listJson .string) r.fields ++ memberOf "order" Order.toJson r.order ++
    memberOf "limit" .ofUInt64 r.limit)

namespace Descriptor

def toJson (d : Descriptor) : Json :=
  .record (memberOf "relation" (listJson RelationSpec.toJson) d.relations ++
    memberOf "join" (listJson JoinSpec.toJson) d.joins ++ memberOf "whereIn" Membership.toJson d.whereIn ++
    memberOf "whereNotIn" Membership.toJson d.whereNotIn ++
    memberOf "where" (listJson Predicate.toJson) d.whereAll ++
    memberOf "orWhere" (listJson Predicate.toJson) d.whereAny ++
    memberOf "whereDate" Predicate.toJson d.whereDate ++ memberOf "whereMonth" Predicate.toJson d.whereMonth ++
    memberOf "between" Range.toJson d.between ++ memberOf "order" Order.toJson d.order ++
    memberOf "limit" .ofUInt64 d.limit)

end Descriptor

end RowQuery
