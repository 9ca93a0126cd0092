import RowQuery.Query.Condition
import RowQuery.Query.Pagination

namespace RowQuery

inductive JoinKind
  | inner
  | left
deriving DecidableEq

structure JoinConstraint where
  first : String
  operator : String
  second : String
deriving DecidableEq

structure Join where
  kind : JoinKind
  table : String
  on : JoinConstraint
deriving DecidableEq

/-- What to ask of the rows of a relation. It is applied once for each parent row. -/
structure Scope where
  conditions : List Predicate := []
  fields : Option (List String) := none
  order : Option Order := none
  limit : Option UInt64 := none
deriving DecidableEq

/-- A request for related rows, by a path of relation names. -/
structure EagerLoad where
  relation : String
  scope : Scope
deriving DecidableEq

structure Query where
  table : String
  columns : List String := ["*"]
  joins : List Join := []
  clauses : List Clause := []
  loads : List EagerLoad := []
  orders : List Order := []
  pagination : Option Pagination := none
deriving DecidableEq

namespace Query

/-- Names the columns to return; no columns at all leave the query as it was. -/
def select (q : Query) (columns : List String) : Query := if columns = [] then q else { q with columns }

def join (q : Query) (j : Join) : Query := { q with joins := q.joins ++ [j] }

def clause (q : Query) (c : Clause) : Query := { q with clauses := q.clauses ++ [c] }

def condition (q : Query) (c : Condition) : Query := q.clause (.single c)

def whereEqual (q : Query) (field : String) (value : Json) : Query := q.condition (.compare field "=" value)

def load (q : Query) (l : EagerLoad) : Query := { q with loads := q.loads ++ [l] }

def orderBy (q : Query) (o : Order) : Query := { q with orders := q.orders ++ [o] }

/-- Limits the number of rows and keeps an offset that is already set. -/
def limit (q : Query) (n : UInt64) : Query :=
  { q with pagination := some { limit := some n, offset := q.pagination.bind Pagination.offset } }

/-- Asks for a page; a limit or page that is already set is replaced. -/
def paginate (q : Query) (page perPage : UInt64) : Query := { q with pagination := some (.ofPage page perPage) }

/-- The query for the number of rows, which needs no order, no limit and no related rows. -/
def forCount (q : Query) : Query := { q with columns := ["COUNT(*)"], orders := [], pagination := none, loads := [] }

def selectsAll (q : Query) : Bool := q.columns.contains "*"

end Query

namespace Scope

def isUnconstrained (s : Scope) : Bool := s == {}

/-- Adds the scope to a query; the conditions are one group and stand as they are, null values included. -/
def apply (s : Scope) (q : Query) : Query :=
  let q := if s.conditions = [] then q else q.clause ⟨.and, s.conditions.map .ofPredicate⟩
  let q := match s.fields with
    | some fields => q.select fields
    | none => q
  let q := match s.order with
    | some order => q.orderBy order
    | none => q
  match s.limit with
  | some limit => q.limit limit
  | none => q

end Scope

namespace EagerLoad

/-- The relation names of the path, the outermost first. -/
def segments (l : EagerLoad) : List String := Text.splitText '.' l.relation

def isNested (l : EagerLoad) : Bool := l.relation.toList.contains '.'

end EagerLoad

end RowQuery
