import RowQuery.Query.Basic

namespace RowQuery

inductive Stage
  | relations | joins | whereIn | whereNotIn | whereAll | whereAny | order | between | whereDate | whereMonth | limit
deriving DecidableEq

namespace Scope

/-- The scope of a requested relation, in which a limit of zero is no limit. -/
def ofRelation (r : RelationSpec) : Scope where
  conditions := r.conditions
  fields := r.fields
  order := r.order
  limit := r.limit.filter (0 < ·)

end Scope

namespace Query

def addRelations (q : Query) (relations : List RelationSpec) : Query :=
  relations.foldl (fun q r => q.load ⟨r.name, .ofRelation r⟩) q

def addJoins (q : Query) (joins : List JoinSpec) : Query :=
  joins.foldl (fun q j => q.join ⟨.inner, j.table, ⟨j.tableColumn, j.operator, j.sourceColumn⟩⟩) q

def addWhereIn (q : Query) (m : Membership) : Query :=
  match m.pair? with
  | some (column, values) => q.condition (.isIn column values)
  | none => q

def addWhereNotIn (q : Query) (m : Membership) : Query :=
  match m.pair? with
  | some (column, values) => q.condition (.isNotIn column values)
  | none => q

def activeConditions (ps : List Predicate) : List Condition := (ps.filter Predicate.isActive).map .ofPredicate

def addWhereAll (q : Query) (ps : List Predicate) : Query := q.clause ⟨.and, activeConditions ps⟩

def addWhereAny (q : Query) (ps : List Predicate) : Query := q.clause ⟨.or, activeConditions ps⟩

def addBetween (q : Query) (r : Range) : Query := q.condition (.ofRange r)

def addWhereDate (q : Query) (p : Predicate) : Query :=
  if p.isActive then q.condition (.date p.column p.operator p.value) else q

def addWhereMonth (q : Query) (p : Predicate) : Query :=
  if p.isActive then q.condition (.month p.column p.operator p.value) else q

/-- A limit of zero is no limit. -/
def addLimit (q : Query) (n : UInt64) : Query := if n = 0 then q else q.limit n

def filterBy (q : Query) (ps : List Predicate) : Query := if ps = [] then q else q.addWhereAll ps

def sortBy (q : Query) (orders : List Order) : Query := orders.foldl orderBy q

end Query

namespace Stage

def pipeline : List Stage :=
  [.relations, .joins, .whereIn, .whereNotIn, .whereAll, .whereAny, .order, .between, .whereDate, .whereMonth, .limit]

def first : List Stage := [.relations, .whereAll, .order]

def keyed : List Stage := [.relations, .whereAll]

def addIfGiven {α : Type} (q : Query) (add : Query → α → Query) : Option α → Query
  | some a => add q a
  | none => q

def addIfAny {α : Type} (q : Query) (add : Query → List α → Query) : Option (List α) → Query
  | some (a :: rest) => add q (a :: rest)
  | _ => q

/-- One step; a part of the descriptor that is absent or empty leaves the query as it was. -/
def apply (d : Descriptor) (q : Query) : Stage → Query
  | .relations => addIfAny q Query.addRelations d.relations
  | .joins => addIfAny q Query.addJoins d.joins
  | .whereIn => addIfGiven q Query.addWhereIn d.whereIn
  | .whereNotIn => addIfGiven q Query.addWhereNotIn d.whereNotIn
  | .whereAll => addIfAny q Query.addWhereAll d.whereAll
  | .whereAny => addIfAny q Query.addWhereAny d.whereAny
  | .order => addIfGiven q Query.orderBy d.order
  | .between => addIfGiven q Query.addBetween d.between
  | .whereDate => addIfGiven q Query.addWhereDate d.whereDate
  | .whereMonth => addIfGiven q Query.addWhereMonth d.whereMonth
  | .limit => addIfGiven q Query.addLimit d.limit

end Stage

namespace Query

/-- Adds the parts of a descriptor that belong to the given stages, whatever the order in which these
are listed, in the order of the pipeline. -/
def compileStages (q : Query) (d : Descriptor) (stages : List Stage) : Query :=
  (Stage.pipeline.filter (stages.contains ·)).foldl (Stage.apply d) q

def compile (q : Query) (d : Descriptor) : Query := q.compileStages d Stage.pipeline

end Query

end RowQuery
