import RowQuery.Store.Evaluation
import RowQuery.Store.Table

namespace RowQuery

/-- Puts an item before the first one that it does not come after. -/
def insertBy {α : Type} (order : α → α → Ordering) (a : α) : List α → List α
  | [] => [a]
  | b :: rest => if order a b = .gt then b :: insertBy order a rest else a :: b :: rest

/-- A sort that leaves items of equal order as they stand. -/
def sortedBy {α : Type} (order : α → α → Ordering) : List α → List α
  | [] => []
  | a :: rest => insertBy order a (sortedBy order rest)

theorem insertBy_perm {α : Type} (order : α → α → Ordering) (a : α) (l : List α) :
    (insertBy order a l).Perm (a :: l) := by
  induction l with
  | nil => exact .refl _
  | cons b rest ih =>
      unfold insertBy
      split
      · exact (ih.cons b).trans (.swap a b rest)
      · exact .refl _

theorem sortedBy_perm {α : Type} (order : α → α → Ordering) (l : List α) : (sortedBy order l).Perm l := by
  induction l with
  | nil => exact .refl _
  | cons a rest ih => exact (insertBy_perm order a _).trans (ih.cons a)

def keepOk {α : Type} (test : α → Except StoreError Bool) : List α → Except StoreError (List α)
  | [] => .ok []
  | a :: rest => do
    let keep ← test a
    let kept ← keepOk test rest
    .ok (if keep then a :: kept else kept)

namespace Tuple

def orderBy (o : Order) (t u : Tuple) : Ordering :=
  let order := (t.resolve o.column).sortOrder (u.resolve o.column)
  if o.direction.isAscending then order else order.swap

/-- The order of two tuples by the first column in which they differ. -/
def order : List Order → Tuple → Tuple → Ordering
  | [], _, _ => .eq
  | o :: rest, t, u => (t.orderBy o u).then (order rest t u)

end Tuple

namespace Store

def table (s : Store) (name : String) : Except StoreError Table :=
  match s.tables.get? name with
  | some t => .ok t
  | none => .error (.tableNotFound name)

/-- A tuple joined to each row that fits it. In a left join a tuple that no row fits stays, with nulls. -/
def joinTuple (j : Join) (joined : Table) (t : Tuple) : Except StoreError (List Tuple) := do
  let matched ← keepOk (·.joins j.on) (joined.rows.map (t.merge j.table))
  .ok (if matched.isEmpty && j.kind = .left then [t.mergeNulls j.table joined.columnNames] else matched)

def join (s : Store) (tuples : List Tuple) (j : Join) : Except StoreError (List Tuple) := do
  let joined ← s.table j.table
  let matched ← tuples.mapM (joinTuple j joined)
  .ok matched.flatten

def joinedTuples (s : Store) (q : Query) : Except StoreError (List Tuple) := do
  let base ← s.table q.table
  q.joins.foldlM s.join (base.rows.map (Tuple.ofRow q.table))

def filteredTuples (s : Store) (q : Query) : Except StoreError (List Tuple) := do
  let tuples ← s.joinedTuples q
  keepOk (·.meetsAll q.clauses) tuples

def paginated {α : Type} (p : Option Pagination) (rows : List α) : List α :=
  match p with
  | some p => p.slice rows
  | none => rows

/-- The tuples that a query selects: joined, filtered, sorted and cut to the part that is asked for. -/
def selectTuples (s : Store) (q : Query) : Except StoreError (List Tuple) := do
  let tuples ← s.filteredTuples q
  .ok (paginated q.pagination (sortedBy (Tuple.order q.orders) tuples))

end Store

namespace Tuple

def lastSegment (name : String) : String := ((Text.splitText '.' name).getLast?).getD name

/-- The table whose columns `table.*` stands for. -/
def starredTable? (column : String) : Option String :=
  (List.isSuffixOf? ['.', '*'] column.toList).map String.ofList

def addColumn (t : Tuple) (row : Row) (column : String) : Row :=
  match starredTable? column with
  | some table => row.merge (t.tableColumns table)
  | none => row.insert (lastSegment column) (t.resolve column)

def project (t : Tuple) (q : Query) : Row :=
  if q.selectsAll then t.plain else q.columns.foldl t.addColumn .empty

end Tuple

end RowQuery
