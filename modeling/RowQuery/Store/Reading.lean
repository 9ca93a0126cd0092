import RowQuery.Store.Loading

namespace RowQuery

structure Metadata where
  table : String
  primaryKey : String
deriving DecidableEq

structure Page where
  data : List Row
  total : Nat
  perPage : UInt64
  currentPage : UInt64
  lastPage : Nat
deriving DecidableEq

inductive Records
  | all (rows : List Row)
  | page (page : Page)
deriving DecidableEq

namespace Page

def hasMore (p : Page) : Bool := p.currentPage.toNat < p.lastPage

def hasPrevious (p : Page) : Bool := 1 < p.currentPage

end Page

namespace Store

def metadata (s : Store) (entity : String) : Except StoreError Metadata := do
  let t ← s.table entity
  .ok ⟨entity, t.primaryKey⟩

def get (s : Store) (q : Query) : Except StoreError (List Row) := do
  let tuples ← s.selectTuples q
  s.materialize q tuples

def count (s : Store) (q : Query) : Except StoreError Nat := do
  let tuples ← s.selectTuples q.forCount
  .ok tuples.length

/-- One page of a query. A page size of zero is the default size, and page 0 is page 1. -/
def paginate (s : Store) (q : Query) (perPage : UInt64) (page : Option UInt64) : Except StoreError Page := do
  let perPage := if perPage = 0 then s.paging.defaultPerPage else perPage
  let page := max (page.getD s.paging.defaultPage) 1
  let total ← s.count q
  let data ← s.get (q.paginate page perPage)
  .ok ⟨data, total, perPage, page, (Pagination.ofPage page perPage).totalPages total⟩

def first (s : Store) (q : Query) : Except StoreError (Option Row) := do
  let rows ← s.get (q.limit 1)
  .ok rows.head?

def find (s : Store) (q : Query) (id : Json) : Except StoreError (Option Row) := do
  let m ← s.metadata q.table
  s.first (q.whereEqual m.primaryKey id)

def value (s : Store) (q : Query) (column : String) : Except StoreError (Option Json) := do
  let tuples ← s.selectTuples (q.limit 1)
  .ok (tuples.head?.map (·.resolve column))

def keyText : Json → String
  | .string s => s
  | a => a.text

/-- One column by the text of another; of two tuples with the same text the later counts. -/
def pluck (s : Store) (q : Query) (valueColumn keyColumn : String) : Except StoreError Row := do
  let tuples ← s.selectTuples q
  .ok (.ofList (tuples.map fun t => (keyText (t.resolve keyColumn), t.resolve valueColumn)))

end Store

end RowQuery
