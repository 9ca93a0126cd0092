import RowQuery.Store.Reading

namespace RowQuery

/-- What a change of a store answers, and the store after it. A change that fails half-way leaves the store
with what it had done until then. -/
abbrev Change (α : Type) := Except StoreError α × Store

namespace Store

def putTable (s : Store) (name : String) (t : Table) : Store := { s with tables := s.tables.insert name t }

/-- Adds an empty table, unless there is one of this name. -/
def createTable (s : Store) (name primaryKey : String) : Store :=
  if s.tables.contains name then s else s.putTable name { primaryKey }

def changeTable {α : Type} (s : Store) (name : String) (change : Table → Except StoreError α × Table) : Change α :=
  match s.table name with
  | .ok t =>
    let (answer, t) := change t
    (answer, s.putTable name t)
  | .error e => (.error e, s)

/-- Changes a table, or leaves it as it is if the change fails. -/
def tryTable {α : Type} (s : Store) (name : String) (change : Table → Except StoreError (α × Table)) : Change α :=
  s.changeTable name fun t =>
    match change t with
    | .ok (a, t) => (.ok a, t)
    | .error e => (.error e, t)

def defineRelation (s : Store) (table name : String) (r : Relation) : Change Unit :=
  s.changeTable table fun t => (.ok (), { t with relations := t.relations.insert name r })

def seed (s : Store) (table : String) (values : List Json) : Change Unit :=
  s.changeTable table fun t => t.seed table values

def rows (s : Store) (table : String) : Except StoreError (List Row) := do
  let t ← s.table table
  .ok t.rows

def create (s : Store) (table : String) (row : Row) : Change Row := s.tryTable table fun t => t.insert table row

def insert (s : Store) (table : String) (rows : List Row) : Change Unit :=
  s.changeTable table fun t => t.insertEach table rows

def insertGetId (s : Store) (table : String) (row : Row) : Change Json :=
  s.tryTable table fun t => do
    let (row, t) ← t.insert table row
    .ok ((row.get? t.primaryKey).getD .null, t)

def matchedKeys (s : Store) (q : Query) : Except StoreError (List Json) := do
  let t ← s.table q.table
  let tuples ← s.selectTuples q
  .ok (tuples.map (·.resolve (Tuple.qualify q.table t.primaryKey)))

def changeMatched {α : Type} (s : Store) (q : Query)
    (change : Table → List Json → Except StoreError α × Table) : Change α :=
  match s.matchedKeys q with
  | .ok keys => s.changeTable q.table fun t => change t keys
  | .error e => (.error e, s)

def update (s : Store) (q : Query) (data : Row) : Change Nat :=
  s.changeMatched q fun t keys =>
    let (count, t) := t.update keys data
    (.ok count, t)

def updateOrCreate (s : Store) (table : String) (attributes values : Row) : Change Row :=
  s.tryTable table fun t => t.updateOrCreate table attributes values

def delete (s : Store) (q : Query) : Change Nat :=
  s.changeMatched q fun t keys =>
    let (count, t) := t.delete keys
    (.ok count, t)

def destroy (s : Store) (table : String) (ids : List Json) : Change Nat :=
  s.changeTable table fun t =>
    let (count, t) := t.delete ids
    (.ok count, t)

def increment (s : Store) (q : Query) (column : String) (amount : Int64) : Change Nat :=
  s.changeMatched q fun t keys => t.increment q.table keys column amount

end Store

end RowQuery
