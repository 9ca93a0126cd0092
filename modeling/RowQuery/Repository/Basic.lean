import RowQuery.Query.Stage
import RowQuery.Repository.Field
import RowQuery.Store.Writing

namespace RowQuery

inductive RepositoryError
  | store (e : StoreError)
  | field (e : FieldError)
  | notFound (table : String) (id : Json)
deriving DecidableEq

def RepositoryError.message : RepositoryError → String
  | .store e => e.message
  | .field e => e.message
  | .notFound table id => "No record found in `" ++ table ++ "` for key " ++ id.text

structure Repository where
  metadata : Metadata
  fields : FieldRegistry := {}
  paging : PageSettings := {}
deriving DecidableEq

namespace Repository

def bind (s : Store) (entity : String) : Except StoreError Repository := do
  let metadata ← s.metadata entity
  .ok { metadata }

def query (r : Repository) : Query := { table := r.metadata.table }

def byKey (r : Repository) (id : Json) : Query := r.query.whereEqual r.metadata.primaryKey id

/-- All rows of a query, or its first page if a page size is given. -/
def records (s : Store) (q : Query) (perPage : Option UInt64) : Except StoreError Records :=
  match perPage.filter (0 < ·) with
  | some perPage => (s.paginate q perPage none).map .page
  | none => (s.get q).map .all

def getAll (r : Repository) (s : Store) (filter : List Predicate) (sorts : List Order)
    (perPage : Option UInt64) (columns : List String) : Except StoreError Records :=
  records s (((r.query.filterBy filter).sortBy sorts).select columns) perPage

/-- The first row that passes a filter; an empty filter asks for no row. -/
def findBy (r : Repository) (s : Store) (filter : List Predicate) (columns : List String) :
    Except StoreError (Option Row) :=
  if filter = [] then .ok none else s.first ((r.query.filterBy filter).select columns)

def countBy (r : Repository) (s : Store) (filter : List Predicate) : Except StoreError Nat :=
  s.count (r.query.filterBy filter)

def getAllRecord (r : Repository) (s : Store) (d : Descriptor) (columns : List String)
    (perPage : Option UInt64) : Except StoreError Records :=
  records s ((r.query.compile d).select columns) perPage

/-- The first page of a descriptor's rows, of the repository's own page size. -/
def paginateDefault (r : Repository) (s : Store) (d : Descriptor) (columns : List String) :
    Except StoreError Page :=
  s.paginate ((r.query.compile d).select columns) r.paging.defaultPerPage none

def first (r : Repository) (s : Store) (d : Descriptor) (columns : List String) : Except StoreError (Option Row) :=
  s.first ((r.query.compileStages d Stage.first).select columns)

def found (r : Repository) (id : Json) : Except StoreError (Option Row) → Except RepositoryError Row
  | .ok (some row) => .ok row
  | .ok none => .error (.notFound r.metadata.table id)
  | .error e => .error (.store e)

/-- The row of a key, if it passes the descriptor's conditions. -/
def findOneById (r : Repository) (s : Store) (id : Json) (d : Descriptor) (columns : List String) :
    Except RepositoryError Row :=
  r.found id (s.find ((r.query.compileStages d Stage.keyed).select columns) id)

def find (r : Repository) (s : Store) (id : Json) : Except StoreError (Option Row) := s.find r.query id

def findById (r : Repository) (s : Store) (id : Json) (columns : List String) : Except RepositoryError Row :=
  r.found id (s.find (r.query.select columns) id)

def firstById (r : Repository) (s : Store) (id : Json) (columns : List String) : Except StoreError (Option Row) :=
  s.first ((r.byKey id).select columns)

def valueById (r : Repository) (s : Store) (id : Json) (column : String) : Except StoreError (Option Json) :=
  s.value (r.byKey id) column

def getPluck (r : Repository) (s : Store) (valueColumn keyColumn : String) : Except StoreError Row :=
  s.pluck r.query valueColumn keyColumn

def create (r : Repository) (s : Store) (row : Row) : Change Row := s.create r.metadata.table row

def insert (r : Repository) (s : Store) (rows : List Row) : Change Unit := s.insert r.metadata.table rows

def insertGetId (r : Repository) (s : Store) (row : Row) : Change Json := s.insertGetId r.metadata.table row

def update (r : Repository) (s : Store) (id : Json) (data : Row) : Change Nat := s.update (r.byKey id) data

def updateBy (r : Repository) (s : Store) (column : String) (value : Json) (data : Row) : Change Nat :=
  s.update (r.query.whereEqual column value) data

/-- Writes data over the rows of a key and answers with a row that has been found. -/
def write (r : Repository) (s : Store) (id : Json) (data row : Row) : Except RepositoryError Row × Store :=
  match s.update (r.byKey id) data with
  | (.ok _, s) => (.ok row, s)
  | (.error e, s) => (.error (.store e), s)

/-- Updates the row of a key, which has to be there, and answers with it as it is then. -/
def updateById (r : Repository) (s : Store) (id : Json) (data : Row) : Except RepositoryError Row × Store :=
  match r.findById s id [] with
  | .ok row => r.write s id data (row.merge data)
  | .error e => (.error e, s)

def updateOrCreate (r : Repository) (s : Store) (attributes values : Row) : Change Row :=
  s.updateOrCreate r.metadata.table attributes values

def updateOrCreateData (r : Repository) (s : Store) (id : Json) (data : Row) : Change Row :=
  r.updateOrCreate s (Dict.empty.insert r.metadata.primaryKey id) data

/-- What a field is set to: the given value if it counts as given, and otherwise 0 in place of a value that
stands for 1, and 1 in place of any other. -/
def nextValue (value : Option Json) (current : Json) : Json :=
  match value.filter Json.isTruthy with
  | some value => value
  | none => if current.isOne then .ofInt64 0 else .ofInt64 1

def fieldUpdate (r : Repository) (s : Store) (id : Json) (field : String) (value : Option Json) :
    Except RepositoryError (Row × Json) := do
  let f ← (r.fields.field field).mapError .field
  let row ← r.findById s id []
  let next := nextValue value (f.get row)
  let row ← (f.set row next).mapError .field
  .ok (row, next)

/-- Sets a registered field of the row of a key, or toggles it if no value is given. -/
def updateByField (r : Repository) (s : Store) (id : Json) (field : String) (value : Option Json) :
    Except RepositoryError Row × Store :=
  match r.fieldUpdate s id field value with
  | .ok (row, next) => r.write s id (Dict.empty.insert field next) row
  | .error e => (.error e, s)

/-- Deletes the rows of a list of keys, or of one key, which has to be there. -/
def delete (r : Repository) (s : Store) (id : Json) : Except RepositoryError Nat × Store :=
  match id with
  | .array ids => lift (s.destroy r.metadata.table ids)
  | id =>
    match r.findById s id [] with
    | .ok _ => lift (s.delete (r.byKey id))
    | .error e => (.error e, s)
where
  lift (c : Change Nat) : Except RepositoryError Nat × Store := (c.1.mapError .store, c.2)

def increment (r : Repository) (s : Store) (id : Json) (column : String) (amount : Int64) : Change Nat :=
  s.increment (r.byKey id) column amount

end Repository

end RowQuery
