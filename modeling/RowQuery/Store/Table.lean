import RowQuery.Json.Order
import RowQuery.Settings.Basic
import RowQuery.Store.Error

namespace RowQuery

inductive RelationKind
  | many
  | one
deriving DecidableEq

/-- A relation to the rows of another table whose `relatedColumn` has the value of the parent's
`parentColumn`. -/
structure Relation where
  relatedTable : String
  relatedColumn : String
  parentColumn : String
  kind : RelationKind
deriving DecidableEq

structure Table where
  primaryKey : String
  rows : List Row := []
  nextKey : Int64 := 1
  relations : Dict Relation := .empty
deriving DecidableEq

structure Store where
  tables : Dict Table := .empty
  paging : PageSettings := {}
deriving DecidableEq

namespace Relation

def hasMany (relatedTable foreignKey localKey : String) : Relation := ⟨relatedTable, foreignKey, localKey, .many⟩

def hasOne (relatedTable foreignKey localKey : String) : Relation := ⟨relatedTable, foreignKey, localKey, .one⟩

/-- The parent holds the foreign key. -/
def belongsTo (relatedTable foreignKey ownerKey : String) : Relation := ⟨relatedTable, ownerKey, foreignKey, .one⟩

end Relation

namespace Table

def columnNames (t : Table) : List String := (t.rows.foldl Dict.merge (.empty : Row)).names

/-- The key of a row, unless it is missing or null. -/
def keyOf? (t : Table) (row : Row) : Option Json := (row.get? t.primaryKey).filter fun key => !key.isNull

def hasKey (t : Table) (key : Json) : Bool := t.rows.any fun row => (row.get? t.primaryKey).any (·.equal key)

def keyIsAmong (t : Table) (keys : List Json) (row : Row) : Bool :=
  (row.get? t.primaryKey).any fun key => keys.any key.equal

/-- The next key once a row with the given key has been added. -/
def keyAfter (next : Int64) : Json → Int64
  | .number n => match n.int64? with
    | some id => max next (id + 1)
    | none => next
  | _ => next

/-- Adds a row at the end. A row without a key is given the next one, and a key that is equal to the key of
another row is refused. -/
def insert (name : String) (t : Table) (row : Row) : Except StoreError (Row × Table) :=
  match t.keyOf? row with
  | some key =>
    if t.hasKey key then .error (.duplicateKey name key)
    else .ok (row, { t with rows := t.rows ++ [row], nextKey := keyAfter t.nextKey key })
  | none =>
    let row := row.insert t.primaryKey (.ofInt64 t.nextKey)
    .ok (row, { t with rows := t.rows ++ [row], nextKey := t.nextKey + 1 })

/-- Adds rows in turn, up to the first that is refused. The rows before it stay. -/
def insertEach (name : String) (t : Table) : List Row → Except StoreError Unit × Table
  | [] => (.ok (), t)
  | row :: rest =>
    match t.insert name row with
    | .ok (_, t) => insertEach name t rest
    | .error e => (.error e, t)

/-- Adds objects in turn, up to the first value that is not one or is refused. The rows before it stay. -/
def seed (name : String) (t : Table) : List Json → Except StoreError Unit × Table
  | [] => (.ok (), t)
  | .object members :: rest =>
    match t.insert name (.ofList members) with
    | .ok (_, t) => seed name t rest
    | .error e => (.error e, t)
  | _ :: _ => (.error (.seedNotObject name), t)

/-- Writes data over the rows whose key is among the given ones, and counts them. -/
def update (t : Table) (keys : List Json) (data : Row) : Nat × Table :=
  (t.rows.countP (t.keyIsAmong keys),
    { t with rows := t.rows.map fun row => if t.keyIsAmong keys row then row.merge data else row })

def delete (t : Table) (keys : List Json) : Nat × Table :=
  (t.rows.countP (t.keyIsAmong keys), { t with rows := t.rows.filter fun row => !t.keyIsAmong keys row })

/-- Whether a row has the given values, null included. -/
def hasValues (attributes : Row) (row : Row) : Bool :=
  attributes.entries.all fun e => (row.get? e.1).any fun a => a.same e.2 || a.equal e.2

def updateFirst (attributes values : Row) : List Row → Option (Row × List Row)
  | [] => none
  | row :: rest =>
    if hasValues attributes row then some (row.merge values, row.merge values :: rest)
    else (updateFirst attributes values rest).map fun (found, rest) => (found, row :: rest)

def updateOrCreate (name : String) (t : Table) (attributes values : Row) : Except StoreError (Row × Table) :=
  match updateFirst attributes values t.rows with
  | some (row, rows) => .ok (row, { t with rows })
  | none => t.insert name (attributes.merge values)

/-- A value plus an amount. A missing value counts as zero, a sum of 64-bit integers may not overflow, and
all other numbers are added as doubles. -/
def incremented (name column : String) (held : Option Json) (amount : Int64) : Except StoreError Json :=
  match held with
  | none | some .null => .ok (.ofInt64 amount)
  | some (.number n) =>
    match n.int64? with
    | some i =>
      match int64OfInt? (i.toInt + amount.toInt) with
      | some sum => .ok (.ofInt64 sum)
      | none => .error (.incrementOverflow name column amount i)
    | none => .ok (.ofDouble (n.toDouble.add (.ofInt amount.toInt)))
  | some a => .error (.notNumeric name column a)

/-- Adds an amount to a column of the rows that pass a test, up to the first row where it cannot be added.
The rows before it keep their sums. -/
def incrementEach (name column : String) (amount : Int64) (test : Row → Bool) :
    List Row → Except StoreError Nat × List Row
  | [] => (.ok 0, [])
  | row :: rest =>
    if test row then
      match incremented name column (row.get? column) amount with
      | .ok a =>
        let (count, rest) := incrementEach name column amount test rest
        (count.map (· + 1), row.insert column a :: rest)
      | .error e => (.error e, row :: rest)
    else
      let (count, rest) := incrementEach name column amount test rest
      (count, row :: rest)

def increment (name : String) (t : Table) (keys : List Json) (column : String) (amount : Int64) :
    Except StoreError Nat × Table :=
  let (count, rows) := incrementEach name column amount (t.keyIsAmong keys) t.rows
  (count, { t with rows })

end Table

end RowQuery
