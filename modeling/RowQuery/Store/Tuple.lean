import RowQuery.Json.Basic
import RowQuery.Text.Split

namespace RowQuery

/-- The joined rows of a query's tables: their columns by plain name, and by name with the table in front. -/
structure Tuple where
  plain : Row := .empty
  qualified : Row := .empty
deriving DecidableEq

namespace Tuple

def qualify (table column : String) : String := table ++ "." ++ column

/-- Adds a table's row. Its columns take the plain names from the tables before it. -/
def merge (t : Tuple) (table : String) (row : Row) : Tuple where
  plain := t.plain.merge row
  qualified := t.qualified.addAll (row.entries.map fun e => (qualify table e.1, e.2))

/-- Adds a table's columns as nulls, which take no plain name that is in use. -/
def mergeNulls (t : Tuple) (table : String) (columns : List String) : Tuple where
  plain := columns.foldl (fun row column => if row.contains column then row else row.insert column .null) t.plain
  qualified := t.qualified.addAll (columns.map fun column => (qualify table column, .null))

def ofRow (table : String) (row : Row) : Tuple := merge {} table row

/-- The value of a column, whose name is qualified if it has a point in it. A missing column is null. -/
def resolve (t : Tuple) (column : String) : Json :=
  ((if column.toList.contains '.' then t.qualified else t.plain).get? column).getD .null

/-- The column that a qualified name gives to a table. -/
def columnOf? (table name : String) : Option String :=
  (List.isPrefixOf? (qualify table "").toList name.toList).map String.ofList

def tableColumns (t : Tuple) (table : String) : Row :=
  .ofList (t.qualified.entries.filterMap fun e => (columnOf? table e.1).map fun column => (column, e.2))

end Tuple

end RowQuery
