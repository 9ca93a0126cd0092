import RowQuery.Json.Printer

namespace RowQuery

inductive StoreError
  | tableNotFound (table : String)
  | relationNotFound (table relation : String)
  | unsupportedOperator (operator : String)
  | duplicateKey (table : String) (key : Json)
  | incrementOverflow (table column : String) (amount held : Int64)
  | notNumeric (table column : String) (held : Json)
  | seedNotObject (table : String)
deriving DecidableEq

namespace StoreError

def constraint (table message : String) : String := "Constraint violation on `" ++ table ++ "`: " ++ message

def message : StoreError → String
  | .tableNotFound table => "Table not found: " ++ table
  | .relationNotFound table relation => "Relation `" ++ relation ++ "` is not defined on `" ++ table ++ "`"
  | .unsupportedOperator operator => "Unsupported operator: " ++ operator
  | .duplicateKey table key => constraint table ("duplicate primary key " ++ key.text)
  | .incrementOverflow table column amount held =>
    constraint table s!"increment of `{column}` by {amount.toInt} overflows {held.toInt}"
  | .notNumeric table column held =>
    constraint table ("cannot increment non-numeric column `" ++ column ++ "` holding " ++ held.text)
  | .seedNotObject table => "Store backend error: seed rows for `" ++ table ++ "` must be objects"

end StoreError

end RowQuery
