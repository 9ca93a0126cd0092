import RowQuery.Query.Basic

namespace RowQuery

namespace Sql

def apostrophe : Char := '\x27'

/-- A text between apostrophes; an apostrophe in it is written twice. -/
def literal (s : List Char) : List Char :=
  apostrophe :: s.flatMap (fun c => if c = apostrophe then [apostrophe, apostrophe] else [c]) ++ [apostrophe]

/-- A value in SQL; arrays and objects are literals of their JSON text. -/
def value : Json → List Char
  | .null => ['N', 'U', 'L', 'L']
  | .string s => literal s.toList
  | .array items => literal (Json.array items).chars
  | .object members => literal (Json.object members).chars
  | a => a.chars

def valueText (a : Json) : String := String.ofList (value a)

def valueList (values : List Json) : String := String.intercalate ", " (values.map valueText)

end Sql

namespace Condition

def sql : Condition → String
  | .compare field operator value =>
    if value.isNull ∧ operator = "=" then field ++ " IS NULL"
    else if value.isNull ∧ (operator = "!=" ∨ operator = "<>") then field ++ " IS NOT NULL"
    else field ++ " " ++ operator ++ " " ++ Sql.valueText value
  | .isIn field values => if values = [] then "0 = 1" else field ++ " IN (" ++ Sql.valueList values ++ ")"
  | .isNotIn field values => if values = [] then "1 = 1" else field ++ " NOT IN (" ++ Sql.valueList values ++ ")"
  | .between field start stop => field ++ " BETWEEN " ++ Sql.valueText start ++ " AND " ++ Sql.valueText stop
  | .date field operator value => "DATE(" ++ field ++ ") " ++ operator ++ " " ++ Sql.valueText value
  | .month field operator value => "MONTH(" ++ field ++ ") " ++ operator ++ " " ++ Sql.valueText value

end Condition

def Logic.sql : Logic → String
  | .and => " AND "
  | .or => " OR "

/-- A group of several conditions stands in parentheses, and an empty group is always true. -/
def Clause.sql (c : Clause) : String :=
  match c.conditions with
  | [] => "1=1"
  | [condition] => condition.sql
  | conditions => "(" ++ String.intercalate c.logic.sql (conditions.map Condition.sql) ++ ")"

def JoinKind.sql : JoinKind → String
  | .inner => "INNER JOIN"
  | .left => "LEFT JOIN"

def Join.sql (j : Join) : String :=
  j.kind.sql ++ " " ++ j.table ++ " ON " ++ j.on.first ++ " " ++ j.on.operator ++ " " ++ j.on.second

def Order.sql (o : Order) : String := o.column ++ " " ++ o.direction.sql

def Pagination.sql (p : Pagination) : String :=
  (match p.limit with
    | some limit => " LIMIT " ++ toString limit.toNat
    | none => "") ++
  (match p.offset with
    | some offset => " OFFSET " ++ toString offset.toNat
    | none => "")

namespace Query

def joinsSql (q : Query) : String := String.join (q.joins.map fun j => " " ++ j.sql)

def whereSql (q : Query) : String :=
  if q.clauses = [] then "" else " WHERE " ++ String.intercalate " AND " (q.clauses.map Clause.sql)

def orderSql (q : Query) : String :=
  if q.orders = [] then "" else " ORDER BY " ++ String.intercalate ", " (q.orders.map Order.sql)

def paginationSql (q : Query) : String :=
  match q.pagination with
  | some p => p.sql
  | none => ""

def sql (q : Query) : String :=
  "SELECT " ++ String.intercalate ", " q.columns ++ " FROM " ++ q.table ++ q.joinsSql ++ q.whereSql ++
    q.orderSql ++ q.paginationSql

end Query

end RowQuery
