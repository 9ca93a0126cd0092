import RowQuery.Descriptor.Basic
import RowQuery.Descriptor.Malformed
import RowQuery.Double.Decimal
import RowQuery.Text.Blank
import RowQuery.Text.Case

namespace RowQuery

namespace Descriptor

/-- A member of an object, unless its value counts as not given. -/
def given? (members : List (String × Json)) (name : String) : Option Json :=
  (members.lookup name).filter Json.isTruthy

def readList {α : Type} (fragment : Fragment) (read : Json → Except Malformed α) :
    Json → Except Malformed (List α)
  | .array items => items.mapM read
  | a => .error ⟨fragment, .notList a⟩

def tokens (s : String) : List String := (Text.splitText ',' s).map Text.trimmed

def readText (fragment : Fragment) (component : Component) : Json → Except Malformed String
  | .string s => .ok s
  | a => .error ⟨fragment, .notText component a⟩

def required (fragment : Fragment) (component : Component) (members : List (String × Json)) (name : String) :
    Except Malformed Json :=
  match members.lookup name with
  | some a => .ok a
  | none => .error ⟨fragment, .missing component⟩

/-- Reads `[column, operator, value]` or an object with these members, of which the value may be left out. -/
def readPredicate (fragment : Fragment) : Json → Except Malformed Predicate
  | .object members => do
    let column ← required fragment .column members "column"
    let operator ← required fragment .operator members "operator"
    let column ← readText fragment .column column
    let operator ← readText fragment .operator operator
    .ok ⟨column, operator, (members.lookup "value").getD .null⟩
  | .array (column :: operator :: value :: _) => do
    let column ← readText fragment .column column
    let operator ← readText fragment .operator operator
    .ok ⟨column, operator, value⟩
  | .array items => .error ⟨fragment, .tooShort 3 items.length⟩
  | a => .error ⟨fragment, .notList a⟩

def readJoin : Json → Except Malformed JoinSpec
  | .array (table :: tableColumn :: operator :: sourceColumn :: _) => do
    let table ← readText .join .table table
    let tableColumn ← readText .join .tableColumn tableColumn
    let operator ← readText .join .operator operator
    let sourceColumn ← readText .join .sourceColumn sourceColumn
    .ok ⟨table, tableColumn, operator, sourceColumn⟩
  | .array items => .error ⟨.join, .tooShort 4 items.length⟩
  | a => .error ⟨.join, .notList a⟩

/-- The items of a membership test. Only a list of two has a column, which has to be a text. -/
def membershipOf (fragment : Fragment) : List Json → Except Malformed Membership
  | [.string column, values] => .ok (.pair column values)
  | [a, _] => .error ⟨fragment, .notText .column a⟩
  | [] => .ok (.ignored [] (by simp))
  | [a] => .ok (.ignored [a] (by simp))
  | a :: b :: c :: rest => .ok (.ignored (a :: b :: c :: rest) (by simp))

def readMembership (fragment : Fragment) : Json → Except Malformed Membership
  | .array items => membershipOf fragment items
  | a => .error ⟨fragment, .notList a⟩

def readDirection (s : String) : Except Malformed Direction :=
  let token := Text.lowered (Text.trimmed s)
  if token = "asc" then .ok .ascending
  else if token = "desc" then .ok .descending
  else .error ⟨.order, .unknownDirection token⟩

def orderOf (column direction : String) : Except Malformed Order := do
  let direction ← readDirection direction
  .ok ⟨column, direction⟩

def readOrder (fragment : Fragment) : Json → Except Malformed Order
  | .string s =>
    match tokens s with
    | [column, direction] => orderOf column direction
    | pieces => .error ⟨fragment, .tokenCount 2 pieces.length⟩
  | .array (column :: direction :: _) => do
    let column ← readText fragment .column column
    let direction ← readText fragment .direction direction
    orderOf column direction
  | .array items => .error ⟨fragment, .tooShort 2 items.length⟩
  | a => .error ⟨fragment, .notList a⟩

/-- Reads `"column,start,end"`, whose ends are texts, or `[column, start, end]`. -/
def readRange : Json → Except Malformed Range
  | .string s =>
    match tokens s with
    | [column, start, stop] => .ok ⟨column, .string start, .string stop⟩
    | pieces => .error ⟨.between, .tokenCount 3 pieces.length⟩
  | .array (column :: start :: stop :: _) => do
    let column ← readText .between .column column
    .ok ⟨column, start, stop⟩
  | .array items => .error ⟨.between, .tooShort 3 items.length⟩
  | a => .error ⟨.between, .notList a⟩

def limit? : Json → Option UInt64
  | .number n => n.uint64?
  | .string s => countOf? (Text.trim s.toList)
  | _ => none

def readLimit (fragment : Fragment) (a : Json) : Except Malformed UInt64 :=
  match limit? a with
  | some n => .ok n
  | none => .error ⟨fragment, .notLimit a⟩

def readFields : Json → Except Malformed (List String)
  | .string s => .ok (tokens s)
  | a => readList .relationField (readText .relationField .field) a

def readRelation : Json → Except Malformed RelationSpec
  | .object members => do
    let name ← required .relation .relationName members "name"
    let name ← readText .relation .name name
    let fields ← (given? members "field").mapM readFields
    let conditions ← (given? members "condition").mapM (readList .relationCondition (readPredicate .relationCondition))
    let limit ← (given? members "limit").mapM (readLimit .relationLimit)
    let order ← (given? members "order").mapM (readOrder .relationOrder)
    .ok ⟨name, fields, conditions.getD [], limit, order⟩
  | a => .error ⟨.relation, .notObject a⟩

def ofMembers (members : List (String × Json)) : Except Malformed Descriptor := do
  let relations ← (given? members "relation").mapM (readList .relation readRelation)
  let joins ← (given? members "join").mapM (readList .join readJoin)
  let whereIn ← (given? members "whereIn").mapM (readMembership .whereIn)
  let whereNotIn ← (given? members "whereNotIn").mapM (readMembership .whereNotIn)
  let whereAll ← (given? members "where").mapM (readList .whereAll (readPredicate .whereAll))
  let whereAny ← (given? members "orWhere").mapM (readList .whereAny (readPredicate .whereAny))
  let whereDate ← (given? members "whereDate").mapM (readPredicate .whereDate)
  let whereMonth ← (given? members "whereMonth").mapM (readPredicate .whereMonth)
  let between ← (given? members "between").mapM readRange
  let order ← (given? members "order").mapM (readOrder .order)
  let limit ← (given? members "limit").mapM (readLimit .limit)
  .ok { relations, joins, whereIn, whereNotIn, whereAll, whereAny, whereDate, whereMonth, between, order, limit }

/-- Reads a descriptor. Null is the empty one; members with other names and values that count as not given
are passed over, and the first malformed part in the order of the parts is the error. -/
def ofJson : Json → Except Malformed Descriptor
  | .null => .ok {}
  | .object members => ofMembers members
  | a => .error ⟨.descriptor, .notObject a⟩

/-- Reads a list of predicates; a value that counts as not given is the empty list. -/
def readPredicates (a : Json) : Except Malformed (List Predicate) :=
  if a.isTruthy then readList .filter (readPredicate .filter) a else .ok []

end Descriptor

end RowQuery
