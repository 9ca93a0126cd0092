import RowQuery.Json.Printer

namespace RowQuery

inductive FieldKind
  | integer
  /-- True and false, or the integers 0 and 1. -/
  | boolean
  | number
  | text
  | any
deriving DecidableEq

structure Field where
  name : String
  kind : FieldKind
  nullable : Bool
deriving DecidableEq

inductive FieldError
  | invalidName (name : String)
  | alreadyRegistered (name : String)
  | unknown (name : String)
  | nullNotAllowed (name : String)
  | wrongKind (name : String) (value : Json) (kind : FieldKind)
deriving DecidableEq

namespace FieldKind

def name : FieldKind → String
  | .integer => "Integer"
  | .boolean => "Boolean"
  | .number => "Number"
  | .text => "Text"
  | .any => "Any"

def accepts : FieldKind → Json → Bool
  | .integer, .number (.integer _) => true
  | .boolean, .bool _ => true
  | .boolean, .number (.integer i) => i.val == 0 || i.val == 1
  | .number, .number _ => true
  | .text, .string _ => true
  | .any, _ => true
  | _, _ => false

end FieldKind

namespace FieldError

def invalid (field reason : String) : String := "Invalid value for field `" ++ field ++ "`: " ++ reason

def message : FieldError → String
  | .invalidName name => "Configuration error: invalid field name `" ++ name ++ "`"
  | .alreadyRegistered name => "Configuration error: field `" ++ name ++ "` is already registered"
  | .unknown name => "Field `" ++ name ++ "` is not registered for updates"
  | .nullNotAllowed name => invalid name "null is not allowed"
  | .wrongKind name value kind => invalid name (value.text ++ " is not a valid " ++ kind.name)

end FieldError

namespace Field

def get (f : Field) (row : Row) : Json := (row.get? f.name).getD .null

def validate (f : Field) (value : Json) : Except FieldError Unit :=
  if value.isNull then (if f.nullable then .ok () else .error (.nullNotAllowed f.name))
  else if f.kind.accepts value then .ok ()
  else .error (.wrongKind f.name value f.kind)

def set (f : Field) (row : Row) (value : Json) : Except FieldError Row := do
  f.validate value
  .ok (row.insert f.name value)

end Field

structure FieldRegistry where
  fields : Dict Field := .empty
deriving DecidableEq

namespace FieldRegistry

def size (r : FieldRegistry) : Nat := r.fields.size

def contains (r : FieldRegistry) (name : String) : Bool := r.fields.contains name

/-- ASCII letters, digits and underscores, at least one. -/
def isValidName (name : String) : Bool :=
  name ≠ "" && name.toList.all fun c => c.isAlphanum || c = '_'

def register (r : FieldRegistry) (f : Field) : Except FieldError FieldRegistry :=
  if !isValidName f.name then .error (.invalidName f.name)
  else if r.contains f.name then .error (.alreadyRegistered f.name)
  else .ok ⟨r.fields.insert f.name f⟩

/-- Adds fields in turn, unless one of them cannot be added. -/
def registerAll (r : FieldRegistry) (fields : List Field) : Except FieldError FieldRegistry :=
  fields.foldlM register r

def field (r : FieldRegistry) (name : String) : Except FieldError Field :=
  match r.fields.get? name with
  | some f => .ok f
  | none => .error (.unknown name)

end FieldRegistry

end RowQuery
