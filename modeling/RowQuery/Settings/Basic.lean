import RowQuery.Json.Basic
import RowQuery.Text.Blank

namespace RowQuery

structure LogSettings where
  level : String := "info"
  json : Bool := false
deriving DecidableEq

/-- The page that is meant where none is named, and the size of a page where none is given. -/
structure PageSettings where
  defaultPage : UInt64 := 1
  defaultPerPage : UInt64 := 15
deriving DecidableEq

structure Settings where
  logging : LogSettings := {}
  pagination : PageSettings := {}
deriving DecidableEq

inductive SettingsError
  | blankLevel
  | zeroPage
  | zeroPerPage
  | unreadable
deriving DecidableEq

namespace SettingsError

def message : SettingsError → String
  | .blankLevel => "Configuration error: logging.level must not be empty"
  | .zeroPage => "Configuration error: pagination.default_page must be greater than 0"
  | .zeroPerPage => "Configuration error: pagination.default_per_page must be greater than 0"
  | .unreadable => "Configuration error: unreadable settings"

end SettingsError

namespace Settings

def validate (s : Settings) : Except SettingsError Unit :=
  if Text.trim s.logging.level.toList = [] then .error .blankLevel
  else if s.pagination.defaultPage = 0 then .error .zeroPage
  else if s.pagination.defaultPerPage = 0 then .error .zeroPerPage
  else .ok ()

end Settings

def memberOr {α : Type} (default : α) (read : Json → Option α) : Option Json → Option α
  | some a => read a
  | none => some default

/-- The members that an object has, or a list has by position, under the given names. -/
def sectionMembers? (names : List String) : Json → Option (List (Option Json))
  | .object members => some (names.map fun name => members.lookup name)
  | .array items =>
    if items.length ≤ names.length then some ((List.range names.length).map fun n => items[n]?) else none
  | _ => none

namespace Json

def bool? : Json → Option Bool
  | .bool b => some b
  | _ => none

def uint64? : Json → Option UInt64
  | .number n => n.uint64?
  | _ => none

end Json

def LogSettings.ofRecord? (a : Json) : Option LogSettings := do
  match ← sectionMembers? ["level", "json"] a with
  | [level, json] =>
    let level ← memberOr ({} : LogSettings).level Json.text? level
    let json ← memberOr ({} : LogSettings).json Json.bool? json
    some { level, json }
  | _ => none

def PageSettings.ofRecord? (a : Json) : Option PageSettings := do
  match ← sectionMembers? ["default_page", "default_per_page"] a with
  | [page, perPage] =>
    let defaultPage ← memberOr ({} : PageSettings).defaultPage Json.uint64? page
    let defaultPerPage ← memberOr ({} : PageSettings).defaultPerPage Json.uint64? perPage
    some { defaultPage, defaultPerPage }
  | _ => none

/-- Reads an object or, by position, a list. What is left out has its default value. -/
def Settings.ofRecord? (a : Json) : Option Settings := do
  match ← sectionMembers? ["logging", "pagination"] a with
  | [logging, pagination] =>
    let logging ← memberOr {} LogSettings.ofRecord? logging
    let pagination ← memberOr {} PageSettings.ofRecord? pagination
    some { logging, pagination }
  | _ => none

def Settings.toRecord (s : Settings) : Json :=
  .record [("logging", .record [("level", .string s.logging.level), ("json", .bool s.logging.json)]),
    ("pagination", .record [("default_page", .ofUInt64 s.pagination.defaultPage),
      ("default_per_page", .ofUInt64 s.pagination.defaultPerPage)])]

end RowQuery
