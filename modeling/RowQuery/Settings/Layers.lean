import RowQuery.Settings.Basic
import RowQuery.Settings.Path
import RowQuery.Settings.Toml.Document

namespace RowQuery

/-- What settings are read from: files by name, and variables by name. -/
structure SettingsSource where
  files : Dict String := .empty
  environmentVariables : Dict String := .empty

namespace SettingsSource

def fileName : String := "query_scope"

def variablePrefix : String := "query_scope__"

def environment (source : SettingsSource) : String :=
  match source.environmentVariables.get? "QUERY_SCOPE_ENV" with
  | some name => name
  | none => (source.environmentVariables.get? "APP_ENV").getD "development"

/-- A reversed file name without the slashes, and the single dots after a slash, that it ends in. -/
def dropSlashes : List Char → List Char
  | '/' :: rest => dropSlashes rest
  | '.' :: '/' :: rest => dropSlashes rest
  | s => s

/-- The text of a settings file. A file of the exact name stands in its way and is read only if the name
itself ends as settings files do. Slashes at the end of the name do not count, and all files lie in one
directory. -/
def fileText? (source : SettingsSource) (name : String) : Option String :=
  match source.files.get? name with
  | some text => if List.isSuffixOf? ".toml".toList name.toList = none then none else some text
  | none => source.files.get? (String.ofList (dropSlashes name.toList.reverse).reverse ++ ".toml")

def withDots : List Char → List Char
  | '_' :: '_' :: rest => '.' :: withDots rest
  | c :: rest => c :: withDots rest
  | [] => []

/-- The key that a variable sets, if its name says that it is a setting. -/
def variableKey? (name : String) : Option String :=
  (List.isPrefixOf? variablePrefix.toList (Text.lower name.toList)).map fun rest => String.ofList (withDots rest)

end SettingsSource

namespace Settings

/-- What one source has to say: keys, which are read as paths, with their settings. -/
abbrev Layer := List (String × Setting)

def toLayer (s : Settings) : Layer :=
  [("logging.level", .scalar (.text s.logging.level)), ("logging.json", .scalar (.bool s.logging.json)),
    ("pagination.default_page", .scalar (.int s.pagination.defaultPage.toInt64)),
    ("pagination.default_per_page", .scalar (.int s.pagination.defaultPerPage.toInt64))]

def fileLayer? (text : Option String) : Option Layer :=
  match text with
  | none => some []
  | some text => Toml.ofText? text

def variableLayer (source : SettingsSource) : Layer :=
  source.environmentVariables.entries.filterMap fun e =>
    (SettingsSource.variableKey? e.1).map fun key => (key, .scalar (Scalar.ofVariable e.2))

/-- The layers from the one that counts least: the defaults, the file for all environments, the file for
one, and the variables. -/
def layers? (source : SettingsSource) (environment : String) : Option (List Layer) := do
  let base ← fileLayer? (source.fileText? SettingsSource.fileName)
  let overlay ← fileLayer? (source.fileText? (SettingsSource.fileName ++ "." ++ environment))
  some [toLayer {}, base, overlay, variableLayer source]

def addLayer (s : Setting) (layer : Layer) : Setting :=
  layer.foldl (fun s e => .assign e.2 (Path.ofKey e.1) s) s

def merged (layers : List Layer) : Setting := layers.foldl addLayer (.group [])

/-- What a section holds under the given names, or a list by position. -/
def members? (names : List String) : Setting → Option (List (Option Setting))
  | .group entries => some (names.map fun name => (entries.lookup name).filter fun s => !s.isNothing)
  | .list items => some ((List.range names.length).map fun n => items[n]?)
  | _ => none

def scalarOr {α : Type} (default : α) (read : Scalar → Option α) : Option Setting → Option α
  | none => some default
  | some (.scalar v) => read v
  | some _ => none

def logging? (s : Setting) : Option LogSettings := do
  match ← members? ["level", "json"] s with
  | [level, json] =>
    let level ← scalarOr ({} : LogSettings).level (fun v => some v.asText) level
    let json ← scalarOr ({} : LogSettings).json Scalar.bool? json
    some { level, json }
  | _ => none

def pagination? (s : Setting) : Option PageSettings := do
  match ← members? ["default_page", "default_per_page"] s with
  | [page, perPage] =>
    let defaultPage ← scalarOr ({} : PageSettings).defaultPage Scalar.count? page
    let defaultPerPage ← scalarOr ({} : PageSettings).defaultPerPage Scalar.count? perPage
    some { defaultPage, defaultPerPage }
  | _ => none

/-- Reads merged settings, in which both sections must be there. What a section leaves out has its default
value. -/
def ofSetting? (s : Setting) : Option Settings := do
  let logging ← logging? (s.get "logging")
  let pagination ← pagination? (s.get "pagination")
  some { logging, pagination }

/-- The settings for an environment. Of several layers that set one name the last counts. -/
def load (source : SettingsSource) (environment : String) : Except SettingsError Settings :=
  match (layers? source environment).bind fun layers => ofSetting? (merged layers) with
  | none => .error .unreadable
  | some s => do
    s.validate
    .ok s

end Settings

end RowQuery
