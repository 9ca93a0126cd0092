import RowQuery.Settings.Setting
import RowQuery.Settings.Toml.Moment

namespace RowQuery.Toml

/-- How a table came about: under a header of its own, on the way to another header, on the way to the end of a
key with dots, or between braces. -/
inductive Origin
  | header
  | implied
  | dotted
  | braces
deriving DecidableEq

/-- What a name stands for while a file is read. A moment is a date or a time that is written without quotes,
and of the tables under one name only the last is open. -/
inductive Node
  | scalar (v : Scalar)
  | moment (text : String)
  | list (items : List Node)
  | table (origin : Origin) (entries : List (String × Node))
  | tables (earlier : List Node) (last : List (String × Node))

abbrev Table := List (String × Node)

/-- The date or time in a text between quotes. -/
def Node.moment? : Node → Option Setting
  | .scalar (.text s) => (momentText? s.toList).map fun text => .scalar (.text (String.ofList text))
  | _ => none

mutual

def Node.setting? : Node → Option Setting
  | .scalar v => some (.scalar v)
  | .moment text => some (.scalar (.text text))
  | .list items => (itemSettings? items).map .list
  | .table _ entries => tableSetting? entries
  | .tables earlier last => do
    let earlier ← itemSettings? earlier
    let last ← tableSetting? last
    some (.list (earlier ++ [last]))

def itemSettings? : List Node → Option (List Setting)
  | [] => some []
  | node :: rest => do
    let v ← node.setting?
    let items ← itemSettings? rest
    some (v :: items)

/-- A table is a moment if its first name says so, and then the rest of it does not count. -/
def tableSetting? : List (String × Node) → Option Setting
  | [] => some (.group [])
  | (name, node) :: rest =>
    if name = momentName then node.moment?
    else do
      let v ← node.setting?
      let entries ← entrySettings? rest
      some (.group ((name, v) :: entries))

def entrySettings? : List (String × Node) → Option (List (String × Setting))
  | [] => some []
  | (name, node) :: rest => do
    let v ← node.setting?
    let entries ← entrySettings? rest
    some ((name, v) :: entries)

end

namespace Table

/-- Changes the table at the end of a path. Tables that are missing on the way are implied, and of several
tables under one name the last is meant. -/
def changeAt? (change : Table → Option Table) : List String → Table → Option Table
  | [], t => change t
  | name :: path, t => do
    let node : Node ← match t.lookup name with
      | none => (changeAt? change path []).map (.table .implied ·)
      | some (.table .braces _) => none
      | some (.table origin inner) => (changeAt? change path inner).map (.table origin ·)
      | some (.tables earlier last) => (changeAt? change path last).map (.tables earlier ·)
      | _ => none
    some (putEntry name node t)

/-- Opens a table under a header. It may be there already only if no more than implied, and then it moves to
the end. -/
def openTable? (name : String) (t : Table) : Option Table :=
  match t.lookup name with
  | none => some (putEntry name (.table .header []) t)
  | some (.table .implied inner) => some (t.filter (·.1 ≠ name) ++ [(name, .table .header inner)])
  | _ => none

/-- Opens one more of the tables under a name. -/
def openNext? (name : String) (t : Table) : Option Table :=
  match t.lookup name with
  | none => some (putEntry name (.tables [] []) t)
  | some (.tables earlier last) => some (putEntry name (.tables (earlier ++ [.table .header last]) []) t)
  | _ => none

/-- Adds a value under a key, whose path must end in a table that a key with dots has made, and may lead
there through tables that have no header. -/
def add? (v : Node) : List String → Table → Option Table
  | [], _ => none
  | [name], t => if (t.lookup name).isSome then none else some (putEntry name v t)
  | name :: path, t => do
    let node : Node ← match t.lookup name with
      | none => (add? v path []).map (.table .dotted ·)
      | some (.table .dotted inner) => (add? v path inner).map (.table .dotted ·)
      | some (.table .implied inner) =>
        if path.length = 1 then none else (add? v path inner).map (.table .implied ·)
      | some (.tables earlier last) =>
        if path.length = 1 then none else (add? v path last).map (.tables earlier ·)
      | _ => none
    some (putEntry name node t)

end Table

end RowQuery.Toml
