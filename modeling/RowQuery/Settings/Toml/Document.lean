import RowQuery.Settings.Toml.Word

namespace RowQuery.Toml

def readItems? (read? : List Char → Option (Node × List Char)) :
    Nat → List Char → Option (List Node × List Char)
  | 0, _ => none
  | fuel + 1, s =>
    match skipLines s with
    | ']' :: rest => some ([], rest)
    | s => do
      let (v, rest) ← read? s
      match skipLines rest with
      | ',' :: rest => do
        let (items, rest) ← readItems? read? fuel rest
        some (v :: items, rest)
      | ']' :: rest => some ([v], rest)
      | _ => none

def readEntry? (read? : List Char → Option (Node × List Char)) (s : List Char) :
    Option (List String × Node × List Char) := do
  let (path, rest) ← readPath? s
  match rest with
  | '=' :: rest => do
    let (v, rest) ← read? (skipSpace rest)
    some (path, v, skipSpace rest)
  | _ => none

def readEntries? (read? : List Char → Option (Node × List Char)) :
    Nat → Table → List Char → Option (Table × List Char)
  | 0, _, _ => none
  | fuel + 1, t, s => do
    let (path, v, rest) ← readEntry? read? s
    let t ← t.add? v path
    match rest with
    | ',' :: rest => readEntries? read? fuel t rest
    | '\x7d' :: rest => some (t, rest)
    | _ => none

/-- Reads a value, in which brackets and braces go no deeper than `depth`. -/
def readValueWithin? : Nat → List Char → Option (Node × List Char)
  | 0, s => readPlain? s
  | depth + 1, s =>
    match s with
    | '[' :: rest =>
      (readItems? (readValueWithin? depth) (rest.length + 1) rest).map fun (items, rest) => (.list items, rest)
    | '\x7b' :: rest =>
      match skipSpace rest with
      | '\x7d' :: rest => some (.table .braces [], rest)
      | rest =>
        (readEntries? (readValueWithin? depth) (rest.length + 1) [] rest).map fun (t, rest) =>
          (.table .braces t, rest)
    | s => readPlain? s

def readValue? (s : List Char) : Option (Node × List Char) := readValueWithin? depthLimit s

/-- The table that a file holds, and the path of the part of it that is being filled. -/
structure Document where
  root : Table := []
  current : List String := []

namespace Document

def open? (d : Document) (change : String → Table → Option Table) (path : List String) : Option Document :=
  match path.getLast? with
  | none => none
  | some name => (Table.changeAt? (change name) path.dropLast d.root).map fun root => { root, current := path }

def add? (d : Document) (path : List String) (v : Node) : Option Document :=
  (Table.changeAt? (Table.add? v path) d.current d.root).map fun root => { d with root }

def readStatement? (d : Document) (s : List Char) : Option (Document × List Char) :=
  match s with
  | '[' :: '[' :: rest => do
    let (path, rest) ← readPath? rest
    match rest with
    | ']' :: ']' :: rest => (d.open? Table.openNext? path).map (·, rest)
    | _ => none
  | '[' :: rest => do
    let (path, rest) ← readPath? rest
    match rest with
    | ']' :: rest => (d.open? Table.openTable? path).map (·, rest)
    | _ => none
  | s => do
    let (path, v, rest) ← readEntry? readValue? s
    (d.add? path v).map (·, rest)

/-- Reads the rest of a file, in which `fuel` bounds the number of statements. -/
def readAll? : Nat → Document → List Char → Option Document
  | 0, _, _ => none
  | fuel + 1, d, s =>
    match skipLines s with
    | [] => some d
    | s => do
      let (d, rest) ← d.readStatement? s
      let rest ← endLine? rest
      readAll? fuel d rest

end Document

/-- A line break of two characters becomes one. -/
def joinBreaks : List Char → List Char
  | '\r' :: '\n' :: rest => '\n' :: joinBreaks rest
  | c :: rest => c :: joinBreaks rest
  | [] => []

/-- The text behind a byte order mark, if it starts with one. -/
def withoutMark (s : List Char) : List Char :=
  match s with
  | c :: rest => if c = Char.ofNat 0xFEFF then rest else s
  | [] => []

/-- Reads the entries of a file, which has to be a table. -/
def ofText? (s : String) : Option (List (String × Setting)) := do
  let cs := joinBreaks (withoutMark s.toList)
  let d ← Document.readAll? (cs.length + 1) {} cs
  match ← tableSetting? d.root with
  | .group entries => some entries
  | _ => none

end RowQuery.Toml
