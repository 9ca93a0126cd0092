import RowQuery.Settings.Scalar

namespace RowQuery

/-- What a name stands for in settings: a value, a list, or a section with names of its own. A name that
holds nothing is as good as missing; an item that holds nothing fills a list up. -/
inductive Setting
  | nothing
  | scalar (v : Scalar)
  | list (items : List Setting)
  | group (entries : List (String × Setting))

def putEntry {α : Type} (name : String) (value : α) : List (String × α) → List (String × α)
  | [] => [(name, value)]
  | e :: rest => if e.1 = name then (name, value) :: rest else e :: putEntry name value rest

theorem lookup_putEntry_self {α : Type} (name : String) (value : α) (entries : List (String × α)) :
    (putEntry name value entries).lookup name = some value := by
  induction entries with
  | nil => simp [putEntry]
  | cons e rest ih =>
      unfold putEntry
      split
      · simp
      · rename_i h
        have hne : (name == e.1) = false := by simpa using fun he => h he.symm
        rw [List.lookup_cons, hne, ih]

theorem lookup_putEntry_of_ne {α : Type} {name other : String} (h : other ≠ name) (value : α)
    (entries : List (String × α)) : (putEntry name value entries).lookup other = entries.lookup other := by
  have hne : (other == name) = false := by simpa using h
  induction entries with
  | nil => simp [putEntry, List.lookup_cons, hne]
  | cons e rest ih =>
      unfold putEntry
      split
      · rename_i he
        subst he
        obtain ⟨key, old⟩ := e
        simp [List.lookup_cons, hne]
      · rw [List.lookup_cons, List.lookup_cons, ih]

/-- A step on the way to a setting: to a name in a section, or to an item of a list, which is counted from the
end if its number is negative. -/
inductive Step
  | name (name : String)
  | item (number : Int)
deriving DecidableEq

abbrev Path := List Step

namespace Setting

def isNothing : Setting → Bool
  | .nothing => true
  | _ => false

def entries : Setting → List (String × Setting)
  | .group entries => entries
  | _ => []

def items : Setting → List Setting
  | .list items => items
  | _ => []

def get (s : Setting) (name : String) : Setting := (s.entries.lookup name).getD .nothing

/-- Sets a name in a section. Anything else gives way to a section. -/
def put (s : Setting) (name : String) (value : Setting) : Setting := .group (putEntry name value s.entries)

/-- A list that is filled up, behind or in front, as far as the item of a number, and the position of that
item in it. -/
def reach (items : List Setting) (number : Int) : List Setting × Nat :=
  if 0 ≤ number then (items ++ List.replicate (number.toNat + 1 - items.length) nothing, number.toNat)
  else
    let missing := number.natAbs - items.length
    (List.replicate missing nothing ++ items, missing + items.length - number.natAbs)

mutual

/-- Lays a setting over what is there. Sections are merged name by name, and case does not matter in a name;
all else replaces what was there. A section without names changes nothing. -/
def overlay (old : Setting) : Setting → Setting
  | .group entries => overlayEntries old entries
  | .list items => .list items
  | .scalar v => .scalar v
  | .nothing => .nothing

def overlayEntries (old : Setting) : List (String × Setting) → Setting
  | [] => old
  | (name, value) :: rest =>
    let name := Text.lowered name
    overlayEntries (old.put name (overlay (old.get name) value)) rest

end

/-- Lays a setting over what the path leads to. What is no section or no list on the way gives way to one. An
item of a list is not merged but replaced. -/
def assign (value : Setting) : Path → Setting → Setting
  | [], s => overlay s value
  | .name name :: steps, s =>
    let name := Text.lowered name
    s.put name (assign value steps (s.get name))
  | .item number :: steps, s =>
    let (items, n) := reach s.items number
    .list (items.set n (if steps.isEmpty then value else assign value steps (items.getD n .nothing)))

end Setting

end RowQuery
