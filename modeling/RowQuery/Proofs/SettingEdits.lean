import RowQuery.Settings.Setting
import Mathlib.Data.List.Induction

namespace RowQuery.Setting

variable {s : Setting} {f : Setting → Setting} {name other : String} {value : Setting}

theorem get_put_self (s : Setting) (name : String) (value : Setting) : (s.put name value).get name = value := by
  rw [put, get, entries, lookup_putEntry_self, Option.getD_some]

theorem get_put_of_ne (h : other ≠ name) (s value : Setting) : (s.put name value).get other = s.get other := by
  rw [put, get, entries, lookup_putEntry_of_ne h, get]

/-- A section that is laid over a setting changes each name by what it has under it, in any case. -/
theorem get_overlay_group (s : Setting) (entries : List (String × Setting)) (name : String) :
    (overlay s (.group entries)).get name =
      ((entries.filter fun e => Text.lowered e.1 = name).map Prod.snd).foldl overlay (s.get name) := by
  rw [overlay]
  induction entries generalizing s with
  | nil => rw [overlayEntries]; rfl
  | cons e rest ih =>
      rw [overlayEntries]
      refine (ih _).trans ?_
      by_cases h : Text.lowered e.1 = name
      · rw [List.filter_cons_of_pos (by simpa using h), List.map_cons, List.foldl_cons, ← h, get_put_self]
      · rw [List.filter_cons_of_neg (by simpa using h), get_put_of_ne (Ne.symm h)]

theorem overlay_group_ne_list (h : ∀ items, s ≠ .list items) (entries : List (String × Setting)) :
    ∀ items, overlay s (.group entries) ≠ .list items := by
  rw [overlay]
  induction entries generalizing s with
  | nil => rwa [overlayEntries]
  | cons e rest ih =>
      rw [overlayEntries]
      exact ih fun items => by simp [put]

/-- A list or a section, which no scalar can be read from. -/
def IsCompound : Setting → Prop
  | .list _ | .group _ => True
  | .nothing | .scalar _ => False

theorem isCompound_overlayEntries (h : s.IsCompound) (entries : List (String × Setting)) :
    (overlayEntries s entries).IsCompound := by
  induction entries generalizing s with
  | nil => rwa [overlayEntries]
  | cons e rest ih =>
      rw [overlayEntries]
      exact ih trivial

/-- The three things that an edit may do to whatever was set before. -/
inductive Settles (f : Setting → Setting) : Prop
  | keeps (h : ∀ s, f s = s)
  | sets (v : Scalar) (h : ∀ s, f s = .scalar v)
  | shapes (h : ∀ s, (f s).IsCompound)

theorem settles_overlay (h : value ≠ .nothing) : Settles fun s => overlay s value := by
  cases value with
  | nothing => exact absurd rfl h
  | scalar v => exact .sets v fun s => by rw [overlay]
  | list items => exact .shapes fun s => by rw [overlay]; trivial
  | group entries =>
      cases entries with
      | nil => exact .keeps fun s => by rw [overlay, overlayEntries]
      | cons e rest =>
          refine .shapes fun s => ?_
          rw [overlay, overlayEntries]
          exact isCompound_overlayEntries (by trivial) rest

theorem settles_assign (h : value ≠ .nothing) (steps : Path) : Settles (assign value steps) := by
  cases steps with
  | nil => exact settles_overlay h
  | cons step rest =>
      cases step with
      | name name => exact .shapes fun s => by rw [assign]; trivial
      | item number => exact .shapes fun s => by rw [assign]; trivial

/-- What a chain of edits, of which `said` is the last that did anything to nothing, leaves of what was before. -/
def Leaves (said : Option Setting) (before after : Setting) : Prop :=
  match said with
  | none => after = before
  | some (.scalar v) => after = .scalar v
  | some _ => after.IsCompound

/-- The last of some settings that is one. -/
def lastOf (settings : List Setting) : Option Setting := (settings.filter fun s => !s.isNothing).getLast?

theorem lastOf_concat (settings : List Setting) (s : Setting) :
    lastOf (settings ++ [s]) = if s.isNothing then lastOf settings else some s := by
  rw [lastOf, List.filter_append]
  cases h : s.isNothing <;> simp [h, lastOf]

theorem lastOf_eq_none {settings : List Setting} : lastOf settings = none ↔ ∀ s ∈ settings, s.isNothing = true := by
  simp [lastOf]

/-- The induction takes the last edit off. Only if it keeps what was before do the earlier ones count. -/
theorem leaves_foldl (fs : List (Setting → Setting)) (h : ∀ f ∈ fs, Settles f) (s : Setting) :
    Leaves (lastOf (fs.map fun f => f .nothing)) s (fs.foldl (fun s f => f s) s) := by
  induction fs using List.reverseRecOn with
  | nil => exact rfl
  | append_singleton fs f ih =>
      obtain ⟨hfs, hf⟩ := List.forall_mem_append.mp h
      rw [List.map_append, List.map_singleton, lastOf_concat, List.foldl_append, List.foldl_cons,
        List.foldl_nil]
      cases hf f (List.mem_singleton_self f) with
      | keeps hkeeps =>
          rw [hkeeps, hkeeps]
          exact ih hfs
      | sets v hsets =>
          rw [hsets, hsets]
          exact rfl
      | shapes hshapes =>
          have hnothing := hshapes .nothing
          have hafter := hshapes (fs.foldl (fun s f => f s) s)
          generalize f .nothing = x at hnothing
          cases x with
          | nothing | scalar => exact hnothing.elim
          | list | group => exact hafter

end RowQuery.Setting
