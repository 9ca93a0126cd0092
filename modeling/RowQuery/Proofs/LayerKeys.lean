import RowQuery.Proofs.KeyPaths
import RowQuery.Proofs.SettingEdits
import RowQuery.Settings.Layers

namespace RowQuery

/-- Something stands here, and under every name if it is a section. -/
def Setting.Solid (s : Setting) : Prop := s ≠ .nothing ∧ ∀ e ∈ s.entries, e.2 ≠ .nothing

theorem Setting.solid_scalar (v : Scalar) : (scalar v).Solid := ⟨by simp, by simp [entries]⟩

namespace Toml

theorem exists_entrySettings? {entries : List (String × Node)} {settings : List (String × Setting)}
    (h : entrySettings? entries = some settings) : ∀ e ∈ settings, ∃ node : Node, node.setting? = some e.2 := by
  induction entries generalizing settings with
  | nil =>
      rw [entrySettings?] at h
      obtain rfl := Option.some.inj h
      simp
  | cons e rest ih =>
      obtain ⟨name, node⟩ := e
      rw [entrySettings?] at h
      simp only [Option.bind_eq_bind, Option.bind_eq_some_iff, Option.some.injEq] at h
      obtain ⟨v, hv, others, hothers, rfl⟩ := h
      exact List.forall_mem_cons.mpr ⟨⟨node, hv⟩, ih hothers⟩

/-- A table of a file is a section whose names stand for nodes, or a moment. -/
theorem exists_tableSetting? {t : Table} {s : Setting} (h : tableSetting? t = some s) :
    s ≠ .nothing ∧ ∀ e ∈ s.entries, ∃ node : Node, node.setting? = some e.2 := by
  cases t with
  | nil =>
      rw [tableSetting?] at h
      obtain rfl := Option.some.inj h
      simp [Setting.entries]
  | cons e rest =>
      obtain ⟨name, node⟩ := e
      rw [tableSetting?] at h
      split at h
      · unfold Node.moment? at h
        split at h
        · obtain ⟨text, -, rfl⟩ := Option.map_eq_some_iff.mp h
          simp [Setting.entries]
        · cases h
      · simp only [Option.bind_eq_bind, Option.bind_eq_some_iff, Option.some.injEq] at h
        obtain ⟨v, hv, others, hothers, rfl⟩ := h
        exact ⟨by simp, List.forall_mem_cons.mpr ⟨⟨node, hv⟩, exists_entrySettings? hothers⟩⟩

theorem exists_setting? {node : Node} {s : Setting} (h : node.setting? = some s) :
    s ≠ .nothing ∧ ∀ e ∈ s.entries, ∃ other : Node, other.setting? = some e.2 := by
  cases node with
  | table origin entries =>
      rw [Node.setting?] at h
      exact exists_tableSetting? h
  | scalar v | moment text =>
      rw [Node.setting?] at h
      obtain rfl := Option.some.inj h
      simp [Setting.entries]
  | list items =>
      rw [Node.setting?] at h
      obtain ⟨settings, -, rfl⟩ := Option.map_eq_some_iff.mp h
      simp [Setting.entries]
  | tables earlier last =>
      rw [Node.setting?] at h
      simp only [Option.bind_eq_bind, Option.bind_eq_some_iff, Option.some.injEq] at h
      obtain ⟨before, -, v, -, rfl⟩ := h
      simp [Setting.entries]

/-- A file has no way to write nothing. -/
theorem solid_ofText? {text : String} {entries : List (String × Setting)} (h : ofText? text = some entries) :
    ∀ e ∈ entries, e.2.Solid := by
  simp only [ofText?, Option.bind_eq_bind, Option.bind_eq_some_iff] at h
  obtain ⟨d, -, s, hs, h⟩ := h
  split at h
  · obtain rfl := Option.some.inj h
    intro e he
    obtain ⟨node, hnode⟩ := (exists_tableSetting? hs).2 e he
    obtain ⟨hne, hentries⟩ := exists_setting? hnode
    refine ⟨hne, fun n hn => ?_⟩
    obtain ⟨inner, hinner⟩ := hentries n hn
    exact (exists_setting? hinner).1
  · cases h

end Toml

namespace Settings

open Setting

/-- A name in a table of settings. -/
inductive Key
  | level
  | json
  | defaultPage
  | defaultPerPage
deriving DecidableEq

namespace Key

def table : Key → String
  | .level | .json => "logging"
  | .defaultPage | .defaultPerPage => "pagination"

def name : Key → String
  | .level => "level"
  | .json => "json"
  | .defaultPage => "default_page"
  | .defaultPerPage => "default_per_page"

/-- The settings have the value that a scalar stands for under a key. -/
def Takes : Key → Scalar → Settings → Prop
  | .level, v, s => s.logging.level = v.asText
  | .json, v, s => v.bool? = some s.logging.json
  | .defaultPage, v, s => v.count? = some s.pagination.defaultPage
  | .defaultPerPage, v, s => v.count? = some s.pagination.defaultPerPage

/-- The value of a key that no file and no variable sets. -/
def builtIn : Key → Scalar
  | .level => .text "info"
  | .json => .bool false
  | .defaultPage => .int 1
  | .defaultPerPage => .int 15

/-- What merged settings hold under a key. -/
def cell (k : Key) (s : Setting) : Setting := (s.get k.table).get k.name

/-- What an entry of a layer says of a key: settings, each behind the steps that lead on from the key to its place. -/
def said (k : Key) (e : String × Setting) : List (Path × Setting) :=
  match Path.ofKey e.1 with
  | [.name table] =>
    if Text.lowered table = k.table then
      (e.2.entries.filter fun n => Text.lowered n.1 = k.name).map fun n => ([], n.2)
    else []
  | .name table :: .name name :: steps =>
    if Text.lowered table = k.table ∧ Text.lowered name = k.name then [(steps, e.2)] else []
  | _ => []

/-- What a layer gives to a key: the last of what its entries say. -/
def given? (k : Key) (layer : Layer) : Option Setting :=
  lastOf ((layer.flatMap k.said).map fun l => assign l.2 l.1 .nothing)

end Key

/-- An entry puts nothing but a table where a table of settings stands. -/
def keepsTable (table : String) (e : String × Setting) : Bool :=
  match Path.ofKey e.1, e.2 with
  | [.name _], .group _ => true
  | [.name name], _ => Text.lowered name ≠ table
  | .name name :: .item _ :: _, _ => Text.lowered name ≠ table
  | _, _ => true

/-- An entry puts a scalar where a table of settings stands. -/
def blanksTable (table : String) (e : String × Setting) : Bool :=
  match Path.ofKey e.1, e.2 with
  | [.name name], .scalar _ => Text.lowered name = table
  | _, _ => false

/-- Nothing stands under a key, and no list in whose items it could be read by position. -/
def Key.Unset (k : Key) (s : Setting) : Prop := k.cell s = .nothing ∧ ∀ items, s.get k.table ≠ .list items

variable {k : Key} {e : String × Setting} {layer : Layer}

section Entries

variable {key name inner table : String} {number : Int} {steps : Path}

theorem Key.said_table (h : Path.ofKey key = [.name name]) (value : Setting) : k.said (key, value) =
    if Text.lowered name = k.table then
      (value.entries.filter fun n => Text.lowered n.1 = k.name).map fun n => ([], n.2)
    else [] := by
  unfold said
  rw [h]

theorem Key.said_name (h : Path.ofKey key = .name name :: .name inner :: steps) (value : Setting) :
    k.said (key, value) = if Text.lowered name = k.table ∧ Text.lowered inner = k.name then [(steps, value)] else [] := by
  unfold said
  rw [h]

theorem Key.said_item (h : Path.ofKey key = .name name :: .item number :: steps) (value : Setting) :
    k.said (key, value) = [] := by
  unfold said
  rw [h]

/-- An entry that keeps a table and starts at it either goes on to a name or puts a table there. -/
theorem keepsTable_cases {value : Setting} (h : keepsTable table (key, value) = true)
    (hpath : Path.ofKey key = .name name :: steps) (htable : Text.lowered name = table) :
    (∃ inner rest, steps = .name inner :: rest) ∨ steps = [] ∧ ∃ entries, value = .group entries := by
  unfold keepsTable at h
  dsimp only at h
  rw [hpath] at h
  rcases steps with _ | ⟨⟨inner⟩ | ⟨number⟩, rest⟩
  · cases value with
    | group entries => exact .inr ⟨rfl, entries, rfl⟩
    | nothing | scalar | list => exact absurd htable (of_decide_eq_true h)
  · exact .inl ⟨inner, rest, rfl⟩
  · exact absurd htable (of_decide_eq_true h)

end Entries

theorem get_assign_of_ne {name table : String} (h : Text.lowered name ≠ table) (value s : Setting) (steps : Path) :
    (assign value (.name name :: steps) s).get table = s.get table := by
  rw [assign]
  exact get_put_of_ne (Ne.symm h) s _

theorem get_assign_self (name : String) (value s : Setting) (steps : Path) :
    (assign value (.name name :: steps) s).get (Text.lowered name) =
      assign value steps (s.get (Text.lowered name)) := by
  rw [assign]
  exact get_put_self s _ _

/-- One entry changes what stands under a key by what it says of the key. The cases are where its path goes: to the key,
past the key in the table, to the table, or past the table. -/
theorem cell_entry (h : keepsTable k.table e = true) (s : Setting) :
    k.cell (assign e.2 (Path.ofKey e.1) s) = (k.said e).foldl (fun c l => assign l.2 l.1 c) (k.cell s) := by
  obtain ⟨key, value⟩ := e
  obtain ⟨name, steps, hpath⟩ := Path.exists_ofKey key
  by_cases htable : Text.lowered name = k.table
  · have hget := get_assign_self name value s steps
    rw [htable] at hget
    simp only [Key.cell, hpath, hget]
    obtain ⟨inner, rest, rfl⟩ | ⟨rfl, entries, rfl⟩ := keepsTable_cases h hpath htable
    · rw [Key.said_name hpath]
      by_cases hinner : Text.lowered inner = k.name
      · rw [← hinner, get_assign_self, if_pos ⟨htable, rfl⟩]
        rfl
      · rw [get_assign_of_ne hinner, if_neg fun hboth => hinner hboth.2]
        rfl
    · rw [Key.said_table hpath, if_pos htable, List.foldl_map, assign, get_overlay_group, List.foldl_map]
      rfl
  · simp only [Key.cell, hpath, get_assign_of_ne htable]
    rcases steps with _ | ⟨⟨inner⟩ | ⟨number⟩, rest⟩
    · rw [Key.said_table hpath, if_neg htable]
      rfl
    · rw [Key.said_name hpath, if_neg fun hboth => htable hboth.1]
      rfl
    · rw [Key.said_item hpath]
      rfl

theorem addLayer_singleton (s : Setting) (e : String × Setting) :
    addLayer s [e] = assign e.2 (Path.ofKey e.1) s := by
  rw [addLayer, List.foldl_cons, List.foldl_nil]

theorem cell_addLayer (h : ∀ e ∈ layer, keepsTable k.table e = true) (s : Setting) :
    k.cell (addLayer s layer) = (layer.flatMap k.said).foldl (fun c l => assign l.2 l.1 c) (k.cell s) := by
  rw [addLayer]
  induction layer generalizing s with
  | nil => rfl
  | cons e rest ih =>
      obtain ⟨he, hrest⟩ := List.forall_mem_cons.mp h
      rw [List.foldl_cons, ih hrest, cell_entry he, List.flatMap_cons, List.foldl_append]

theorem said_ne_nothing (h : e.2.Solid) : ∀ l ∈ k.said e, l.2 ≠ .nothing := by
  intro l hl
  unfold Key.said at hl
  split at hl
  · split at hl
    · obtain ⟨n, hn, rfl⟩ := List.mem_map.mp hl
      exact h.2 n (List.mem_filter.mp hn).1
    · cases hl
  · split at hl
    · obtain rfl := List.mem_singleton.mp hl
      exact h.1
    · cases hl
  · cases hl

theorem leaves_addLayer (htable : ∀ e ∈ layer, keepsTable k.table e = true) (hsolid : ∀ e ∈ layer, e.2.Solid)
    (s : Setting) : Leaves (k.given? layer) (k.cell s) (k.cell (addLayer s layer)) := by
  have hsettles : ∀ f ∈ (layer.flatMap k.said).map fun l => assign l.2 l.1, Settles f := by
    intro f hf
    obtain ⟨l, hl, rfl⟩ := List.mem_map.mp hf
    obtain ⟨e, he, hsaid⟩ := List.mem_flatMap.mp hl
    exact settles_assign (said_ne_nothing (hsolid e he) l hsaid) l.1
  have hleaves := leaves_foldl _ hsettles (k.cell s)
  rw [List.map_map, List.foldl_map] at hleaves
  rw [cell_addLayer htable]
  exact hleaves

theorem cell_addLayer_of_none (htable : ∀ e ∈ layer, keepsTable k.table e = true) (hsolid : ∀ e ∈ layer, e.2.Solid)
    (hgiven : k.given? layer = none) (s : Setting) : k.cell (addLayer s layer) = k.cell s := by
  have hleaves := leaves_addLayer htable hsolid s
  rwa [hgiven] at hleaves

/-- What stands under a key once all layers are merged is what the last layer that says anything of it leaves. -/
theorem leaves_merged (lower : List Layer) {upper : List Layer} (hsolid : ∀ l ∈ layer :: upper, ∀ e ∈ l, e.2.Solid)
    (htable : ∀ l ∈ layer :: upper, ∀ e ∈ l, keepsTable k.table e = true)
    (hupper : ∀ l ∈ upper, k.given? l = none) :
    Leaves (k.given? layer) (k.cell (merged lower)) (k.cell (merged (lower ++ layer :: upper))) := by
  -- the layers above say nothing of the key, so each of them keeps what stands under it
  have hkept : ∀ s, k.cell (upper.foldl addLayer s) = k.cell s := by
    induction upper with
    | nil => exact fun _ => rfl
    | cons l rest ih =>
        intro s
        simp only [List.forall_mem_cons] at hsolid htable hupper ih
        rw [List.foldl_cons, ih ⟨hsolid.1, hsolid.2.2⟩ ⟨htable.1, htable.2.2⟩ hupper.2]
        exact cell_addLayer_of_none htable.2.1 hsolid.2.1 hupper.1 s
  have hmerged : merged (lower ++ layer :: upper) = upper.foldl addLayer (addLayer (merged lower) layer) := by
    rw [merged, List.foldl_append, List.foldl_cons]
    rfl
  rw [hmerged, hkept]
  exact leaves_addLayer (htable layer List.mem_cons_self) (hsolid layer List.mem_cons_self) _

theorem table_entry_ne_list (h : keepsTable k.table e = true) {s : Setting}
    (hs : ∀ items, s.get k.table ≠ .list items) :
    ∀ items, (assign e.2 (Path.ofKey e.1) s).get k.table ≠ .list items := by
  obtain ⟨key, value⟩ := e
  obtain ⟨name, steps, hpath⟩ := Path.exists_ofKey key
  simp only [hpath]
  by_cases htable : Text.lowered name = k.table
  · rw [← htable] at hs ⊢
    rw [get_assign_self]
    obtain ⟨inner, rest, rfl⟩ | ⟨rfl, entries, rfl⟩ := keepsTable_cases h hpath htable
    · simp [assign, put]
    · exact overlay_group_ne_list hs entries
  · rwa [get_assign_of_ne htable]

theorem unset_of_blanks (h : blanksTable k.table e = true) (s : Setting) :
    k.Unset (assign e.2 (Path.ofKey e.1) s) := by
  obtain ⟨key, value⟩ := e
  unfold blanksTable at h
  split at h
  · rename_i name v hpath hvalue
    have htable : Text.lowered name = k.table := by simpa using h
    simp only at hpath hvalue
    have hget : (assign value (Path.ofKey key) s).get k.table = .scalar v := by
      rw [hpath, hvalue, ← htable, get_assign_self, assign, overlay]
    simp only [Key.Unset, Key.cell, hget]
    exact ⟨rfl, by simp⟩
  · cases h

theorem given?_singleton (h : k.given? layer = none) (he : e ∈ layer) : k.given? [e] = none := by
  rw [Key.given?, lastOf_eq_none] at h ⊢
  intro x hx
  obtain ⟨l, hl, rfl⟩ := List.mem_map.mp hx
  rw [List.flatMap_singleton] at hl
  exact h _ (List.mem_map_of_mem (List.mem_flatMap.mpr ⟨e, he, hl⟩))

theorem unset_entry (htable : keepsTable k.table e = true ∨ blanksTable k.table e = true) (hsolid : e.2.Solid)
    (hgiven : k.given? [e] = none) {s : Setting} (h : k.Unset s) : k.Unset (assign e.2 (Path.ofKey e.1) s) := by
  rcases htable with hkeeps | hblanks
  · refine ⟨?_, table_entry_ne_list hkeeps h.2⟩
    rw [← addLayer_singleton, cell_addLayer_of_none (by simpa using hkeeps) (by simpa using hsolid) hgiven]
    exact h.1
  · exact unset_of_blanks hblanks s

theorem merged_eq_addLayer (layers : List Layer) : merged layers = addLayer (.group []) layers.flatten :=
  List.foldl_flatten.symm

/-- What is unset once all layers are merged: a scalar took the place of the table, and since then nothing was said of
the key. -/
theorem unset_merged (lower : List Layer) {upper : List Layer} (hsolid : ∀ l ∈ layer :: upper, ∀ e ∈ l, e.2.Solid)
    (htable : ∀ l ∈ layer :: upper, ∀ e ∈ l, keepsTable k.table e = true ∨ blanksTable k.table e = true)
    (hblanks : ∃ e ∈ layer, blanksTable k.table e = true) (hgiven : ∀ l ∈ layer :: upper, k.given? l = none) :
    k.Unset (merged (lower ++ layer :: upper)) := by
  obtain ⟨e, he, hblank⟩ := hblanks
  have hstep : ∀ f ∈ (layer :: upper).flatten, ∀ s, k.Unset s → k.Unset (assign f.2 (Path.ofKey f.1) s) := by
    intro f hf s hs
    obtain ⟨l, hl, hfl⟩ := List.mem_flatten.mp hf
    exact unset_entry (htable l hl f hfl) (hsolid l hl f hfl) (given?_singleton (hgiven l hl) hfl) hs
  obtain ⟨before, after, rfl⟩ := List.append_of_mem he
  -- all entries in their order, cut at the one that puts the scalar
  have hmerged : merged (lower ++ (before ++ e :: after) :: upper) =
      addLayer (.group []) ((lower.flatten ++ before) ++ e :: (after ++ upper.flatten)) := by
    rw [merged_eq_addLayer]
    simp
  rw [hmerged, addLayer, List.foldl_append, List.foldl_cons]
  refine List.foldlRecOn _ _ (unset_of_blanks hblank _) fun s hs f hf => hstep f ?_ s hs
  rw [List.flatten_cons, List.append_assoc, List.cons_append]
  exact List.mem_append_right before (List.mem_cons_of_mem e hf)

theorem solid_layers {source : SettingsSource} {environment : String} {layers : List Layer}
    (h : layers? source environment = some layers) : ∀ l ∈ layers, ∀ e ∈ l, e.2.Solid := by
  have hfile : ∀ text layer, fileLayer? text = some layer → ∀ e ∈ layer, e.2.Solid := by
    intro text layer hlayer
    cases text with
    | none =>
        obtain rfl := Option.some.inj hlayer
        simp
    | some text => exact Toml.solid_ofText? hlayer
  simp only [layers?, Option.bind_eq_bind, Option.bind_eq_some_iff, Option.some.injEq] at h
  obtain ⟨base, hbase, overlay, hoverlay, rfl⟩ := h
  simp only [List.forall_mem_cons]
  refine ⟨?_, hfile _ _ hbase, hfile _ _ hoverlay, ?_, by simp⟩
  · simp [toLayer, solid_scalar]
  · intro e he
    obtain ⟨v, -, hkey⟩ := List.mem_filterMap.mp he
    obtain ⟨key, -, rfl⟩ := Option.map_eq_some_iff.mp hkey
    exact solid_scalar _

end Settings

end RowQuery
