import RowQuery.Store.LoadTree
import Mathlib.Data.List.Nodup
import Mathlib.Tactic.Tauto

namespace RowQuery

/-- No column that a scope names has a point in its name. -/
structure Scope.Plain (sc : Scope) : Prop where
  conditions : ∀ p ∈ sc.conditions, '.' ∉ p.column.toList
  fields : ∀ columns ∈ sc.fields, ∀ c ∈ columns, '.' ∉ c.toList
  order : ∀ o ∈ sc.order, '.' ∉ o.column.toList

instance (sc : Scope) : Decidable sc.Plain :=
  decidable_of_iff ((∀ p ∈ sc.conditions, '.' ∉ p.column.toList) ∧
      (∀ columns ∈ sc.fields, ∀ c ∈ columns, '.' ∉ c.toList) ∧ ∀ o ∈ sc.order, '.' ∉ o.column.toList)
    ⟨fun h => ⟨h.1, h.2.1, h.2.2⟩, fun h => ⟨h.conditions, h.fields, h.order⟩⟩

/-- The column in which a load puts the related rows, named by the first relation of its path. -/
def EagerLoad.column (l : EagerLoad) : String := l.segments.headD ""

theorem EagerLoad.segments_ne_nil (l : EagerLoad) : l.segments ≠ [] := by
  simp [segments, Text.splitText, Text.splitOn_ne_nil]

namespace LoadNode

def names (nodes : List LoadNode) : List String := nodes.map name

mutual

/-- The scopes of a node and of those below it are plain, and no two nodes under one parent have the same name. -/
def Sound : LoadNode → Prop
  | .node _ scope children => (∀ sc ∈ scope, sc.Plain) ∧ (names children).Nodup ∧ AllSound children

def AllSound : List LoadNode → Prop
  | [] => True
  | n :: rest => n.Sound ∧ AllSound rest

end

variable {name : String} {change : LoadNode → LoadNode} {nodes : List LoadNode} {scope : Scope}

theorem names_update (hname : ∀ n, (change n).name = n.name) :
    names (update name change nodes) = if name ∈ names nodes then names nodes else names nodes ++ [name] := by
  induction nodes with
  | nil =>
      have hnew : (change (.node name none [])).name = name := hname _
      simpa [update, names] using hnew
  | cons n rest ih =>
      unfold update
      by_cases hn : n.name = name
      · simp [names, hname, hn]
      · have hne : name ≠ n.name := fun h => hn h.symm
        have hrest : names (n :: update name change rest) = n.name :: names (update name change rest) := rfl
        have hnames : names (n :: rest) = n.name :: names rest := rfl
        rw [if_neg hn, hrest, ih, hnames]
        by_cases hmem : name ∈ names rest
        · rw [if_pos hmem, if_pos (List.mem_cons_of_mem _ hmem)]
        · rw [if_neg hmem, if_neg (by simp [hne, hmem]), List.cons_append]

theorem nodup_update (hname : ∀ n, (change n).name = n.name) (h : (names nodes).Nodup) :
    (names (update name change nodes)).Nodup := by
  rw [names_update hname]
  by_cases hmem : name ∈ names nodes
  · rwa [if_pos hmem]
  · rw [if_neg hmem]
    exact List.Nodup.append h (List.nodup_singleton name) (List.disjoint_singleton.mpr hmem)

theorem allSound_update (hchange : ∀ n, n.Sound → (change n).Sound) (h : AllSound nodes) :
    AllSound (update name change nodes) := by
  induction nodes with
  | nil =>
      have hnew : (LoadNode.node name none []).Sound := ⟨by simp, List.nodup_nil, trivial⟩
      exact ⟨hchange _ hnew, trivial⟩
  | cons n rest ih =>
      obtain ⟨hn, hrest⟩ := h
      unfold update
      by_cases hname : n.name = name
      · rw [if_pos hname]
        exact ⟨hchange n hn, hrest⟩
      · rw [if_neg hname]
        exact ⟨hn, ih hrest⟩

theorem addPath_sound (hscope : scope.Plain) (path : List String) (hnodes : (names nodes).Nodup ∧ AllSound nodes) :
    (names (addPath scope path nodes)).Nodup ∧ AllSound (addPath scope path nodes) := by
  induction path generalizing nodes with
  | nil => exact hnodes
  | cons name rest ih =>
      obtain ⟨hnodup, hsound⟩ := hnodes
      cases rest with
      | nil =>
          refine ⟨nodup_update (fun n => rfl) hnodup, allSound_update (fun n hn => ?_) hsound⟩
          cases n with
          | node other sc children =>
              obtain ⟨-, hchildren⟩ := hn
              exact ⟨fun sc hsc => Option.some.inj hsc ▸ hscope, hchildren⟩
      | cons next last =>
          refine ⟨nodup_update (fun n => rfl) hnodup, allSound_update (fun n hn => ?_) hsound⟩
          cases n with
          | node other sc children =>
              obtain ⟨hsc, hchildren⟩ := hn
              exact ⟨hsc, ih hchildren⟩

theorem foldl_sound {loads : List EagerLoad} (h : ∀ l ∈ loads, l.scope.Plain)
    (hnodes : (names nodes).Nodup ∧ AllSound nodes) :
    (names (loads.foldl (fun nodes l => addPath l.scope l.segments nodes) nodes)).Nodup ∧
      AllSound (loads.foldl (fun nodes l => addPath l.scope l.segments nodes) nodes) := by
  induction loads generalizing nodes with
  | nil => exact hnodes
  | cons l rest ih =>
      obtain ⟨hl, hrest⟩ := List.forall_mem_cons.mp h
      exact ih hrest (addPath_sound hl l.segments hnodes)

/-- The tree of some loads is sound if their scopes are plain. -/
theorem ofLoads_sound {loads : List EagerLoad} (h : ∀ l ∈ loads, l.scope.Plain) :
    (names (ofLoads loads)).Nodup ∧ AllSound (ofLoads loads) :=
  foldl_sound h ⟨List.nodup_nil, trivial⟩

theorem mem_names_update {other : String} (hname : ∀ n, (change n).name = n.name) :
    other ∈ names (update name change nodes) ↔ other = name ∨ other ∈ names nodes := by
  rw [names_update hname]
  by_cases hmem : name ∈ names nodes
  · rw [if_pos hmem]
    exact ⟨.inr, fun h => h.elim (fun heq => heq ▸ hmem) id⟩
  · rw [if_neg hmem, List.mem_append, List.mem_singleton, or_comm]

theorem mem_names_addPath {path : List String} {other : String} (hne : path ≠ []) :
    other ∈ names (addPath scope path nodes) ↔ other = path.headD "" ∨ other ∈ names nodes := by
  rcases path with _ | ⟨name, _ | ⟨next, rest⟩⟩
  · exact absurd rfl hne
  · refine mem_names_update ?_
    exact fun _ => rfl
  · refine mem_names_update ?_
    exact fun _ => rfl

theorem mem_names_foldl {loads : List EagerLoad} {other : String} :
    other ∈ names (loads.foldl (fun nodes l => addPath l.scope l.segments nodes) nodes) ↔
      other ∈ loads.map EagerLoad.column ∨ other ∈ names nodes := by
  induction loads generalizing nodes with
  | nil => simp
  | cons l rest ih =>
      rw [List.foldl_cons, ih, mem_names_addPath l.segments_ne_nil, List.map_cons, List.mem_cons, EagerLoad.column]
      tauto

/-- The names at the root of the tree of some loads are the columns of these loads. -/
theorem mem_names_ofLoads {loads : List EagerLoad} {other : String} :
    other ∈ names (ofLoads loads) ↔ other ∈ loads.map EagerLoad.column := by
  refine mem_names_foldl.trans ?_
  simp [names]

end LoadNode

end RowQuery
