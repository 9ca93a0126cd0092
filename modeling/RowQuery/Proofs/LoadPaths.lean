import RowQuery.Proofs.LoadTree
import Mathlib.Data.List.Infix

namespace RowQuery.LoadNode

variable {name : String} {path other : List String} {n m : LoadNode} {nodes : List LoadNode}
  {loads : List EagerLoad}

def child? (name : String) (nodes : List LoadNode) : Option LoadNode := nodes.find? (·.name = name)

/-- The node to which a path leads down from a node. -/
def below? : List String → LoadNode → Option LoadNode
  | [], n => some n
  | name :: path, n => (child? name n.children).bind (below? path)

/-- The node at the end of a path from the root, which is no node itself. -/
def at? (nodes : List LoadNode) : List String → Option LoadNode
  | [] => none
  | name :: path => (child? name nodes).bind (below? path)

/-- No two nodes under one parent have the same name, from a node downwards. -/
def Apart (n : LoadNode) : Prop := ∀ path m, n.below? path = some m → (names m.children).Nodup

def blank (name : String) : LoadNode := .node name none []

/-- Adds what is missing of a path below a node, and puts a scope at its end. -/
def graft (scope : Scope) : List String → LoadNode → LoadNode
  | [], n => .node n.name (some scope) n.children
  | name :: path, n => .node n.name n.scope (update name (graft scope path) n.children)

/-- The node above the tree of some loads. -/
def rooted (loads : List EagerLoad) : LoadNode := loads.foldl (fun n l => graft l.scope l.segments n) (blank "")

/-- The scope that counts for a path, which is that of the last load of this path. -/
def lastScope? (loads : List EagerLoad) (path : List String) : Option Scope :=
  (loads.filter (·.segments = path)).getLast?.map EagerLoad.scope

/-- A tree has the nodes that some loads ask for. -/
structure Represents (nodes : List LoadNode) (loads : List EagerLoad) : Prop where
  present : ∀ path, (∃ n, at? nodes path = some n) ↔ path ≠ [] ∧ ∃ l ∈ loads, path <+: l.segments
  apart : (names nodes).Nodup ∧ ∀ path n, at? nodes path = some n → (names n.children).Nodup
  scope : ∀ path n, at? nodes path = some n → n.scope = lastScope? loads path

theorem child?_cons : child? name (n :: nodes) = if n.name = name then some n else child? name nodes := by
  by_cases h : n.name = name <;> simp [child?, h]

theorem name_of_child? (h : child? name nodes = some n) : n.name = name := by
  have hname := List.find?_some h
  exact of_decide_eq_true hname

theorem mem_of_child? (h : child? name nodes = some n) : n ∈ nodes := List.mem_of_find?_eq_some h

theorem child?_of_mem (hnames : (names nodes).Nodup) (hn : n ∈ nodes) : child? n.name nodes = some n := by
  have hsome : (child? n.name nodes).isSome := List.find?_isSome.mpr ⟨n, hn, decide_eq_true rfl⟩
  obtain ⟨m, hm⟩ := Option.isSome_iff_exists.mp hsome
  rw [hm, List.inj_on_of_nodup_map hnames (mem_of_child? hm) hn (name_of_child? hm)]

theorem child?_update {change : LoadNode → LoadNode} (hname : ∀ n, (change n).name = n.name) (name other : String)
    (nodes : List LoadNode) : child? other (update name change nodes) =
      if other = name then some (change ((child? name nodes).getD (blank name))) else child? other nodes := by
  induction nodes with
  | nil =>
      have hnew : (change (blank name)).name = name := hname _
      show child? other [change (blank name)] = _
      rw [child?_cons, hnew]
      by_cases hother : other = name
      · simp [hother, child?]
      · simp [hother, Ne.symm hother]
  | cons n rest ih =>
      unfold update
      by_cases hn : n.name = name
      · rw [if_pos hn, child?_cons, child?_cons, child?_cons, hname, hn]
        by_cases hother : other = name
        · simp [hother]
        · simp [hother, Ne.symm hother]
      · rw [if_neg hn, child?_cons, child?_cons, child?_cons, ih, if_neg hn]
        by_cases hother : other = name
        · simp [hother, hn]
        · simp [hother]

theorem name_graft (scope : Scope) (path : List String) (n : LoadNode) : (graft scope path n).name = n.name := by
  cases path <;> rfl

theorem children_graft (scope : Scope) (path : List String) (n : LoadNode) :
    (graft scope path n).children = addPath scope path n.children := by
  induction path generalizing n with
  | nil => rfl
  | cons name rest ih =>
      cases rest with
      | nil => rfl
      | cons next last =>
          have hgraft : graft scope (next :: last) =
              fun n => .node n.name n.scope (addPath scope (next :: last) n.children) := by
            funext n
            rw [← ih n]
            rfl
          show update name (graft scope (next :: last)) n.children = _
          rw [hgraft]
          rfl

theorem children_rooted (loads : List EagerLoad) : (rooted loads).children = ofLoads loads := by
  have hfold : ∀ n : LoadNode, (loads.foldl (fun n l => graft l.scope l.segments n) n).children =
      loads.foldl (fun nodes l => addPath l.scope l.segments nodes) n.children := by
    induction loads with
    | nil => exact fun _ => rfl
    | cons l rest ih =>
        intro n
        rw [List.foldl_cons, List.foldl_cons, ih, children_graft]
  exact hfold (blank "")

theorem rooted_concat (loads : List EagerLoad) (l : EagerLoad) :
    rooted (loads ++ [l]) = graft l.scope l.segments (rooted loads) := by
  rw [rooted, List.foldl_append]
  rfl

theorem below?_graft_cons (scope : Scope) (name : String) (path : List String) (n : LoadNode) (next : String)
    (other : List String) : (graft scope (name :: path) n).below? (next :: other) =
      if next = name then (graft scope path ((child? name n.children).getD (blank name))).below? other
      else n.below? (next :: other) := by
  show (child? next (update name (graft scope path) n.children)).bind (below? other) = _
  rw [child?_update (name_graft scope path)]
  by_cases hnext : next = name
  · rw [if_pos hnext, if_pos hnext]
    rfl
  · rw [if_neg hnext, if_neg hnext]
    rfl

/-- A new path gives its scope to its own end, makes the nodes on the way where they are missing, and keeps the rest. -/
theorem scope_below?_graft (scope : Scope) (path other : List String) (n : LoadNode) :
    ((graft scope path n).below? other).map LoadNode.scope =
      if other = path then some (some scope)
      else if other <+: path then some ((n.below? other).bind LoadNode.scope)
      else (n.below? other).map LoadNode.scope := by
  induction path generalizing other n with
  | nil =>
      cases other with
      | nil => rfl
      | cons next other =>
          rw [if_neg (by simp), if_neg (by simp)]
          rfl
  | cons name path ih =>
      cases other with
      | nil =>
          rw [if_neg (by simp), if_pos List.nil_prefix]
          rfl
      | cons next other =>
          rw [below?_graft_cons]
          by_cases hnext : next = name
          · subst hnext
            have hpath : n.below? (next :: other) = (child? next n.children).bind (below? other) := rfl
            rw [if_pos rfl, ih, hpath]
            cases child? next n.children with
            | some c => simp [List.cons_prefix_cons]
            | none =>
                cases other with
                | nil => simp [below?, blank, LoadNode.scope]
                | cons => simp [below?, blank, child?, children, List.cons_prefix_cons]
          · simp [hnext, List.cons_prefix_cons]

theorem lastScope?_eq_none (h : ¬∃ l ∈ loads, path <+: l.segments) : lastScope? loads path = none := by
  have hfilter : loads.filter (·.segments = path) = [] := by
    refine List.filter_eq_nil_iff.mpr fun l hl hsame => h ⟨l, hl, ?_⟩
    rw [of_decide_eq_true hsame]
  rw [lastScope?, hfilter]
  rfl

/-- The nodes below the root stand at the starts of the paths, each with the scope that counts for its path. -/
theorem scope_below?_rooted (loads : List EagerLoad) (hpath : path ≠ []) :
    ((rooted loads).below? path).map LoadNode.scope =
      if ∃ l ∈ loads, path <+: l.segments then some (lastScope? loads path) else none := by
  induction loads using List.reverseRecOn with
  | nil =>
      cases path with
      | nil => exact absurd rfl hpath
      | cons name path => simp [rooted, below?, blank, child?, children]
  | append_singleton before l ih =>
      have hbefore : ((rooted before).below? path).bind LoadNode.scope = lastScope? before path := by
        by_cases hstart : ∃ l ∈ before, path <+: l.segments
        · rw [if_pos hstart] at ih
          obtain ⟨m, hm, hscope⟩ := Option.map_eq_some_iff.mp ih
          rw [hm]
          exact hscope
        · rw [if_neg hstart] at ih
          rw [Option.map_eq_none_iff.mp ih, lastScope?_eq_none hstart]
          rfl
      rw [rooted_concat, scope_below?_graft, ih, hbefore]
      by_cases hend : path = l.segments
      · simp [hend, lastScope?, List.filter_append]
      · have hlast : lastScope? (before ++ [l]) path = lastScope? before path := by
          simp [lastScope?, List.filter_append, Ne.symm hend]
        rw [if_neg hend, hlast]
        by_cases hstart : path <+: l.segments
        · simp [hstart]
        · simp [hstart]

theorem apart_blank (name : String) : (blank name).Apart := by
  intro path m hm
  cases path with
  | nil =>
      obtain rfl := Option.some.inj hm
      exact List.nodup_nil
  | cons next path => cases hm

theorem Apart.of_child? (h : n.Apart) (hm : child? name n.children = some m) : m.Apart := by
  intro path below hbelow
  refine h (name :: path) below ?_
  rw [below?, hm]
  exact hbelow

theorem Apart.graft (h : n.Apart) (scope : Scope) (path : List String) : (graft scope path n).Apart := by
  induction path generalizing n with
  | nil =>
      intro other m hm
      cases other with
      | nil =>
          obtain rfl := Option.some.inj hm
          exact h [] n rfl
      | cons next other => exact h (next :: other) m hm
  | cons name path ih =>
      intro other m hm
      cases other with
      | nil =>
          obtain rfl := Option.some.inj hm
          exact nodup_update (name_graft scope path) (h [] n rfl)
      | cons next other =>
          rw [below?_graft_cons] at hm
          by_cases hnext : next = name
          · rw [if_pos hnext] at hm
            cases hchild : child? name n.children with
            | none =>
                rw [hchild] at hm
                exact ih (apart_blank name) other m hm
            | some c =>
                rw [hchild] at hm
                exact ih (h.of_child? hchild) other m hm
          · rw [if_neg hnext] at hm
            exact h (next :: other) m hm

theorem apart_rooted (loads : List EagerLoad) : (rooted loads).Apart := by
  induction loads using List.reverseRecOn with
  | nil => exact apart_blank ""
  | append_singleton before l ih =>
      rw [rooted_concat]
      exact ih.graft l.scope l.segments

theorem at?_ofLoads (loads : List EagerLoad) (hpath : path ≠ []) :
    at? (ofLoads loads) path = (rooted loads).below? path := by
  cases path with
  | nil => exact absurd rfl hpath
  | cons name path => rw [at?, below?, children_rooted]

theorem ne_nil_of_at? (h : at? nodes path = some n) : path ≠ [] := by
  rintro rfl
  cases h

/-- The tree of some loads has the nodes that these ask for. -/
theorem represents_ofLoads (loads : List EagerLoad) : Represents (ofLoads loads) loads where
  present := by
    intro path
    by_cases hpath : path = []
    · simp [hpath, at?]
    · have hscope := scope_below?_rooted loads hpath
      rw [at?_ofLoads loads hpath, and_iff_right hpath]
      by_cases hstart : ∃ l ∈ loads, path <+: l.segments
      · rw [if_pos hstart] at hscope
        obtain ⟨n, hn, -⟩ := Option.map_eq_some_iff.mp hscope
        exact iff_of_true ⟨n, hn⟩ hstart
      · rw [if_neg hstart] at hscope
        rw [Option.map_eq_none_iff.mp hscope]
        exact iff_of_false (by simp) hstart
  apart := by
    refine ⟨children_rooted loads ▸ apart_rooted loads [] _ rfl, fun path n hn => ?_⟩
    rw [at?_ofLoads loads (ne_nil_of_at? hn)] at hn
    exact apart_rooted loads path n hn
  scope := by
    intro path n hn
    have hpath := ne_nil_of_at? hn
    have hscope := scope_below?_rooted loads hpath
    rw [← at?_ofLoads loads hpath, hn] at hscope
    split at hscope
    · exact Option.some.inj hscope
    · cases hscope

end RowQuery.LoadNode
