import RowQuery.Proofs.LoadPaths
import RowQuery.Proofs.RelatedRows

namespace RowQuery

/-- The loads of a list in another order, those of one path in the order they had. -/
structure EagerLoad.Reordered (loads other : List EagerLoad) : Prop where
  perm : other.Perm loads
  kept : ∀ path, other.filter (·.segments = path) = loads.filter (·.segments = path)

namespace EagerLoad.Reordered

variable {loads other : List EagerLoad}

theorem symm (h : Reordered loads other) : Reordered other loads where
  perm := h.perm.symm
  kept path := (h.kept path).symm

/-- Two neighbours with different paths may change places. -/
theorem swap {l m : EagerLoad} (h : l.segments ≠ m.segments) (before after : List EagerLoad) :
    Reordered (before ++ l :: m :: after) (before ++ m :: l :: after) where
  perm := (List.Perm.swap l m after).append_left before
  kept path := by
    rw [List.filter_append, List.filter_append]
    by_cases hl : l.segments = path
    · have hm : m.segments ≠ path := fun hm => h (hl.trans hm.symm)
      simp [hl, hm]
    · simp [List.filter_cons, hl]

end EagerLoad.Reordered

namespace LoadNode

variable {n m : LoadNode} {loads other : List EagerLoad}

/-- Below two nodes stand the same nodes with the same scopes, in whatever order. -/
def Alike (n m : LoadNode) : Prop := ∀ path, path ≠ [] → (n.below? path).map scope = (m.below? path).map scope

mutual

/-- What is true of a node if it is true of its children is true of every node. -/
theorem of_children {P : LoadNode → Prop} (h : ∀ n, (∀ a ∈ n.children, P a) → P n) : (n : LoadNode) → P n
  | .node _ _ children => h _ (of_siblings h children)

theorem of_siblings {P : LoadNode → Prop} (h : ∀ n, (∀ a ∈ n.children, P a) → P n) :
    (nodes : List LoadNode) → ∀ a ∈ nodes, P a
  | [] => List.forall_mem_nil _
  | n :: rest => List.forall_mem_cons.mpr ⟨of_children h n, of_siblings h rest⟩

end

theorem Alike.symm (h : Alike n m) : Alike m n := fun path hpath => (h path hpath).symm

theorem Alike.child (h : Alike n m) (hn : n.Apart) {a : LoadNode} (ha : a ∈ n.children) :
    ∃ b ∈ m.children, b.name = a.name ∧ b.scope = a.scope ∧ Alike a b ∧ child? a.name m.children = some b := by
  have hchild : child? a.name n.children = some a := child?_of_mem (hn [] n rfl) ha
  have hsame : (child? a.name n.children).map scope = (child? a.name m.children).map scope := by
    have hone := h [a.name] (List.cons_ne_nil _ _)
    simpa [below?] using hone
  rw [hchild] at hsame
  obtain ⟨b, hb, hscope⟩ := Option.map_eq_some_iff.mp hsame.symm
  refine ⟨b, mem_of_child? hb, name_of_child? hb, hscope, fun path _ => ?_, hb⟩
  have hbelow := h (a.name :: path) (List.cons_ne_nil _ _)
  rwa [below?, below?, hchild, hb] at hbelow

theorem Alike.names_subset (h : Alike n m) (hn : n.Apart) : names n.children ⊆ names m.children := by
  intro name hname
  obtain ⟨a, ha, rfl⟩ := List.mem_map.mp hname
  obtain ⟨b, hb, hsame, -⟩ := h.child hn ha
  exact hsame ▸ List.mem_map_of_mem hb

theorem lastScope?_congr (h : EagerLoad.Reordered loads other) (path : List String) :
    lastScope? other path = lastScope? loads path := by
  rw [lastScope?, h.kept path, lastScope?]

theorem alike_of_reordered (h : EagerLoad.Reordered loads other) : Alike (rooted loads) (rooted other) := by
  intro path hpath
  have hstart : (∃ l ∈ other, path <+: l.segments) ↔ ∃ l ∈ loads, path <+: l.segments := by
    simp only [h.perm.mem_iff]
  simp only [scope_below?_rooted _ hpath, lastScope?_congr h, hstart]

end LoadNode

namespace Store

open LoadNode

variable {s : Store} {table : String} {parent before after : Row} {n m : LoadNode} {nodes : List LoadNode}

/-- What siblings add to a row does not depend on their order, as long as their names differ. -/
theorem loadNodes_eq_ok (hnames : (names nodes).Nodup) : s.loadNodes table parent nodes before = .ok after ↔
    (∀ a ∈ nodes, ∃ value, s.loadNode table parent a = .ok value ∧ after.get? a.name = some value) ∧
      ∀ column, column ∉ names nodes → after.get? column = before.get? column := by
  induction nodes generalizing before with
  | nil =>
      rw [loadNodes, Except.ok.injEq]
      constructor
      · rintro rfl
        exact ⟨List.forall_mem_nil _, fun _ _ => rfl⟩
      · rintro ⟨-, hkept⟩
        ext1 column
        exact (hkept column (List.not_mem_nil)).symm
  | cons a rest ih =>
      obtain ⟨hnew, hrest⟩ := List.nodup_cons.mp hnames
      have hcolumns : ∀ column, column ∉ names (a :: rest) ↔ column ≠ a.name ∧ column ∉ names rest := by
        intro column
        rw [← not_or]
        exact not_congr List.mem_cons
      simp only [loadNodes, Outcome.bind_eq_ok, ih hrest, List.forall_mem_cons, hcolumns]
      constructor
      · rintro ⟨value, hvalue, hothers, hkept⟩
        refine ⟨⟨⟨value, hvalue, ?_⟩, hothers⟩, fun column hcolumn => ?_⟩
        · rw [hkept a.name hnew]
          exact Dict.get?_insert_self before a.name value
        · rw [hkept column hcolumn.2, Dict.get?_insert_of_ne before value hcolumn.1]
      · rintro ⟨⟨⟨value, hvalue, hown⟩, hothers⟩, hkept⟩
        refine ⟨value, hvalue, hothers, fun column hcolumn => ?_⟩
        by_cases hname : column = a.name
        · rw [hname, hown]
          exact (Dict.get?_insert_self before a.name value).symm
        · rw [hkept column ⟨hname, hcolumn⟩, Dict.get?_insert_of_ne before value hname]

theorem loadNode_mono {name : String} {scope : Option Scope} {children other : List LoadNode} {value : Json}
    (h : ∀ table parent before after, s.loadNodes table parent children before = .ok after →
      s.loadNodes table parent other before = .ok after)
    (hvalue : s.loadNode table parent (.node name scope children) = .ok value) :
    s.loadNode table parent (.node name scope other) = .ok value := by
  rw [loadNode] at hvalue ⊢
  obtain ⟨t, ht, hvalue⟩ := Outcome.bind_eq_ok.mp hvalue
  refine Outcome.bind_eq_ok.mpr ⟨t, ht, ?_⟩
  cases hr : t.relations.get? name with
  | none => simp [hr] at hvalue
  | some r =>
      simp only [hr] at hvalue ⊢
      split at hvalue
      · rwa [if_pos ‹_›]
      · rw [if_neg ‹_›]
        obtain ⟨tuples, htuples, hvalue⟩ := Outcome.bind_eq_ok.mp hvalue
        obtain ⟨rows, hrows, hvalue⟩ := Outcome.bind_eq_ok.mp hvalue
        have hother := (Outcome.mapM_eq_ok.mp hrows).imp fun u row hrow => h _ _ _ _ hrow
        exact Outcome.bind_eq_ok.mpr ⟨tuples, htuples,
          Outcome.bind_eq_ok.mpr ⟨rows, Outcome.mapM_eq_ok.mpr hother, hvalue⟩⟩

theorem loadNodes_of_alike (h : Alike n m) (hn : n.Apart) (hm : m.Apart)
    (heach : ∀ a ∈ n.children, ∀ b, b.name = a.name → b.scope = a.scope → Alike a b → a.Apart → b.Apart →
      ∀ table parent value, s.loadNode table parent a = .ok value → s.loadNode table parent b = .ok value)
    (hload : s.loadNodes table parent n.children before = .ok after) :
    s.loadNodes table parent m.children before = .ok after := by
  obtain ⟨hvalues, hkept⟩ := (loadNodes_eq_ok (hn [] n rfl)).mp hload
  refine (loadNodes_eq_ok (hm [] m rfl)).mpr ⟨fun b hb => ?_, fun column hcolumn => ?_⟩
  · obtain ⟨a, ha, hname, hscope, hab, hchild⟩ := h.symm.child hm hb
    obtain ⟨value, hvalue, hown⟩ := hvalues a ha
    refine ⟨value, ?_, hname ▸ hown⟩
    have hbchild := child?_of_mem (hm [] m rfl) hb
    exact heach a ha b hname.symm hscope.symm hab.symm (hn.of_child? hchild) (hm.of_child? hbchild) _ _ _ hvalue
  · exact hkept column fun hmem => hcolumn (h.names_subset hn hmem)

theorem loadNode_of_alike (n : LoadNode) : ∀ m, m.name = n.name → m.scope = n.scope → Alike n m → n.Apart → m.Apart →
    ∀ table parent value, s.loadNode table parent n = .ok value → s.loadNode table parent m = .ok value := by
  induction n using LoadNode.of_children with
  | h n ih =>
      rintro ⟨name', scope', children'⟩ hname hscope halike hn hm table parent value hvalue
      obtain ⟨name, scope, children⟩ := n
      obtain rfl : name' = name := hname
      obtain rfl : scope' = scope := hscope
      refine loadNode_mono (fun table parent before after hload => ?_) hvalue
      exact loadNodes_of_alike halike hn hm ih hload

theorem get_of_reordered {q : Query} {loads : List EagerLoad} (h : EagerLoad.Reordered q.loads loads)
    {rows : List Row} (hget : s.get q = .ok rows) : s.get { q with loads } = .ok rows := by
  obtain ⟨tuples, htuples, hrows⟩ := Outcome.bind_eq_ok.mp hget
  refine Outcome.bind_eq_ok.mpr ⟨tuples, htuples, ?_⟩
  refine Outcome.mapM_eq_ok.mpr ((Outcome.mapM_eq_ok.mp hrows).imp fun t row hrow => ?_)
  rw [← children_rooted] at hrow ⊢
  have halike : Alike (rooted q.loads) (rooted loads) := alike_of_reordered h
  exact loadNodes_of_alike halike (apart_rooted _) (apart_rooted _) (fun a _ => loadNode_of_alike a) hrow

/-- The tree of the loads of a query has a node for every start of their paths, under one parent no two of one name,
and at the end of a path the scope of its last load. So loads of different paths may stand in any order: the query
fails with them as before, or answers the same rows. -/
theorem loads_in_any_order (s : Store) (q : Query) :
    Represents (ofLoads q.loads) q.loads ∧
      ∀ loads, EagerLoad.Reordered q.loads loads → (s.get { q with loads }).toOption = (s.get q).toOption := by
  refine ⟨represents_ofLoads q.loads, fun loads h => Outcome.toOption_eq_iff.mpr fun rows => ⟨fun hrows => ?_, ?_⟩⟩
  · exact get_of_reordered (q := { q with loads }) h.symm hrows
  · exact get_of_reordered h

theorem loads_in_any_order_library : EagerLoad.Reordered reading.loads reading.loads.reverse ∧
    ∃ rows, library.get reading = .ok rows ∧ rows.length = 2 ∧
      library.get { reading with loads := reading.loads.reverse } = .ok rows := by
  have hreordered : EagerLoad.Reordered reading.loads reading.loads.reverse := .swap (by decide) [] []
  obtain ⟨rows, hrows, hlength⟩ := exists_get_reading
  have hsame := (loads_in_any_order library reading).2 _ hreordered
  exact ⟨hreordered, rows, hrows, hlength, (Outcome.toOption_eq_iff.mp hsame rows).mpr hrows⟩

end Store

end RowQuery
