import RowQuery.Proofs.KeyedLookup
import Mathlib.Data.List.Flatten
import Mathlib.Data.List.Perm.Basic

namespace RowQuery

namespace Tuple

/-- A tuple as it comes out of a join that found no row of a table for it: the columns of that table are null, every
other name stands for what it stood for before, and no column that is shown is changed. -/
structure Unmatched (table : String) (t u : Tuple) : Prop where
  nulls : ∀ column, u.resolve (qualify table column) = .null
  resolved : ∀ name, (∀ column, name ≠ qualify table column) → u.resolve name = t.resolve name
  shown : ∀ column, t.plain.contains column = true → u.plain.get? column = t.plain.get? column

variable {t : Tuple} {table : String} {columns : List String}

/-- The columns that a tuple has under the name of a table are among the given ones. -/
def Within (t : Tuple) (table : String) (columns : List String) : Prop :=
  ∀ column, t.qualified.contains (qualify table column) = true → column ∈ columns

theorem unmatched_mergeNulls (h : t.Within table columns) : Unmatched table t (t.mergeNulls table columns) := by
  refine ⟨fun column => ?_, fun name hname => ?_, fun column hcolumn => ?_⟩
  · rw [resolve_qualify, qualified_mergeNulls]
    split
    · rfl
    · rename_i hmem
      have hnone : t.qualified.get? (qualify table column) = none := by
        simpa [Dict.contains] using mt (h column) hmem
      rw [hnone]
      rfl
  · unfold resolve
    split
    · have hqualified : (t.mergeNulls table columns).qualified.get? name = t.qualified.get? name := by
        refine Dict.get?_addAll_of_ne _ ?_
        simp only [List.mem_map, forall_exists_index, and_imp, forall_apply_eq_imp_iff₂]
        exact fun column _ => (hname column).symm
      rw [hqualified]
    -- A plain name that is new stands for null, which it did when it was missing.
    · rw [plain_mergeNulls]
      cases t.plain.get? name with
      | some value => rfl
      | none => split <;> rfl
  · obtain ⟨value, hvalue⟩ := Option.isSome_iff_exists.mp hcolumn
    rw [plain_mergeNulls, hvalue]
    rfl

theorem Within.merge {other : String} {row : Row} (h : t.Within table columns) (ht : '.' ∉ table.toList)
    (ho : '.' ∉ other.toList) (hrow : other = table → ∀ column, row.contains column = true → column ∈ columns) :
    (t.merge other row).Within table columns := by
  intro column hcolumn
  rcases (Dict.contains_addAll _ _ _).mp hcolumn with hadded | hbefore
  · obtain ⟨name, hname, hqualified⟩ := List.mem_map.mp hadded
    obtain ⟨e, he, rfl⟩ := List.mem_map.mp hname
    obtain rfl := table_of_qualify ho ht hqualified
    obtain rfl := qualify_injective other hqualified
    exact hrow rfl e.1 (Dict.mem_names.mp (List.mem_map_of_mem he))
  · exact h column hbefore

theorem Within.mergeNulls {other : String} {names : List String} (h : t.Within table columns)
    (ht : '.' ∉ table.toList) (ho : '.' ∉ other.toList) (hnames : other = table → names ⊆ columns) :
    (t.mergeNulls other names).Within table columns := by
  intro column hcolumn
  rcases (Dict.contains_addAll _ _ _).mp hcolumn with hadded | hbefore
  · obtain ⟨e, he, hqualified⟩ := List.mem_map.mp hadded
    obtain ⟨name, hname, rfl⟩ := List.mem_map.mp he
    obtain rfl := table_of_qualify ho ht hqualified
    obtain rfl := qualify_injective other hqualified
    exact hnames rfl hname
  · exact h column hbefore

end Tuple

/-- A query of joined tables, with nothing that filters, sorts or cuts what is joined. -/
structure Query.JoinsOnly (q : Query) : Prop where
  clauses : q.clauses = []
  orders : q.orders = []
  all : q.pagination = none

/-- No table of a query has a point in its name. -/
structure Query.TablesPlain (q : Query) : Prop where
  base : '.' ∉ q.table.toList
  joined : ∀ j ∈ q.joins, '.' ∉ j.table.toList

namespace Store

variable {s : Store} {q : Query} {j : Join} {joined : Table} {t : Tuple} {tuples made : List Tuple}

/-- Whether a join can tell of every row if it fits a tuple. -/
def Answers (table : String) (on : JoinConstraint) (joined : Table) (t : Tuple) : Prop :=
  ∀ row ∈ joined.rows, ∃ b, (t.merge table row).joins on = .ok b

/-- A tuple joined to each row of a table that fits it. -/
def fitting (table : String) (on : JoinConstraint) (joined : Table) (t : Tuple) : List Tuple :=
  (joined.rows.map (t.merge table)).filter (passes (·.joins on))

/-- What a left join adds to the rows that fit a tuple. -/
def filling (table : String) (on : JoinConstraint) (joined : Table) (t : Tuple) : List Tuple :=
  if fitting table on joined t = [] then [t.mergeNulls table joined.columnNames] else []

/-- What a join makes of a tuple that enters it. -/
def leaving (j : Join) (joined : Table) (t : Tuple) : List Tuple :=
  match j.kind with
  | .inner => fitting j.table j.on joined t
  | .left => fitting j.table j.on joined t ++ filling j.table j.on joined t

theorem joinTuple_eq_ok :
    joinTuple j joined t = .ok made ↔ Answers j.table j.on joined t ∧ leaving j joined t = made := by
  have hmade : leaving j joined t = if (fitting j.table j.on joined t).isEmpty && j.kind = .left then
      [t.mergeNulls j.table joined.columnNames] else fitting j.table j.on joined t := by
    unfold leaving filling
    cases j.kind <;> by_cases h : fitting j.table j.on joined t = [] <;> simp [h]
  simp only [joinTuple, Outcome.bind_eq_ok, keepOk_eq_ok, List.forall_mem_map, Except.ok.injEq]
  constructor
  · rintro ⟨_, ⟨hanswers, rfl⟩, rfl⟩
    exact ⟨hanswers, hmade⟩
  · rintro ⟨hanswers, rfl⟩
    exact ⟨_, ⟨hanswers, rfl⟩, hmade.symm⟩

theorem join_eq_ok : s.join tuples j = .ok made ↔ ∃ joined, s.table j.table = .ok joined ∧
    (∀ t ∈ tuples, Answers j.table j.on joined t) ∧ made = tuples.flatMap (leaving j joined) := by
  simp only [join, Outcome.bind_eq_ok, Outcome.mapM_eq_ok, Except.ok.injEq, joinTuple_eq_ok,
    List.forall₂_and_left]
  refine exists_congr fun joined => and_congr_right fun _ => ?_
  have hparts : ∀ parts, List.Forall₂ (fun t part => leaving j joined t = part) tuples parts ↔
      tuples.map (leaving j joined) = parts := by
    intro parts
    refine List.forall₂_map_left_iff.symm.trans ?_
    rw [List.forall₂_eq_eq_eq]
  simp only [hparts, List.flatMap_def]
  constructor
  · rintro ⟨_, ⟨hanswers, rfl⟩, rfl⟩
    exact ⟨hanswers, rfl⟩
  · rintro ⟨hanswers, rfl⟩
    exact ⟨_, ⟨hanswers, rfl⟩, rfl⟩

theorem joinedTuples_join (s : Store) (q : Query) (j : Join) :
    s.joinedTuples (q.join j) = s.joinedTuples q >>= (s.join · j) := by
  show (s.table q.table >>= fun base => (q.joins ++ [j]).foldlM s.join (base.rows.map (Tuple.ofRow q.table))) =
    (s.table q.table >>= fun base => q.joins.foldlM s.join (base.rows.map (Tuple.ofRow q.table))) >>= (s.join · j)
  simp [List.foldlM_append, bind_assoc]

theorem selectTuples_of_joinsOnly (h : q.JoinsOnly) : s.selectTuples q = s.joinedTuples q := by
  have hkeep : ∀ tuples : List Tuple, keepOk (·.meetsAll q.clauses) tuples = .ok tuples := by
    intro tuples
    rw [keepOk_eq_ok, h.clauses]
    exact ⟨fun t _ => ⟨true, rfl⟩, (List.filter_true tuples).symm⟩
  rw [selectTuples, filteredTuples, h.orders, h.all]
  cases s.joinedTuples q with
  | error e => rfl
  | ok tuples =>
      show (keepOk (·.meetsAll q.clauses) tuples >>= _) = _
      rw [hkeep]
      exact congrArg Except.ok (sortedBy_nil tuples)

theorem selectTuples_join (h : q.JoinsOnly) : s.selectTuples (q.join j) = .ok made ↔
    ∃ tuples joined, s.selectTuples q = .ok tuples ∧ s.table j.table = .ok joined ∧
      (∀ t ∈ tuples, Answers j.table j.on joined t) ∧ made = tuples.flatMap (leaving j joined) := by
  have hjoin : (q.join j).JoinsOnly := ⟨h.clauses, h.orders, h.all⟩
  rw [selectTuples_of_joinsOnly hjoin, selectTuples_of_joinsOnly h, joinedTuples_join, Outcome.bind_eq_ok]
  simp only [join_eq_ok, exists_and_left]

theorem flatMap_filling (table : String) (on : JoinConstraint) (joined : Table) (tuples : List Tuple) :
    tuples.flatMap (filling table on joined) =
      (tuples.filter fun t => fitting table on joined t = []).map (·.mergeNulls table joined.columnNames) := by
  induction tuples with
  | nil => rfl
  | cons t rest ih =>
      rw [List.flatMap_cons, ih, filling]
      by_cases h : fitting table on joined t = [] <;> simp [h]

/-- A tuple has no columns under the name of a table but those of that table, however often it was joined. -/
theorem within_of_selectTuples (hq : q.TablesPlain) {table : String} (htable : '.' ∉ table.toList)
    (hjoined : s.table table = .ok joined) (h : s.selectTuples q = .ok tuples) :
    ∀ t ∈ tuples, t.Within table joined.columnNames := by
  have hcolumns : ∀ row ∈ joined.rows, ∀ column, row.contains column = true → column ∈ joined.columnNames :=
    fun row hrow column hcolumn => Table.mem_columnNames.mpr ⟨row, hrow, hcolumn⟩
  obtain ⟨traced, htraced, rfl⟩ := exists_trace h
  obtain ⟨all, hall, hsubset⟩ := mem_of_trace htraced
  obtain ⟨base, hbase⟩ := table_of_trace htraced
  intro t ht
  obtain ⟨e, he, rfl⟩ := List.mem_map.mp ht
  refine traceJoins_keeps (P := fun e => e.2.Within table joined.columnNames) hbase ?_ ?_ hall e (hsubset he)
  · intro i row hrow
    have hblank : Tuple.Within {} table joined.columnNames := by
      intro column hcolumn
      cases hcolumn
    refine hblank.merge htable hq.base fun heq => hcolumns row ?_
    obtain rfl := Except.ok.inj (hjoined.symm.trans (heq ▸ hbase))
    exact List.mem_of_getElem? hrow
  · intro j hj other hother i t hi
    refine ⟨fun row hrow => hi.merge htable (hq.joined j hj) fun heq => hcolumns row ?_,
      hi.mergeNulls htable (hq.joined j hj) fun heq => ?_⟩
    · obtain rfl := Except.ok.inj (hjoined.symm.trans (heq ▸ hother))
      exact hrow
    · obtain rfl := Except.ok.inj (hjoined.symm.trans (heq ▸ hother))
      exact List.Subset.refl _

/-- A left join makes of the tuples that enter it what the inner join makes of them, in the same order, and of each
tuple that no row fits one more, with nulls for the columns of the joined table. It fails if and only if the inner join
does. -/
theorem left_join_extends_inner (s : Store) {q : Query} (honly : q.JoinsOnly) (hq : q.TablesPlain) {table : String}
    (htable : '.' ∉ table.toList) (on : JoinConstraint) :
    ((∃ inner, s.selectTuples (q.join ⟨.inner, table, on⟩) = .ok inner) ↔
      ∃ outer, s.selectTuples (q.join ⟨.left, table, on⟩) = .ok outer) ∧
    ∀ inner outer, s.selectTuples (q.join ⟨.inner, table, on⟩) = .ok inner →
      s.selectTuples (q.join ⟨.left, table, on⟩) = .ok outer →
      inner.Sublist outer ∧ ∃ entering joined, s.selectTuples q = .ok entering ∧ s.table table = .ok joined ∧
        inner = entering.flatMap (fitting table on joined) ∧
        (∃ parts, outer = parts.flatten ∧ List.Forall₂ (fun t part =>
          fitting table on joined t ≠ [] ∧ part = fitting table on joined t ∨
          fitting table on joined t = [] ∧ ∃ u, part = [u] ∧ t.Unmatched table u) entering parts) ∧
        ∃ added, outer.Perm (inner ++ added) ∧ List.Forall₂ (Tuple.Unmatched table)
          (entering.filter fun t => fitting table on joined t = []) added := by
  refine ⟨?_, fun inner outer hinner houter => ?_⟩
  · simp only [selectTuples_join honly]
    constructor
    · rintro ⟨_, entering, joined, hentering, hjoined, hanswers, -⟩
      exact ⟨_, entering, joined, hentering, hjoined, hanswers, rfl⟩
    · rintro ⟨_, entering, joined, hentering, hjoined, hanswers, -⟩
      exact ⟨_, entering, joined, hentering, hjoined, hanswers, rfl⟩
  · obtain ⟨entering, joined, hentering, hjoined, -, rfl⟩ := (selectTuples_join honly).mp hinner
    obtain ⟨entering', joined', hentering', hjoined', -, houter⟩ := (selectTuples_join honly).mp houter
    obtain rfl := Except.ok.inj (hentering.symm.trans hentering')
    obtain rfl := Except.ok.inj (hjoined.symm.trans hjoined')
    have hparts : outer = entering.flatMap fun t => fitting table on joined t ++ filling table on joined t := houter
    have hnulls : ∀ t ∈ entering, t.Unmatched table (t.mergeNulls table joined.columnNames) := fun t ht =>
      Tuple.unmatched_mergeNulls (within_of_selectTuples hq htable hjoined hentering t ht)
    refine ⟨?_, entering, joined, hentering, hjoined, rfl,
      ⟨entering.map fun t => fitting table on joined t ++ filling table on joined t, hparts, ?_⟩,
      entering.flatMap (filling table on joined), ?_, ?_⟩
    · rw [hparts]
      exact List.Sublist.flatMap_right entering fun t _ => List.sublist_append_left _ _
    · rw [List.forall₂_map_right_iff, List.forall₂_same]
      intro t ht
      by_cases hfit : fitting table on joined t = []
      · exact .inr ⟨hfit, _, by rw [filling, if_pos hfit, hfit, List.nil_append], hnulls t ht⟩
      · exact .inl ⟨hfit, by rw [filling, if_neg hfit, List.append_nil]⟩
    · rw [hparts]
      exact (List.flatMap_append_perm entering _ _).symm
    · rw [flatMap_filling, List.forall₂_map_right_iff, List.forall₂_same]
      exact fun t ht => hnulls t (List.mem_of_mem_filter ht)

/-- The people whose key is the number of an order. -/
def namesakes : JoinConstraint := ⟨"people.id", "=", "orders.id"⟩

/-- Of the two purchases by one person, who is joined to them once more by the number of the order, the second has a
number that no person has. -/
theorem left_join_extends_inner_purchases :
    Query.purchases.JoinsOnly ∧ Query.purchases.TablesPlain ∧
    ∃ inner outer u, shop.selectTuples (Query.purchases.join ⟨.inner, "people", namesakes⟩) = .ok inner ∧
      shop.selectTuples (Query.purchases.join ⟨.left, "people", namesakes⟩) = .ok outer ∧
      inner.length = 1 ∧ inner.Sublist outer ∧ outer.Perm (inner ++ [u]) ∧
      u.resolve "people.name" = .null ∧ u.resolve "orders.id" = .ofInt64 2 ∧ u.resolve "name" = .string "ann" := by
  have honly : Query.purchases.JoinsOnly := ⟨rfl, rfl, rfl⟩
  have hplain : Query.purchases.TablesPlain := ⟨by decide, by decide⟩
  have htable : '.' ∉ "people".toList := by decide
  have hone : (shop.selectTuples (Query.purchases.join ⟨.inner, "people", namesakes⟩)).toOption.any
      (fun inner => inner.length = 1) = true := by decide
  have hlast : (shop.selectTuples .purchases).toOption.any (fun entering =>
      (shop.table "people").toOption.any fun joined =>
        (entering.filter fun t => fitting "people" namesakes joined t = []).map
          (fun t => (t.resolve "orders.id", t.resolve "name")) = [(.ofInt64 2, .string "ann")]) = true := by
    decide
  obtain ⟨inner, hinner, hlength⟩ := Outcome.toOption_any.mp hone
  obtain ⟨hboth, hextends⟩ := left_join_extends_inner shop honly hplain htable namesakes
  obtain ⟨outer, houter⟩ := hboth.mp ⟨inner, hinner⟩
  obtain ⟨hsublist, entering, joined, hentering, hjoined, -, -, added, hperm, hadded⟩ :=
    hextends inner outer hinner houter
  rw [hentering, hjoined] at hlast
  obtain ⟨t, hunmatched, hvalues⟩ := List.map_eq_singleton_iff.mp (of_decide_eq_true hlast)
  rw [hunmatched] at hadded
  obtain ⟨u, _, hu, hrest, rfl⟩ := List.forall₂_cons_left_iff.mp hadded
  obtain rfl := List.forall₂_nil_left_iff.mp hrest
  obtain ⟨hid, hname⟩ := Prod.ext_iff.mp hvalues
  refine ⟨honly, hplain, inner, outer, u, hinner, houter, of_decide_eq_true hlength, hsublist, hperm,
    hu.nulls "name", (hu.resolved "orders.id" ?_).trans hid, (hu.resolved "name" ?_).trans hname⟩
  · exact fun column heq => absurd (congrArg (fun s => s.toList.head?) heq) (by simp [Tuple.qualify_toList])
  · exact fun column heq => absurd (congrArg (fun s => s.toList.head?) heq) (by simp [Tuple.qualify_toList])

end Store

end RowQuery
