import RowQuery.Proofs.Compilation
import RowQuery.Proofs.Origin
import Mathlib.Data.List.Infix
import Mathlib.Data.List.Perm.Subperm

namespace RowQuery

theorem passes_meetsAll_mono {fewer more : List Clause} (h : fewer ⊆ more) {t : Tuple}
    (ht : passes (·.meetsAll more) t = true) : passes (·.meetsAll fewer) t = true := by
  rw [passes_iff, Tuple.meetsAll, Outcome.allM_eq_ok_true] at ht ⊢
  intro c hc
  exact ht c (h hc)

namespace Store

variable {s : Store} {q q' : Query}

theorem joinedTuples_congr (htable : q'.table = q.table) (hjoins : q'.joins = q.joins) :
    s.joinedTuples q' = s.joinedTuples q := by
  rw [joinedTuples, joinedTuples, htable, hjoins]

theorem traceJoins_congr (htable : q'.table = q.table) (hjoins : q'.joins = q.joins) :
    s.traceJoins q' = s.traceJoins q := by
  rw [traceJoins, traceJoins, htable, hjoins]

theorem mem_paginated_sortedBy {α : Type} {order : α → α → Ordering} {p : Option Pagination} {l : List α} {a : α}
    (h : a ∈ paginated p (sortedBy order l)) : a ∈ l :=
  (sortedBy_perm order l).subset ((paginated_sublist p _).subset h)

/-- Clauses that are added behind others cannot hide an error of these, and let no new tuple through. -/
theorem trace_narrows {more : List Clause} (htable : q'.table = q.table) (hjoins : q'.joins = q.joins)
    (hclauses : q'.clauses = q.clauses ++ more) (hall : q.pagination = none) {full : List Traced}
    (h : s.trace q' = .ok full) : ∃ part, s.trace q = .ok part ∧ full ⊆ part := by
  obtain ⟨joined, hjoined, htests, rfl⟩ := trace_eq_ok.mp h
  rw [traceJoins_congr htable hjoins] at hjoined
  rw [hclauses] at htests ⊢
  refine ⟨_, trace_eq_ok.mpr ⟨joined, hjoined, ?_, rfl⟩, ?_⟩
  · intro e he
    obtain ⟨b, hb⟩ := htests e he
    exact Outcome.allM_of_append hb
  · intro e he
    obtain ⟨hmem, hpasses⟩ := List.mem_filter.mp (mem_paginated_sortedBy he)
    rw [hall]
    refine (sortedBy_perm _ _).symm.subset (List.mem_filter.mpr ⟨hmem, ?_⟩)
    exact passes_meetsAll_mono (List.subset_append_left _ _) hpasses

theorem exists_trace_of_all {base : Table} (hbase : s.table q.table = .ok base) (hjoins : q.joins = [])
    (hclauses : q.clauses = []) (hall : q.pagination = none) :
    ∃ traced, s.trace q = .ok traced ∧ ∀ i < base.rows.length, i ∈ places traced := by
  have hjoined : s.traceJoins q = .ok (traceBase q.table base.rows) := by
    rw [traceJoins, hbase, hjoins]
    rfl
  refine ⟨_, trace_eq_ok.mpr ⟨_, hjoined, ?_, rfl⟩, ?_⟩
  · intro e _
    exact ⟨true, by rw [hclauses]; rfl⟩
  · intro i hi
    have hmem : (i, Tuple.ofRow q.table base.rows[i]) ∈ traceBase q.table base.rows :=
      List.mem_map.mpr ⟨(base.rows[i], i), List.mk_mem_zipIdx_iff_getElem?.mpr (by simp [hi]), rfl⟩
    have hpasses : passes (fun e : Traced => e.2.meetsAll q.clauses)
        (i, Tuple.ofRow q.table base.rows[i]) = true := by
      rw [passes_iff, hclauses]
      rfl
    rw [hall]
    exact List.mem_map_of_mem ((sortedBy_perm _ _).symm.subset (List.mem_filter.mpr ⟨hmem, hpasses⟩))

theorem selectTuples_subperm (htable : q'.table = q.table) (hjoins : q'.joins = q.joins)
    (hclauses : q.clauses ⊆ q'.clauses) (hall : q.pagination = none) {tuples tuples' : List Tuple}
    (h : s.selectTuples q = .ok tuples) (h' : s.selectTuples q' = .ok tuples') : tuples'.Subperm tuples := by
  obtain ⟨joined, hjoined, -, rfl⟩ := selectTuples_eq_ok.mp h
  obtain ⟨joined', hjoined', -, rfl⟩ := selectTuples_eq_ok.mp h'
  rw [joinedTuples_congr htable hjoins, hjoined] at hjoined'
  obtain rfl := Except.ok.inj hjoined'
  have hfilter : (joined.filter (passes (·.meetsAll q'.clauses))).Sublist
      (joined.filter (passes (·.meetsAll q.clauses))) :=
    List.monotone_filter_right joined fun t ht => passes_meetsAll_mono hclauses ht
  rw [hall]
  refine (paginated_sublist _ _).subperm.trans ((sortedBy_perm _ _).subperm.trans ?_)
  exact hfilter.subperm.trans (sortedBy_perm _ _).symm.subperm

theorem prefix_of_pipeline {stages : List Stage} (h : stages <+: Stage.pipeline) :
    stages = Stage.pipeline ∨ .limit ∉ stages ∧ Stage.ordered stages = stages ∧
      (.joins ∈ stages ∨ stages = [] ∨ stages = [.relations]) := by
  have hall : ∀ stages ∈ Stage.pipeline.inits, stages = Stage.pipeline ∨ .limit ∉ stages ∧
      Stage.ordered stages = stages ∧ (.joins ∈ stages ∨ stages = [] ∨ stages = [.relations]) := by decide
  exact hall stages ((List.mem_inits _ _).mpr h)

theorem trace_narrows_of_joins (table : String) (d : Descriptor) {stages rest : List Stage}
    (h : stages ++ rest = Stage.pipeline) (hordered : Stage.ordered stages = stages) (hlimit : .limit ∉ stages)
    (hjoined : .joins ∈ stages) {full : List Traced} (hfull : s.trace (({ table } : Query).compile d) = .ok full) :
    ∃ part, s.trace (({ table } : Query).compileStages d stages) = .ok part ∧ full ⊆ part := by
  have hclauses : (({ table } : Query).compile d).clauses =
      (({ table } : Query).compileStages d stages).clauses ++ rest.flatMap (Stage.clauses d) := by
    have hpipeline : Stage.ordered Stage.pipeline = stages ++ rest := by rw [h]; rfl
    rw [Query.compile, Query.compileStages_clauses, Query.compileStages_clauses, hordered, hpipeline,
      List.flatMap_append, List.append_assoc]
  have hjoins : (({ table } : Query).compile d).joins = (({ table } : Query).compileStages d stages).joins := by
    rw [Query.compile, Query.compileStages_joins, Query.compileStages_joins, if_pos hjoined, if_pos (by decide)]
  have htable : (({ table } : Query).compile d).table = (({ table } : Query).compileStages d stages).table := by
    rw [Query.compile, Query.compileStages_table, Query.compileStages_table]
  exact trace_narrows htable hjoins hclauses (Query.compileStages_pagination { table } d hlimit) hfull

theorem trace_narrows_of_plain (table : String) (d : Descriptor) {stages : List Stage}
    (h : stages = [] ∨ stages = [.relations]) {full : List Traced}
    (hfull : s.trace (({ table } : Query).compile d) = .ok full) :
    ∃ part, s.trace (({ table } : Query).compileStages d stages) = .ok part ∧ places full ⊆ places part := by
  obtain ⟨base, hbase⟩ := table_of_trace hfull
  have hplain : (({ table } : Query).compileStages d stages).joins = [] ∧
      (({ table } : Query).compileStages d stages).clauses = [] ∧
      (({ table } : Query).compileStages d stages).pagination = none := by
    rw [Query.compileStages_eq]
    rcases h with rfl | rfl <;> exact ⟨rfl, rfl, rfl⟩
  obtain ⟨hjoins, hclauses, hall⟩ := hplain
  have hbase' : s.table (({ table } : Query).compileStages d stages).table = .ok base := by
    rw [Query.compile, Query.compileStages_table] at hbase
    rw [Query.compileStages_table]
    exact hbase
  obtain ⟨part, hpart, hevery⟩ := exists_trace_of_all hbase' hjoins hclauses hall
  exact ⟨part, hpart, fun i hi => hevery i (lt_of_mem_places hbase hfull hi)⟩

theorem trace_narrows_of_prefix (table : String) (d : Descriptor) {stages : List Stage}
    (h : stages <+: Stage.pipeline) {full : List Traced}
    (hfull : s.trace (({ table } : Query).compile d) = .ok full) :
    ∃ part, s.trace (({ table } : Query).compileStages d stages) = .ok part ∧ places full ⊆ places part := by
  rcases prefix_of_pipeline h with rfl | ⟨hlimit, hordered, hjoined | hplain⟩
  · exact ⟨full, hfull, List.Subset.refl _⟩
  -- A prefix with the joins makes the same tuples to filter; one without them has every base row.
  · obtain ⟨rest, hrest⟩ := h
    obtain ⟨part, hpart, hsubset⟩ := trace_narrows_of_joins table d hrest hordered hlimit hjoined hfull
    exact ⟨part, hpart, List.map_subset _ hsubset⟩
  · exact trace_narrows_of_plain table d hplain hfull

/-- The stages of a descriptor narrow what a query selects. The whole pipeline makes tuples from no base row
from which a prefix of it makes none, and fails wherever the prefix does; and of two sets of stages that agree
on the joins and of which the smaller has no limit, the larger selects a part of the tuples of the smaller. -/
theorem compileStages_narrows (s : Store) (table : String) (d : Descriptor) :
    (∀ stages, stages <+: Stage.pipeline →
      ∀ tuples, s.selectTuples (({ table } : Query).compile d) = .ok tuples → ∃ full part,
        s.trace (({ table } : Query).compile d) = .ok full ∧ full.map Prod.snd = tuples ∧
        s.trace (({ table } : Query).compileStages d stages) = .ok part ∧
        s.selectTuples (({ table } : Query).compileStages d stages) = .ok (part.map Prod.snd) ∧
        places full ⊆ places part) ∧
    ∀ fewer more : List Stage, fewer ⊆ more → .limit ∉ fewer → (.joins ∈ fewer ↔ .joins ∈ more) →
      ∀ tuples tuples', s.selectTuples (({ table } : Query).compileStages d fewer) = .ok tuples →
        s.selectTuples (({ table } : Query).compileStages d more) = .ok tuples' → tuples'.Subperm tuples := by
  constructor
  · intro stages hstages tuples htuples
    obtain ⟨full, hfull, hmap⟩ := exists_trace htuples
    obtain ⟨part, hpart, hplaces⟩ := trace_narrows_of_prefix table d hstages hfull
    exact ⟨full, part, hfull, hmap, hpart, selectTuples_of_trace hpart, hplaces⟩
  · intro fewer more hsubset hlimit hjoined tuples tuples' h h'
    refine selectTuples_subperm ?_ ?_ ?_ (Query.compileStages_pagination { table } d hlimit) h h'
    · rw [Query.compileStages_table, Query.compileStages_table]
    · simp only [Query.compileStages_joins, hjoined]
    · rw [Query.compileStages_clauses, Query.compileStages_clauses]
      intro c hc
      obtain ⟨stage, hstage, hc⟩ := List.mem_flatMap.mp hc
      exact List.mem_flatMap.mpr ⟨stage, Stage.ordered_subset hsubset hstage, hc⟩

theorem compileStages_narrows_laterPurchase :
    (∃ full part, shop.trace (({ table := "people" } : Query).compile .laterPurchase) = .ok full ∧
      shop.trace (({ table := "people" } : Query).compileStages .laterPurchase [.relations]) = .ok part ∧
      places full ⊆ places part) ∧
    ∃ tuples tuples',
      shop.selectTuples (({ table := "people" } : Query).compileStages .laterPurchase [.joins]) = .ok tuples ∧
      shop.selectTuples (({ table := "people" } : Query).compileStages .laterPurchase [.whereAll, .joins]) =
        .ok tuples' ∧ tuples'.Subperm tuples := by
  have hnarrows := compileStages_narrows shop "people" .laterPurchase
  have hfull : ((shop.selectTuples (({ table := "people" } : Query).compile .laterPurchase)).toOption).isSome := by
    decide
  have hfewer : ((shop.selectTuples
      (({ table := "people" } : Query).compileStages .laterPurchase [.joins])).toOption).isSome := by
    decide
  have hmore : ((shop.selectTuples
      (({ table := "people" } : Query).compileStages .laterPurchase [.whereAll, .joins])).toOption).isSome := by
    decide
  obtain ⟨tuples, htuples⟩ := Outcome.toOption_isSome.mp hfull
  obtain ⟨all, hall⟩ := Outcome.toOption_isSome.mp hfewer
  obtain ⟨some, hsome⟩ := Outcome.toOption_isSome.mp hmore
  refine ⟨?_, all, some, hall, hsome, ?_⟩
  · obtain ⟨full, part, hfull, -, hpart, -, hplaces⟩ := hnarrows.1 [.relations] (by decide) tuples htuples
    exact ⟨full, part, hfull, hpart, hplaces⟩
  · exact hnarrows.2 [.joins] [.whereAll, .joins] (by decide) (by decide) (by decide) all some hall hsome

end Store

end RowQuery
