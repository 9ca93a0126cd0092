import RowQuery.Proofs.Columns
import RowQuery.Proofs.Selection

namespace RowQuery

/-- A tuple behind the place that its base row has in the base table. -/
abbrev Traced := Nat × Tuple

namespace Store

def traceBase (table : String) (rows : List Row) : List Traced := rows.zipIdx.map fun e => (e.2, .ofRow table e.1)

def traceJoin (s : Store) (traced : List Traced) (j : Join) : Except StoreError (List Traced) := do
  let joined ← s.table j.table
  let matched ← traced.mapM fun e => (joinTuple j joined e.2).map (List.map (Prod.mk e.1))
  .ok matched.flatten

def traceJoins (s : Store) (q : Query) : Except StoreError (List Traced) := do
  let base ← s.table q.table
  q.joins.foldlM s.traceJoin (traceBase q.table base.rows)

/-- The tuples that a query selects, each with the place of the base row that it is made from. Nothing but
the place is added to what `selectTuples` does. -/
def trace (s : Store) (q : Query) : Except StoreError (List Traced) := do
  let joined ← s.traceJoins q
  let kept ← keepOk (fun e => e.2.meetsAll q.clauses) joined
  .ok (paginated q.pagination (sortedBy (fun a b => Tuple.order q.orders a.2 b.2) kept))

def places (traced : List Traced) : List Nat := traced.map Prod.fst

variable {s : Store} {q : Query} {traced : List Traced}

theorem map_traceBase (table : String) (rows : List Row) :
    (traceBase table rows).map Prod.snd = rows.map (Tuple.ofRow table) := by
  have h : rows.map (Tuple.ofRow table) = (rows.zipIdx.map Prod.fst).map (Tuple.ofRow table) := by
    rw [List.zipIdx_map_fst]
  rw [h, traceBase, List.map_map, List.map_map]
  rfl

theorem map_traceJoin (s : Store) (traced : List Traced) (j : Join) :
    (s.traceJoin traced j).map (List.map Prod.snd) = s.join (traced.map Prod.snd) j := by
  unfold traceJoin join
  cases s.table j.table with
  | error e => rfl
  | ok joined =>
      have hmatched : (traced.mapM fun e => (joinTuple j joined e.2).map (List.map (Prod.mk e.1))).map
          (List.map (List.map Prod.snd)) = (traced.map Prod.snd).mapM (joinTuple j joined) := by
        apply Outcome.map_mapM
        intro e
        cases joinTuple j joined e.2 with
        | error e => rfl
        | ok matched => simp [Except.map, Function.comp_def]
      simp only [bind, Except.bind, ← hmatched]
      cases traced.mapM fun e => (joinTuple j joined e.2).map (List.map (Prod.mk e.1)) with
      | error e => rfl
      | ok matched => simp [Except.map, List.map_flatten]

theorem map_traceJoins (s : Store) (q : Query) :
    (s.traceJoins q).map (List.map Prod.snd) = s.joinedTuples q := by
  unfold traceJoins joinedTuples
  cases s.table q.table with
  | error e => rfl
  | ok base =>
      have h := Outcome.map_foldlM (map_traceJoin s) q.joins (traceBase q.table base.rows)
      rwa [map_traceBase] at h

/-- Without the places a trace is the selection itself, its errors included. -/
theorem map_trace (s : Store) (q : Query) : (s.trace q).map (List.map Prod.snd) = s.selectTuples q := by
  unfold trace selectTuples filteredTuples
  rw [← map_traceJoins]
  cases s.traceJoins q with
  | error e => rfl
  | ok joined =>
      have hkept := map_keepOk (·.meetsAll q.clauses) Prod.snd joined
      simp only [bind, Except.bind, Except.map] at hkept ⊢
      rw [← hkept]
      cases keepOk (fun e => e.2.meetsAll q.clauses) joined with
      | error e => rfl
      | ok kept => simp only [map_paginated, map_sortedBy]

theorem exists_trace {tuples : List Tuple} (h : s.selectTuples q = .ok tuples) :
    ∃ traced, s.trace q = .ok traced ∧ traced.map Prod.snd = tuples := by
  rw [← map_trace] at h
  exact Outcome.map_eq_ok.mp h

theorem selectTuples_of_trace (h : s.trace q = .ok traced) : s.selectTuples q = .ok (traced.map Prod.snd) := by
  rw [← map_trace, h]
  rfl

theorem trace_eq_ok :
    s.trace q = .ok traced ↔ ∃ joined, s.traceJoins q = .ok joined ∧
      (∀ e ∈ joined, ∃ b, e.2.meetsAll q.clauses = .ok b) ∧
      traced = paginated q.pagination (sortedBy (fun a b => Tuple.order q.orders a.2 b.2)
        (joined.filter (passes fun e => e.2.meetsAll q.clauses))) := by
  simp only [trace, Outcome.bind_eq_ok, keepOk_eq_ok, Except.ok.injEq]
  constructor
  · rintro ⟨joined, hjoined, _, ⟨htests, rfl⟩, rfl⟩
    exact ⟨joined, hjoined, htests, rfl⟩
  · rintro ⟨joined, hjoined, htests, rfl⟩
    exact ⟨joined, hjoined, _, ⟨htests, rfl⟩, rfl⟩

theorem mem_of_trace (h : s.trace q = .ok traced) : ∃ joined, s.traceJoins q = .ok joined ∧ traced ⊆ joined := by
  obtain ⟨joined, hjoined, -, rfl⟩ := trace_eq_ok.mp h
  refine ⟨joined, hjoined, fun e he => ?_⟩
  have hsorted := (paginated_sublist _ _).subset he
  exact List.mem_of_mem_filter ((sortedBy_perm _ _).subset hsorted)

theorem mem_joinTuple {j : Join} {joined : Table} {t : Tuple} {matched : List Tuple}
    (h : joinTuple j joined t = .ok matched) {u : Tuple} (hu : u ∈ matched) :
    (∃ row ∈ joined.rows, u = t.merge j.table row) ∨ u = t.mergeNulls j.table joined.columnNames := by
  obtain ⟨kept, hkept, h⟩ := Outcome.bind_eq_ok.mp h
  have hmatched := Except.ok.inj h
  split at hmatched
  · rw [← hmatched] at hu
    exact Or.inr (List.mem_singleton.mp hu)
  · rw [← hmatched, (keepOk_eq_ok.mp hkept).2] at hu
    obtain ⟨row, hrow, rfl⟩ := List.mem_map.mp (List.mem_of_mem_filter hu)
    exact Or.inl ⟨row, hrow, rfl⟩

/-- What holds of the base rows and is kept by every join holds of all tuples before they are filtered. -/
theorem traceJoins_keeps {P : Traced → Prop} {base : Table} (hbase : s.table q.table = .ok base)
    (hrow : ∀ i row, base.rows[i]? = some row → P (i, .ofRow q.table row))
    (hjoin : ∀ j ∈ q.joins, ∀ joined, s.table j.table = .ok joined → ∀ i t, P (i, t) →
      (∀ row ∈ joined.rows, P (i, t.merge j.table row)) ∧ P (i, t.mergeNulls j.table joined.columnNames))
    (h : s.traceJoins q = .ok traced) : ∀ e ∈ traced, P e := by
  rw [traceJoins, hbase] at h
  -- The induction is on the joins, and carries the property of all tuples made so far.
  refine Outcome.foldlM_invariant (P := fun traced => ∀ e ∈ traced, P e) ?_ ?_ h
  · intro e he
    obtain ⟨⟨row, i⟩, hi, rfl⟩ := List.mem_map.mp he
    exact hrow i row (List.mk_mem_zipIdx_iff_getElem?.mp hi)
  · intro before after j hj hbefore hstep e he
    obtain ⟨joined, hjoined, hstep⟩ := Outcome.bind_eq_ok.mp hstep
    obtain ⟨matched, hmatched, hstep⟩ := Outcome.bind_eq_ok.mp hstep
    rw [← Except.ok.inj hstep] at he
    obtain ⟨part, hpart, he⟩ := List.mem_flatten.mp he
    obtain ⟨⟨i, t⟩, hit, hpart⟩ := Outcome.mem_of_mapM_eq_ok hmatched hpart
    obtain ⟨tuples, htuples, rfl⟩ := Outcome.map_eq_ok.mp hpart
    obtain ⟨u, hu, rfl⟩ := List.mem_map.mp he
    obtain ⟨hmerge, hnulls⟩ := hjoin j hj joined hjoined i t (hbefore _ hit)
    rcases mem_joinTuple htuples hu with ⟨row, hrow, rfl⟩ | rfl
    · exact hmerge row hrow
    · exact hnulls

theorem traceJoins_invariant {P : Traced → Prop} {base : Table} (hbase : s.table q.table = .ok base)
    (hrow : ∀ i row, base.rows[i]? = some row → P (i, .ofRow q.table row))
    (hmerge : ∀ j ∈ q.joins, ∀ i t row, P (i, t) → P (i, t.merge j.table row))
    (hnulls : ∀ j ∈ q.joins, ∀ i t columns, P (i, t) → P (i, t.mergeNulls j.table columns))
    (h : s.traceJoins q = .ok traced) : ∀ e ∈ traced, P e :=
  traceJoins_keeps hbase hrow
    (fun j hj _ _ i t hi => ⟨fun row _ => hmerge j hj i t row hi, hnulls j hj i t _ hi⟩) h

theorem table_of_trace (h : s.trace q = .ok traced) : ∃ base, s.table q.table = .ok base := by
  obtain ⟨joined, hjoined, -⟩ := trace_eq_ok.mp h
  obtain ⟨base, hbase, -⟩ := Outcome.bind_eq_ok.mp hjoined
  exact ⟨base, hbase⟩

theorem lt_of_mem_places {base : Table} (hbase : s.table q.table = .ok base) (h : s.trace q = .ok traced)
    {i : Nat} (hi : i ∈ places traced) : i < base.rows.length := by
  obtain ⟨e, he, rfl⟩ := List.mem_map.mp hi
  obtain ⟨joined, hjoined, hsubset⟩ := mem_of_trace h
  refine traceJoins_invariant (P := fun e => e.1 < base.rows.length) hbase ?_ ?_ ?_ hjoined e (hsubset he)
  · intro i row hi
    exact (List.getElem?_eq_some_iff.mp hi).1
  · exact fun _ _ _ _ _ hi => hi
  · exact fun _ _ _ _ _ hi => hi

end Store

/-- No joined table is the base table, and no name of them has a point. -/
structure Query.JoinsApart (q : Query) : Prop where
  base : '.' ∉ q.table.toList
  joined : ∀ j ∈ q.joins, j.table ≠ q.table ∧ '.' ∉ j.table.toList

namespace Store

variable {s : Store} {q : Query} {traced : List Traced}

/-- The columns of its base row can be read off every selected tuple, whatever was joined to it. -/
theorem carries_of_trace (hq : q.JoinsApart) {base : Table} (hbase : s.table q.table = .ok base)
    (h : s.trace q = .ok traced) {i : Nat} {t : Tuple} (he : (i, t) ∈ traced) :
    ∃ row, base.rows[i]? = some row ∧ t.Carries q.table row := by
  obtain ⟨joined, hjoined, hsubset⟩ := mem_of_trace h
  refine traceJoins_invariant
    (P := fun e => ∃ row, base.rows[e.1]? = some row ∧ e.2.Carries q.table row) hbase ?_ ?_ ?_ hjoined
    (i, t) (hsubset he)
  · exact fun i row hi => ⟨row, hi, Tuple.carries_ofRow q.table row⟩
  · rintro j hj i t joined ⟨row, hi, ht⟩
    obtain ⟨hne, hdot⟩ := hq.joined j hj
    exact ⟨row, hi, ht.merge hq.base hdot hne joined⟩
  · rintro j hj i t columns ⟨row, hi, ht⟩
    obtain ⟨hne, hdot⟩ := hq.joined j hj
    exact ⟨row, hi, ht.mergeNulls hq.base hdot hne columns⟩

end Store

end RowQuery
