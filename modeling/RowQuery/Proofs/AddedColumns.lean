import RowQuery.Proofs.RelatedRows

namespace RowQuery.Store

open LoadNode (names)

variable {s : Store} {q : Query} {tuples : List Tuple}

/-- The columns that loads add to what is shown of a row of a table. -/
def addedColumns (s : Store) (table : String) (loads : List EagerLoad) (parent : Row) : Except StoreError Row :=
  s.loadNodes table parent (LoadNode.ofLoads loads) .empty

theorem loadNodes_merge (s : Store) (table : String) (parent : Row) (nodes : List LoadNode) (row added : Row) :
    s.loadNodes table parent nodes (row.merge added) = (s.loadNodes table parent nodes added).map row.merge := by
  induction nodes generalizing added with
  | nil => rfl
  | cons n rest ih =>
      rw [loadNodes, loadNodes]
      cases s.loadNode table parent n with
      | error e => rfl
      | ok value =>
          show s.loadNodes table parent rest ((row.merge added).insert n.name value) = _
          rw [← Dict.merge_insert, ih]
          rfl

theorem contains_of_loadNodes {table : String} {parent before after : Row} {nodes : List LoadNode}
    (h : s.loadNodes table parent nodes before = .ok after) (column : String) :
    after.contains column = true ↔ column ∈ names nodes ∨ before.contains column = true := by
  induction nodes generalizing before with
  | nil =>
      rw [loadNodes] at h
      obtain rfl := Except.ok.inj h
      simp [names]
  | cons n rest ih =>
      rw [loadNodes] at h
      obtain ⟨value, -, hrest⟩ := Outcome.bind_eq_ok.mp h
      rw [ih hrest, Dict.contains_insert, names, names, List.map_cons, List.mem_cons]
      tauto

theorem contains_addedColumns {table : String} {loads : List EagerLoad} {parent added : Row}
    (h : s.addedColumns table loads parent = .ok added) (column : String) :
    added.contains column = true ↔ column ∈ loads.map EagerLoad.column := by
  rw [contains_of_loadNodes h, LoadNode.mem_names_ofLoads]
  simp [Dict.contains]

theorem materialize_eq_ok {rows : List Row} :
    s.materialize q tuples = .ok rows ↔
      ∃ added, tuples.mapM (fun t => s.addedColumns q.table q.loads (t.tableColumns q.table)) = .ok added ∧
        rows = List.zipWith Dict.merge (tuples.map (·.project q)) added := by
  have hload : ∀ t : Tuple, s.loadNodes q.table (t.tableColumns q.table) (LoadNode.ofLoads q.loads) (t.project q) =
      (s.addedColumns q.table q.loads (t.tableColumns q.table)).map (t.project q).merge :=
    fun t => s.loadNodes_merge q.table _ _ (t.project q) .empty
  simp only [materialize, hload, Outcome.mapM_map_eq_ok, List.zipWith_map_left]

/-- Loads only add columns: with them a query answers as without them, each row written over in the columns that the
loads are named for. What is written there is a function of the base row behind the row, so it is the same whatever
columns are selected, and no joined table has a part in it. -/
theorem loads_add_columns (s : Store) {q : Query} (hq : q.JoinsApart) (hnone : q.loads = []) {loads : List EagerLoad}
    {loaded : List Row} (h : s.get { q with loads } = .ok loaded) :
    ∃ base traced rows added, s.table q.table = .ok base ∧ s.trace q = .ok traced ∧ s.get q = .ok rows ∧
      rows.length = loaded.length ∧ added.length = loaded.length ∧ loaded = List.zipWith Dict.merge rows added ∧
      List.Forall₂ (fun e row => ∃ parent, base.rows[e.1]? = some parent ∧
        s.addedColumns q.table loads parent = .ok row ∧
        ∀ column, row.contains column = true ↔ column ∈ loads.map EagerLoad.column) traced added ∧
      ∀ columns, ∃ shown, s.get { q with columns } = .ok shown ∧ shown.length = loaded.length ∧
        s.get { q with columns, loads } = .ok (List.zipWith Dict.merge shown added) := by
  obtain ⟨tuples, htuples, hrows⟩ := Outcome.bind_eq_ok.mp h
  obtain ⟨added, hadded, rfl⟩ := materialize_eq_ok.mp hrows
  obtain ⟨traced, htraced, rfl⟩ := exists_trace (q := q) htuples
  obtain ⟨base, hbase⟩ := table_of_trace htraced
  have hlength := (Outcome.mapM_eq_ok.mp hadded).length_eq
  -- The tuples do not depend on what is shown of them, and neither do the added columns.
  have hshown : ∀ columns, s.get { q with columns } =
      .ok ((traced.map Prod.snd).map (·.project { q with columns })) := by
    intro columns
    have hselect : s.selectTuples { q with columns } = .ok (traced.map Prod.snd) := htuples
    rw [get_of_noLoads s (q := { q with columns }) hnone, hselect]
    rfl
  have hloaded : ∀ columns, s.get { q with columns, loads } = .ok (List.zipWith Dict.merge
      ((traced.map Prod.snd).map (·.project { q with columns })) added) := by
    intro columns
    exact Outcome.bind_eq_ok.mpr ⟨_, htuples, materialize_eq_ok.mpr ⟨added, hadded, rfl⟩⟩
  refine ⟨base, traced, _, added, hbase, htraced, hshown q.columns, ?_, ?_, rfl, ?_, fun columns => ?_⟩
  · simp [← hlength]
  · simp [← hlength]
  · have hbehind : ∀ e ∈ traced, ∃ parent, base.rows[e.1]? = some parent ∧ e.2.Carries q.table parent :=
      fun e he => carries_of_trace hq hbase htraced he
    have hread := List.forall₂_map_left_iff.mp (Outcome.mapM_eq_ok.mp hadded)
    refine ((List.forall₂_and_left _ _).mpr ⟨hbehind, hread⟩).imp fun e row hrow => ?_
    obtain ⟨⟨parent, hparent, hcarries⟩, hload⟩ := hrow
    rw [hcarries.tableColumns] at hload
    exact ⟨parent, hparent, hload, contains_addedColumns hload⟩
  · exact ⟨_, hshown columns, by simp [← hlength], hloaded columns⟩

/-- The people, once for each of their books, whose numbers take the plain name of the numbers of the people. -/
def authorship : Query where
  table := "people"
  joins := [⟨.left, "books", ⟨"books.author", "=", "people.id"⟩⟩]

theorem loads_add_columns_authorship :
    ∃ loaded base traced rows added, library.get { authorship with loads := reading.loads } = .ok loaded ∧
      loaded.length = 3 ∧ library.table "people" = .ok base ∧ library.get authorship = .ok rows ∧
      loaded = List.zipWith Dict.merge rows added ∧
      List.Forall₂ (fun (e : Traced) row => ∃ parent, base.rows[e.1]? = some parent ∧
        library.addedColumns "people" reading.loads parent = .ok row ∧
        ∀ column, row.contains column = true ↔ column = "books") traced added := by
  have hcheck : (library.get { authorship with loads := reading.loads }).toOption.any
      (fun rows => rows.length = 3) = true := by decide +kernel
  have hcolumns : reading.loads.map EagerLoad.column = ["books", "books"] := by decide
  have hapart : authorship.JoinsApart := ⟨by decide, by decide⟩
  obtain ⟨loaded, hget, hthree⟩ := Outcome.toOption_any.mp hcheck
  obtain ⟨base, traced, rows, added, hbase, -, hrows, -, -, hmerged, hadded, -⟩ :=
    loads_add_columns library hapart rfl hget
  refine ⟨loaded, base, traced, rows, added, hget, of_decide_eq_true hthree, hbase, hrows, hmerged, hadded.imp ?_⟩
  rintro e row ⟨parent, hparent, hrow, hcontains⟩
  refine ⟨parent, hparent, hrow, fun column => ?_⟩
  rw [hcontains, hcolumns]
  simp

end RowQuery.Store
