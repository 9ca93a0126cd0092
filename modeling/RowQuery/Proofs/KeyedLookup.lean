import RowQuery.Proofs.Keys
import RowQuery.Proofs.Origin
import RowQuery.Proofs.SingleTable

namespace RowQuery

namespace Table

theorem mem_columnNames {t : Table} {column : String} :
    column ∈ t.columnNames ↔ ∃ row ∈ t.rows, row.contains column = true := by
  have hfold : ∀ (rows : List Row) (d : Row), (rows.foldl Dict.merge d).contains column = true ↔
      d.contains column = true ∨ ∃ row ∈ rows, row.contains column = true := by
    intro rows
    induction rows with
    | nil => simp
    | cons row rest ih =>
        intro d
        rw [List.foldl_cons, ih, Dict.contains_merge]
        simp [or_assoc]
  rw [columnNames, Dict.mem_names, hfold]
  simp [Dict.contains]

end Table

namespace Tuple

theorem meetsAll_whereEqual (t : Tuple) (q : Query) (column : String) {value : Json} (h : value.isNull = false) :
    t.meetsAll (q.whereEqual column value).clauses =
      (t.meetsAll q.clauses).map (· && (t.resolve column).equal value) :=
  Outcome.allM_append_of_ok (t.meetsAll_equal column h) q.clauses

end Tuple

namespace Store

variable {s : Store} {q : Query} {base : Table} {traced : List Traced}

/-- No joined table has a column of the given name, and the name has no point. -/
structure Unshadowed (s : Store) (q : Query) (column : String) : Prop where
  plain : '.' ∉ column.toList
  joined : ∀ j ∈ q.joins, ∀ t, s.table j.table = .ok t → column ∉ t.columnNames

theorem Unshadowed.resolve {column : String} (h : s.Unshadowed q column) (hbase : s.table q.table = .ok base)
    (htrace : s.trace q = .ok traced) {i : Nat} {t : Tuple} (he : (i, t) ∈ traced) :
    ∃ row, base.rows[i]? = some row ∧ t.resolve column = row.cell column := by
  obtain ⟨joined, hjoined, hsubset⟩ := mem_of_trace htrace
  obtain ⟨row, hrow, hget⟩ : ∃ row, base.rows[i]? = some row ∧ t.plain.get? column = row.get? column := by
    refine traceJoins_keeps (P := fun e => ∃ row, base.rows[e.1]? = some row ∧
      e.2.plain.get? column = row.get? column) hbase ?_ ?_ hjoined (i, t) (hsubset he)
    · intro i row hi
      exact ⟨row, hi, by rw [Tuple.plain_ofRow]⟩
    · rintro j hj u hu i t ⟨row, hi, hget⟩
      have hnew := h.joined j hj u hu
      refine ⟨fun other hother => ⟨row, hi, ?_⟩, row, hi, ?_⟩
      · have hnone : other.get? column = none := by
          by_contra hsome
          exact hnew (Table.mem_columnNames.mpr ⟨other, hother, Option.isSome_iff_ne_none.mpr hsome⟩)
        show (t.plain.merge other).get? column = _
        rw [Dict.get?_merge, hnone, Option.none_or, hget]
      · rw [Tuple.plain_mergeNulls, if_neg hnew, Option.or_none, hget]
  refine ⟨row, hrow, ?_⟩
  rw [Tuple.resolve, if_neg (by simpa using h.plain), hget, Row.cell]

theorem selectTuples_first {column : String} {value : Json} (hall : q.pagination = none) (h : value.isNull = false)
    {found : List Tuple} (hfound : s.selectTuples ((q.whereEqual column value).limit 1) = .ok found) :
    ∃ tuples sorted : List Tuple, s.selectTuples q = .ok tuples ∧
      sorted.Perm (tuples.filter fun t => (t.resolve column).equal value) ∧ found = sorted.take 1 := by
  obtain ⟨joined, hjoined, htests, hfound⟩ := selectTuples_eq_ok.mp hfound
  have hmeets : (fun t : Tuple => t.meetsAll ((q.whereEqual column value).limit 1).clauses) =
      fun t => (t.meetsAll q.clauses).map (· && (t.resolve column).equal value) :=
    funext fun t => t.meetsAll_whereEqual q column h
  have hwindow : ((q.whereEqual column value).limit 1).pagination = some { limit := some 1 } := by
    show some (Pagination.mk (some 1) (q.pagination.bind Pagination.offset)) = _
    rw [hall]
    rfl
  rw [hwindow, paginated_limit, hmeets, passes_map_and] at hfound
  refine ⟨_, _, selectTuples_eq_ok.mpr ⟨joined, hjoined, fun t ht => ?_, rfl⟩, ?_, hfound⟩
  · obtain ⟨b, hb⟩ := htests t ht
    obtain ⟨c, hc, -⟩ := Outcome.map_eq_ok.mp ((congrFun hmeets t).symm.trans hb)
    exact ⟨c, hc⟩
  · rw [hall, ← List.filter_filter]
    exact (sortedBy_perm _ _).trans ((sortedBy_perm _ _).filter _).symm

theorem exists_selectTuples_first (column : String) {value : Json} (h : value.isNull = false)
    {tuples : List Tuple} (htuples : s.selectTuples q = .ok tuples) :
    ∃ found, s.selectTuples ((q.whereEqual column value).limit 1) = .ok found := by
  obtain ⟨joined, hjoined, htests, -⟩ := selectTuples_eq_ok.mp htuples
  refine ⟨_, selectTuples_eq_ok.mpr ⟨joined, hjoined, fun t ht => ?_, rfl⟩⟩
  obtain ⟨b, hb⟩ := htests t ht
  exact ⟨_, (t.meetsAll_whereEqual q column h).trans (Outcome.map_eq_ok.mpr ⟨b, hb, rfl⟩)⟩

theorem find_eq_ok {id : Json} (hall : q.pagination = none) (hbase : s.table q.table = .ok base)
    (hid : id.isNull = false) {answer : Option Row} (h : s.find q id = .ok answer) :
    ∃ tuples, s.selectTuples q = .ok tuples ∧
      match answer with
      | some row => ∃ t ∈ tuples, (t.resolve base.primaryKey).equal id = true ∧ s.materialize q [t] = .ok [row]
      | none => ∀ t ∈ tuples, (t.resolve base.primaryKey).equal id = false := by
  rw [find_eq hbase, first] at h
  obtain ⟨rows, hrows, h⟩ := Outcome.bind_eq_ok.mp h
  obtain ⟨found, hfound, hrows⟩ := Outcome.bind_eq_ok.mp hrows
  obtain ⟨tuples, sorted, htuples, hsorted, rfl⟩ := selectTuples_first hall hid hfound
  obtain rfl := Except.ok.inj h
  refine ⟨tuples, htuples, ?_⟩
  cases sorted with
  | nil =>
      obtain rfl := Except.ok.inj hrows
      intro t ht
      have hnone := List.filter_eq_nil_iff.mp hsorted.nil_eq.symm t ht
      simpa using hnone
  | cons t rest =>
      obtain ⟨ht, hequal⟩ := List.mem_filter.mp (hsorted.subset List.mem_cons_self)
      obtain ⟨row, rfl⟩ : ∃ row, rows = [row] :=
        List.length_eq_one_iff.mp (Outcome.mapM_eq_ok.mp hrows).length_eq.symm
      exact ⟨t, ht, hequal, hrows⟩

theorem exists_find {id : Json} (hall : q.pagination = none) (hbase : s.table q.table = .ok base)
    (hid : id.isNull = false) {rows : List Row} (h : s.get q = .ok rows) : ∃ answer, s.find q id = .ok answer := by
  obtain ⟨tuples, htuples, hrows⟩ := Outcome.bind_eq_ok.mp h
  obtain ⟨found, hfound⟩ := exists_selectTuples_first base.primaryKey hid htuples
  obtain ⟨tuples', sorted, htuples', hsorted, hfirst⟩ := selectTuples_first hall hid hfound
  obtain rfl := Except.ok.inj (htuples.symm.trans htuples')
  have hsubset : found ⊆ tuples := by
    rw [hfirst]
    exact fun t ht => (List.mem_filter.mp (hsorted.subset (List.mem_of_mem_take ht))).1
  obtain ⟨shown, hshown⟩ := Outcome.exists_mapM_of_subset hrows hsubset
  refine ⟨shown.head?, ?_⟩
  rw [find_eq hbase, first]
  exact Outcome.bind_eq_ok.mpr ⟨shown, Outcome.bind_eq_ok.mpr ⟨found, hfound, hshown⟩, rfl⟩

/-- A lookup by key within a query looks at the plain name of the key. It gives a selected tuple that has an equal
value there, or nothing if no tuple has one, and it answers wherever the query itself does. The value is the key of
the base row as long as no joined table has a column of that name. -/
theorem find_by_key_column (s : Store) {q : Query} (hall : q.pagination = none) {base : Table}
    (hbase : s.table q.table = .ok base) {id : Json} (hid : id.isNull = false) :
    (∀ rows, s.get q = .ok rows → ∃ answer, s.find q id = .ok answer) ∧
    ∀ answer, s.find q id = .ok answer → ∃ traced, s.trace q = .ok traced ∧
      (match answer with
      | some row => ∃ e ∈ traced, (e.2.resolve base.primaryKey).equal id = true ∧ s.materialize q [e.2] = .ok [row]
      | none => ∀ e ∈ traced, (e.2.resolve base.primaryKey).equal id = false) ∧
      (s.Unshadowed q base.primaryKey → ∀ e ∈ traced, ∃ row, base.rows[e.1]? = some row ∧
        e.2.resolve base.primaryKey = row.cell base.primaryKey) := by
  refine ⟨fun rows hrows => exists_find hall hbase hid hrows, fun answer h => ?_⟩
  obtain ⟨tuples, htuples, hanswer⟩ := find_eq_ok hall hbase hid h
  obtain ⟨traced, htraced, rfl⟩ := exists_trace htuples
  refine ⟨traced, htraced, ?_, fun hown e he => hown.resolve hbase htraced he⟩
  cases answer with
  | none => exact fun e he => hanswer e.2 (List.mem_map_of_mem he)
  | some row =>
      obtain ⟨t, ht, hequal, hrow⟩ := hanswer
      obtain ⟨e, he, rfl⟩ := List.mem_map.mp ht
      exact ⟨e, he, hequal, hrow⟩

/-- Two people and their visits, which are numbered under another name than the people are. -/
def clinic : Store where
  tables := .ofList [
    ("people", { primaryKey := "id", rows := [
      .ofList [("id", .ofInt64 1), ("name", .string "ann")],
      .ofList [("id", .ofInt64 2), ("name", .string "bob")]] }),
    ("visits", { primaryKey := "number", rows := [
      .ofList [("number", .ofInt64 1), ("person", .ofInt64 2)],
      .ofList [("number", .ofInt64 2), ("person", .ofInt64 1)]] })]

def visiting : Query where
  table := "people"
  joins := [⟨.inner, "visits", ⟨"visits.person", "=", "people.id"⟩⟩]

theorem find_by_key_column_visiting :
    clinic.Unshadowed visiting "id" ∧ ∃ base row traced, clinic.table "people" = .ok base ∧
      clinic.find visiting (.string "2") = .ok (some row) ∧ clinic.trace visiting = .ok traced ∧
      ∃ e ∈ traced, ∃ parent, base.rows[e.1]? = some parent ∧ (parent.cell "id").equal (.string "2") = true := by
  have hown : clinic.Unshadowed visiting "id" := by
    refine ⟨by decide, List.forall_mem_singleton.mpr fun t ht => ?_⟩
    have hcolumns : (clinic.table "visits").toOption.any (fun t => "id" ∉ t.columnNames) = true := by decide
    obtain ⟨t', ht', hcolumns⟩ := Outcome.toOption_any.mp hcolumns
    obtain rfl := Except.ok.inj (ht.symm.trans ht')
    exact of_decide_eq_true hcolumns
  have hkey : (clinic.table "people").toOption.any (fun t => t.primaryKey = "id") = true := by decide
  have hfound : (clinic.find visiting (.string "2")).toOption.any Option.isSome = true := by decide
  obtain ⟨base, hbase, hkey⟩ := Outcome.toOption_any.mp hkey
  obtain ⟨answer, hfind, hfound⟩ := Outcome.toOption_any.mp hfound
  obtain ⟨row, rfl⟩ := Option.isSome_iff_exists.mp hfound
  obtain ⟨traced, htraced, ⟨e, he, hequal, -⟩, hbehind⟩ :=
    (find_by_key_column clinic (q := visiting) rfl hbase rfl).2 (some row) hfind
  rw [of_decide_eq_true hkey] at hequal hbehind
  obtain ⟨parent, hparent, hresolve⟩ := hbehind hown e he
  exact ⟨hown, base, row, traced, hbase, hfind, htraced, e, he, parent, hparent, hresolve ▸ hequal⟩

/-- With a joined table that has a column of the key's name, a lookup can give a row of another key. -/
theorem find_overlooks_base_key :
    ¬∀ (s : Store) (q : Query) (base : Table) (id : Json) (row : Row) (traced : List Traced), q.JoinsApart →
      q.pagination = none → s.table q.table = .ok base → base.Keyed → id.isNull = false → s.trace q = .ok traced →
      s.find q id = .ok (some row) → ∃ e ∈ traced, ∃ parent, base.rows[e.1]? = some parent ∧
        (parent.cell base.primaryKey).equal id = true := by
  intro hfinds
  have hfound : (shop.find .purchases (.ofInt64 2)).toOption.any Option.isSome = true := by decide
  have hkeyed : (shop.table "people").toOption.any (fun t => decide t.Keyed) = true := by decide
  have hplaces : (shop.trace .purchases).toOption.any (fun traced => decide (places traced = [0, 0])) = true := by
    decide
  have hfirst : (shop.table "people").toOption.any (fun t => (t.rows[0]?).all fun row =>
      !(row.cell t.primaryKey).equal (.ofInt64 2)) = true := by decide
  obtain ⟨answer, hfind, hfound⟩ := Outcome.toOption_any.mp hfound
  obtain ⟨row, rfl⟩ := Option.isSome_iff_exists.mp hfound
  obtain ⟨base, hbase, hkeyed⟩ := Outcome.toOption_any.mp hkeyed
  obtain ⟨traced, htraced, hplaces⟩ := Outcome.toOption_any.mp hplaces
  obtain ⟨base', hbase', hfirst⟩ := Outcome.toOption_any.mp hfirst
  obtain rfl := Except.ok.inj (hbase.symm.trans hbase')
  obtain ⟨e, he, parent, hparent, hequal⟩ := hfinds shop .purchases base (.ofInt64 2) row traced
    ⟨by decide, by decide⟩ rfl hbase (of_decide_eq_true hkeyed) rfl htraced hfind
  have hzero : e.1 = 0 := by
    have hmem : e.1 ∈ places traced := List.mem_map_of_mem he
    rw [of_decide_eq_true hplaces] at hmem
    simpa using hmem
  rw [← hzero, hparent] at hfirst
  simp [hequal] at hfirst

end Store

end RowQuery
