import RowQuery.Proofs.Columns
import RowQuery.Proofs.Selection
import RowQuery.Store.Writing

namespace RowQuery

theorem Json.isNull_iff {a : Json} : a.isNull = true ↔ a = .null := by cases a <;> simp [isNull]

namespace Row

/-- The value in a column; a missing column is null. -/
def cell (row : Row) (column : String) : Json := (row.get? column).getD .null

/-- What a list of columns shows of a row; no columns at all and `*` show all of it. -/
def only (row : Row) (columns : List String) : Row :=
  if columns = [] ∨ "*" ∈ columns then row else .ofList (columns.map fun c => (c, row.cell c))

end Row

namespace Operator

theorem evaluate_equal (a : Json) {b : Json} (hb : b.isNull = false) : evaluate "=" a b = .ok (a.equal b) := by
  have hop : ofText? (normalized "=") = some (.comparison .eq) := rfl
  rw [evaluate_comparison hop hb]
  show Except.ok ((a.compare? b).any Ordering.isEq) = .ok (a.compare? b == some .eq)
  cases a.compare? b with
  | none => rfl
  | some o => cases o <;> rfl

theorem evaluate_isNull (a : Json) : evaluate "=" a .null = .ok a.isNull := by
  have hop : ofText? (normalized "=") = some (.comparison .eq) := rfl
  rw [evaluate, hop]
  cases a <;> rfl

end Operator

namespace Tuple

variable {table column : String} {row : Row}

theorem meets_equal (t : Tuple) (field : String) {value : Json} (h : value.isNull = false) :
    t.meets (.compare field "=" value) = .ok ((t.resolve field).equal value) :=
  Operator.evaluate_equal (t.resolve field) h

theorem meetsAll_single {t : Tuple} {c : Condition} {b : Bool} (h : t.meets c = .ok b) :
    t.meetsAll [.single c] = .ok b := by
  cases b <;> simp [meetsAll, meetsClause, Clause.single, h, pure, Except.pure, bind, Except.bind]

theorem meetsAll_equal (t : Tuple) (field : String) {value : Json} (h : value.isNull = false) :
    t.meetsAll [.single (.compare field "=" value)] = .ok ((t.resolve field).equal value) :=
  meetsAll_single (t.meets_equal field h)

theorem plain_ofRow (table : String) (row : Row) : (ofRow table row).plain = row := Dict.merge_empty row

theorem resolve_ofRow (h : '.' ∉ column.toList) (table : String) (row : Row) :
    (ofRow table row).resolve column = row.cell column := by
  rw [resolve, plain_ofRow, if_neg (by simpa using h)]
  rfl

theorem tableColumns_ofRow (table : String) (row : Row) : (ofRow table row).tableColumns table = row :=
  (carries_ofRow table row).tableColumns

theorem addColumn_of_plain (t : Tuple) (row : Row) (h : '.' ∉ column.toList) :
    t.addColumn row column = row.insert column (t.resolve column) := by
  have hstar : starredTable? column = none := by
    rw [starredTable?, Option.map_eq_none_iff, Option.eq_none_iff_forall_not_mem]
    intro front hfront
    rw [Option.mem_def, List.isSuffixOf?_eq_some_iff_append_eq] at hfront
    exact h (hfront ▸ by simp)
  have hlast : lastSegment column = column := by
    simp [lastSegment, Text.splitText, Text.splitOn_of_not_mem h]
  rw [addColumn, hstar]
  show row.insert (lastSegment column) _ = _
  rw [hlast]

theorem project_ofRow {q : Query} (hne : q.columns ≠ []) (h : ∀ c ∈ q.columns, '.' ∉ c.toList) (table : String)
    (row : Row) : (ofRow table row).project q = row.only q.columns := by
  unfold project Row.only
  by_cases hall : "*" ∈ q.columns
  · have hselects : q.selectsAll = true := List.contains_iff_mem.mpr hall
    rw [if_pos hselects, if_pos (Or.inr hall), plain_ofRow]
  · have hselects : ¬q.selectsAll = true := mt List.contains_iff_mem.mp hall
    rw [if_neg hselects, if_neg (not_or.mpr ⟨hne, hall⟩)]
    have hfold : ∀ (columns : List String) (start : Row), (∀ c ∈ columns, '.' ∉ c.toList) →
        columns.foldl (ofRow table row).addColumn start = start.addAll (columns.map fun c => (c, row.cell c)) := by
      intro columns
      induction columns with
      | nil => exact fun _ _ => rfl
      | cons c rest ih =>
          intro start hrest
          obtain ⟨hc, hrest⟩ := List.forall_mem_cons.mp hrest
          rw [List.foldl_cons, addColumn_of_plain _ _ hc, resolve_ofRow hc, ih _ hrest]
          rfl
    exact hfold q.columns .empty h

end Tuple

namespace Store

variable {s : Store} {q : Query} {t : Table}

theorem selectTuples_of_plain (hjoins : q.joins = []) (ht : s.table q.table = .ok t) {tuples : List Tuple} :
    s.selectTuples q = .ok tuples ↔
      (∀ row ∈ t.rows, ∃ b, (Tuple.ofRow q.table row).meetsAll q.clauses = .ok b) ∧
      tuples = paginated q.pagination (sortedBy (Tuple.order q.orders)
        ((t.rows.filter fun row => passes (·.meetsAll q.clauses) (Tuple.ofRow q.table row)).map
          (Tuple.ofRow q.table))) := by
  have hjoined : s.joinedTuples q = .ok (t.rows.map (Tuple.ofRow q.table)) := by
    rw [joinedTuples, ht, hjoins]
    rfl
  rw [selectTuples_eq_ok]
  constructor
  · rintro ⟨joined, h, htests, rfl⟩
    obtain rfl := Except.ok.inj (hjoined.symm.trans h)
    exact ⟨fun row hrow => htests _ (List.mem_map_of_mem hrow), by rw [List.filter_map]; rfl⟩
  · rintro ⟨htests, rfl⟩
    refine ⟨_, hjoined, fun t ht => ?_, by rw [List.filter_map]; rfl⟩
    obtain ⟨row, hrow, rfl⟩ := List.mem_map.mp ht
    exact htests row hrow

theorem sortedBy_nil (tuples : List Tuple) : sortedBy (Tuple.order []) tuples = tuples := by
  induction tuples with
  | nil => rfl
  | cons u rest ih =>
      rw [sortedBy, ih]
      cases rest <;> rfl

theorem selectTuples_resolved {column : String} {value : Json} (hjoins : q.joins = [])
    (hclauses : q.clauses = [.single (.compare column "=" value)]) (horders : q.orders = [])
    (ht : s.table q.table = .ok t) (hvalue : value.isNull = false) :
    s.selectTuples q = .ok (paginated q.pagination
      ((t.rows.filter fun row => ((Tuple.ofRow q.table row).resolve column).equal value).map
        (Tuple.ofRow q.table))) := by
  have hmeets : ∀ row, (Tuple.ofRow q.table row).meetsAll q.clauses =
      .ok (((Tuple.ofRow q.table row).resolve column).equal value) := by
    intro row
    rw [hclauses, Tuple.meetsAll_equal _ _ hvalue]
  have hpasses : (fun row => passes (·.meetsAll q.clauses) (Tuple.ofRow q.table row)) =
      fun row => ((Tuple.ofRow q.table row).resolve column).equal value := by
    funext row
    simp [passes, hmeets row]
  rw [selectTuples_of_plain hjoins ht, hpasses, horders, sortedBy_nil]
  exact ⟨fun row _ => ⟨_, hmeets row⟩, rfl⟩

/-- A query of one table by the value of a column selects the rows with an equal value. -/
theorem selectTuples_equal {column : String} {value : Json} (hjoins : q.joins = [])
    (hclauses : q.clauses = [.single (.compare column "=" value)]) (horders : q.orders = [])
    (ht : s.table q.table = .ok t) (hcolumn : '.' ∉ column.toList) (hvalue : value.isNull = false) :
    s.selectTuples q = .ok (paginated q.pagination
      ((t.rows.filter fun row => (row.cell column).equal value).map (Tuple.ofRow q.table))) := by
  rw [selectTuples_resolved hjoins hclauses horders ht hvalue]
  simp only [Tuple.resolve_ofRow hcolumn]

theorem find_eq (ht : s.table q.table = .ok t) (id : Json) : s.find q id = s.first (q.whereEqual t.primaryKey id) := by
  rw [find, metadata, ht]
  rfl

theorem matchedKeys_ofRow (ht : s.table q.table = .ok t) {rows : List Row}
    (h : s.selectTuples q = .ok (rows.map (Tuple.ofRow q.table))) :
    s.matchedKeys q = .ok (rows.map (·.cell t.primaryKey)) := by
  rw [matchedKeys, ht, h]
  refine congrArg Except.ok ((List.map_map ..).trans (List.map_congr_left fun row _ => ?_))
  exact (Tuple.carries_ofRow q.table row).resolve t.primaryKey

theorem get_of_noLoads (s : Store) (h : q.loads = []) :
    s.get q = (s.selectTuples q).map (List.map (·.project q)) := by
  unfold get materialize
  rw [h]
  cases s.selectTuples q with
  | error e => rfl
  | ok tuples =>
      show tuples.mapM (fun t => Except.ok (t.project q)) = _
      exact Outcome.mapM_eq_ok.mpr (List.forall₂_map_right_iff.mpr (List.forall₂_same.mpr fun _ _ => rfl))

end Store

end RowQuery
