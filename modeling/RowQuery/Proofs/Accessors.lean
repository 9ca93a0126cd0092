import RowQuery.Proofs.AddedColumns
import RowQuery.Proofs.Paging

namespace RowQuery

namespace Dict

theorem lookup_map {α β : Type} (key : α → String) (value : α → β) (l : List α) (name : String) :
    (l.map fun a => (key a, value a)).lookup name = (l.find? fun a => key a = name).map value := by
  induction l with
  | nil => rfl
  | cons a rest ih =>
      rw [List.map_cons, List.lookup_cons, List.find?_cons, ih]
      by_cases h : name = key a
      · simp [h]
      · simp [beq_false_of_ne h, Ne.symm h]

/-- Of the entries with one name the last one counts. -/
theorem get?_ofList_map {α β : Type} (key : α → String) (value : α → β) (l : List α) (name : String) :
    (ofList (l.map fun a => (key a, value a))).get? name = ((l.filter fun a => key a = name).getLast?).map value := by
  rw [ofList, get?_addAll, get?_empty, Option.or_none, ← List.map_reverse, lookup_map, ← List.head?_filter,
    List.filter_reverse, List.head?_reverse]

end Dict

namespace Tuple

/-- A column that is asked for by its own name, and not with others by a star. -/
structure Single (column : String) : Prop where
  notAll : column ≠ "*"
  notStarred : starredTable? column = none

instance (column : String) : Decidable (Single column) :=
  decidable_of_iff (column ≠ "*" ∧ starredTable? column = none) ⟨fun h => ⟨h.1, h.2⟩, fun h => ⟨h.1, h.2⟩⟩

theorem project_single {column : String} (h : Single column) (t : Tuple) (q : Query) :
    t.project { q with columns := [column] } = Dict.empty.insert (lastSegment column) (t.resolve column) := by
  have hselects : ¬({ q with columns := [column] } : Query).selectsAll = true := by
    simpa [Query.selectsAll] using h.notAll.symm
  rw [project, if_neg hselects]
  show t.addColumn .empty column = _
  rw [addColumn, h.notStarred]

end Tuple

namespace Store

open LoadNode (names)

variable {s : Store} {q : Query} {tuples : List Tuple} {rows : List Row}

/-- The place of the first row that a pagination leaves. -/
def start (p : Option Pagination) : Nat := ((p.bind Pagination.offset).map UInt64.toNat).getD 0

theorem take_paginated {α : Type} {p : Option Pagination} (h : p.bind Pagination.limit ≠ some 0) (l : List α) :
    (paginated p l).take 1 = (l.drop (start p)).take 1 := by
  rcases p with _ | ⟨_ | limit, offset⟩
  · rfl
  · have hall : paginated (some ⟨none, offset⟩) l = l.drop (min (start (some ⟨none, offset⟩)) l.length) := by
      refine List.take_of_length_le ?_
      rw [List.length_drop]
    rw [hall, ← List.drop_eq_drop_min]
  · have hpos : 1 ≤ limit.toNat := by
      refine Nat.one_le_iff_ne_zero.mpr fun hzero => h (congrArg some ?_)
      exact UInt64.toNat_inj.mp hzero
    have hslice : paginated (some ⟨some limit, offset⟩) l = Pagination.slice ⟨some limit, offset⟩ l := rfl
    rw [hslice, Pagination.slice_limit, List.take_take, Nat.min_eq_left hpos]
    rfl

theorem paginated_limit_one {α : Type} (q : Query) (l : List α) :
    paginated (q.limit 1).pagination l = (l.drop (start q.pagination)).take 1 :=
  Pagination.slice_limit 1 (q.pagination.bind Pagination.offset) l

/-- A limit of one row leaves the first of the tuples that are selected without it. -/
theorem selectTuples_limit_one (hlimit : q.pagination.bind Pagination.limit ≠ some 0)
    (h : s.selectTuples q = .ok tuples) : s.selectTuples (q.limit 1) = .ok (tuples.take 1) := by
  obtain ⟨joined, hjoined, htests, rfl⟩ := selectTuples_eq_ok.mp h
  refine selectTuples_eq_ok.mpr ⟨joined, hjoined, htests, ?_⟩
  rw [take_paginated hlimit, paginated_limit_one]
  rfl

theorem selectTuples_start (hall : q.pagination = none) (h : s.selectTuples q = .ok tuples) (p : Option Pagination) :
    s.selectTuples (({ q with pagination := p } : Query).limit 1) = .ok ((tuples.drop (start p)).take 1) := by
  obtain ⟨joined, hjoined, htests, rfl⟩ := selectTuples_eq_ok.mp h
  refine selectTuples_eq_ok.mpr ⟨joined, hjoined, htests, ?_⟩
  rw [hall, paginated_limit_one]
  rfl

/-- With one column selected every row of an answer holds the value that its tuple has there. -/
theorem get_single {column : String} (hcolumn : Tuple.Single column)
    (hloads : Tuple.lastSegment column ∉ q.loads.map EagerLoad.column) (htuples : s.selectTuples q = .ok tuples)
    (hrows : s.materialize q tuples = .ok rows) :
    ∃ shown, s.get (q.select [column]) = .ok shown ∧ shown.length = rows.length ∧
      shown.map (·.get? (Tuple.lastSegment column)) = tuples.map fun t => some (t.resolve column) := by
  have hselect : q.select [column] = { q with columns := [column] } := if_neg (List.cons_ne_nil _ _)
  obtain ⟨added, hadded, -⟩ := materialize_eq_ok.mp hrows
  obtain ⟨shown, hshown⟩ : ∃ shown, s.materialize { q with columns := [column] } tuples = .ok shown :=
    ⟨_, materialize_eq_ok.mpr ⟨added, hadded, rfl⟩⟩
  have hloaded := Outcome.mapM_eq_ok.mp hshown
  refine ⟨shown, ?_, ?_, ?_⟩
  · rw [hselect]
    exact Outcome.bind_eq_ok.mpr ⟨tuples, htuples, hshown⟩
  · exact hloaded.length_eq.symm.trans (Outcome.mapM_eq_ok.mp hrows).length_eq
  · rw [← List.forall₂_eq_eq_eq, List.forall₂_map_left_iff, List.forall₂_map_right_iff]
    refine hloaded.flip.imp fun row t hrow => ?_
    rw [get?_of_loadNodes hrow (mt LoadNode.mem_names_ofLoads.mp hloads), Tuple.project_single hcolumn,
      Dict.get?_insert_self]

theorem get?_shown {shown : List Row} {name : String} {value : Tuple → Json}
    (h : shown.map (·.get? name) = tuples.map fun t => some (value t)) (i : Nat) :
    shown[i]?.bind (·.get? name) = tuples[i]?.map value := by
  have hi := congrArg (·[i]?) h
  simp only [List.getElem?_map] at hi
  cases hshown : shown[i]? <;> cases htuples : tuples[i]? <;> simp_all

theorem first_eq_head (hlimit : q.pagination.bind Pagination.limit ≠ some 0) (h : s.get q = .ok rows) :
    s.first q = .ok rows.head? := by
  obtain ⟨tuples, htuples, hrows⟩ := Outcome.bind_eq_ok.mp h
  have hone : s.materialize (q.limit 1) (tuples.take 1) = .ok (rows.take 1) :=
    Outcome.mapM_eq_ok.mpr (List.forall₂_take 1 (Outcome.mapM_eq_ok.mp hrows))
  rw [first, get, selectTuples_limit_one hlimit htuples]
  show (s.materialize (q.limit 1) (tuples.take 1) >>= _) = _
  rw [hone]
  exact congrArg Except.ok (List.head?_take ..)

theorem first_start (hall : q.pagination = none) (h : s.get q = .ok rows) (p : Option Pagination) :
    s.first { q with pagination := p } = .ok rows[start p]? := by
  have hone := get_paginated hall h { limit := some 1, offset := p.bind Pagination.offset }
  rw [Pagination.slice_limit] at hone
  rw [first]
  show (s.get { q with pagination := some { limit := some 1, offset := p.bind Pagination.offset } } >>= _) = _
  rw [hone]
  refine congrArg Except.ok ((List.head?_take ..).trans ?_)
  exact List.head?_drop

theorem value_eq_head (hlimit : q.pagination.bind Pagination.limit ≠ some 0) (h : s.selectTuples q = .ok tuples)
    (column : String) : s.value q column = .ok (tuples[0]?.map (·.resolve column)) := by
  rw [value, selectTuples_limit_one hlimit h]
  refine congrArg (fun t : Option Tuple => Except.ok (t.map (·.resolve column))) ((List.head?_take ..).trans ?_)
  exact List.head?_eq_getElem?

theorem value_start (hall : q.pagination = none) (h : s.selectTuples q = .ok tuples) (p : Option Pagination)
    (column : String) : s.value { q with pagination := p } column = .ok (tuples[start p]?.map (·.resolve column)) := by
  rw [value, selectTuples_start hall h]
  refine congrArg (fun t : Option Tuple => Except.ok (t.map (·.resolve column))) ((List.head?_take ..).trans ?_)
  exact List.head?_drop

theorem get?_pluck (h : s.selectTuples q = .ok tuples) (valueColumn keyColumn : String) :
    ∃ plucked, s.pluck q valueColumn keyColumn = .ok plucked ∧ ∀ name, plucked.get? name =
      ((tuples.filter fun t => keyText (t.resolve keyColumn) = name).getLast?).map (·.resolve valueColumn) := by
  refine ⟨_, Outcome.bind_eq_ok.mpr ⟨tuples, h, rfl⟩, fun name => ?_⟩
  exact Dict.get?_ofList_map (fun t : Tuple => keyText (t.resolve keyColumn)) (·.resolve valueColumn) tuples name

/-- What is read of a query in part is what the whole answer holds. The first row is the first of all rows, or the one
at the offset that is set; the value of a column is what that row shows of it; the count is the number of rows; and a
column by the text of another has, for each text, the value of the last tuple with it. -/
theorem accessors_agree_with_get (s : Store) {q : Query} {rows : List Row} (h : s.get q = .ok rows) :
    (q.pagination.bind Pagination.limit ≠ some 0 → s.first q = .ok rows.head?) ∧
    (∀ column, Tuple.Single column → Tuple.lastSegment column ∉ q.loads.map EagerLoad.column →
      ∃ shown, s.get (q.select [column]) = .ok shown ∧ shown.length = rows.length ∧
        (∀ row ∈ shown, row.contains (Tuple.lastSegment column) = true) ∧
        (q.pagination.bind Pagination.limit ≠ some 0 →
          s.value q column = .ok (shown.head?.bind (·.get? (Tuple.lastSegment column)))) ∧
        (q.pagination = none → ∀ p, s.value { q with pagination := p } column =
          .ok (shown[start p]?.bind (·.get? (Tuple.lastSegment column))))) ∧
    (q.pagination = none → s.count q = .ok rows.length ∧
      ∀ p, s.first { q with pagination := p } = .ok rows[start p]?) ∧
    ∃ tuples, s.selectTuples q = .ok tuples ∧ s.materialize q tuples = .ok rows ∧
      ∀ valueColumn keyColumn, ∃ plucked, s.pluck q valueColumn keyColumn = .ok plucked ∧ ∀ name, plucked.get? name =
        ((tuples.filter fun t => keyText (t.resolve keyColumn) = name).getLast?).map (·.resolve valueColumn) := by
  obtain ⟨tuples, htuples, hrows⟩ := Outcome.bind_eq_ok.mp h
  refine ⟨fun hlimit => first_eq_head hlimit h, fun column hcolumn hloads => ?_, fun hall => ?_, tuples, htuples, hrows,
    get?_pluck htuples⟩
  · obtain ⟨shown, hshown, hlength, hvalues⟩ := get_single hcolumn hloads htuples hrows
    refine ⟨shown, hshown, hlength, fun row hrow => ?_, fun hlimit => ?_, fun hall p => ?_⟩
    · have hvalue := List.mem_map_of_mem (f := (·.get? (Tuple.lastSegment column))) hrow
      rw [hvalues] at hvalue
      obtain ⟨t, -, ht⟩ := List.mem_map.mp hvalue
      rw [Dict.contains, ← ht]
      rfl
    · rw [List.head?_eq_getElem?, get?_shown hvalues, value_eq_head hlimit htuples]
    · rw [get?_shown hvalues, value_start hall htuples]
  · exact ⟨count_of_get hall h, first_start hall h⟩

theorem accessors_agree_with_get_library :
    ∃ rows shown plucked, library.get reading = .ok rows ∧ rows.length = 2 ∧
      library.first reading = .ok rows.head? ∧ library.count reading = .ok 2 ∧
      library.first { reading with pagination := some { offset := some 1 } } = .ok rows[1]? ∧
      library.get (reading.select ["people.name"]) = .ok shown ∧
      library.value reading "people.name" = .ok (shown.head?.bind (·.get? "name")) ∧
      library.value { reading with pagination := some { offset := some 1 } } "people.name" =
        .ok (shown[1]?.bind (·.get? "name")) ∧
      library.pluck reading "name" "id" = .ok plucked ∧ plucked.contains "1" = true := by
  have hname : Tuple.Single "people.name" ∧ Tuple.lastSegment "people.name" = "name" := by decide
  have hloads : "name" ∉ reading.loads.map EagerLoad.column := by decide
  have hplucked : (library.pluck reading "name" "id").toOption.any (·.contains "1") = true := by decide
  obtain ⟨rows, hget, hlength⟩ := exists_get_reading
  obtain ⟨hfirst, hvalue, hall, tuples, -, -, hpluck⟩ := accessors_agree_with_get library hget
  obtain ⟨shown, hshown, -, -, hhead, hat⟩ := hvalue "people.name" hname.1 (by rwa [hname.2])
  obtain ⟨hcount, hstart⟩ := hall rfl
  obtain ⟨plucked, hplucks, -⟩ := hpluck "name" "id"
  rw [hname.2] at hhead hat
  rw [hplucks] at hplucked
  refine ⟨rows, shown, plucked, hget, hlength, hfirst (by decide), hlength ▸ hcount, ?_, hshown, hhead (by decide), ?_,
    hplucks, hplucked⟩
  · exact hstart (some { offset := some 1 })
  · exact hat rfl (some { offset := some 1 })

end Store

end RowQuery
