import RowQuery.Proofs.Paging
import RowQuery.Proofs.SingleTable
import RowQuery.Proofs.StableSort

namespace RowQuery

namespace Json

variable {a b : Json}

theorem isNull_of_not_gt (h : a.sortOrder b ≠ .gt) (hb : b.isNull = true) : a.isNull = true := by
  by_contra ha
  rw [Bool.not_eq_true] at ha
  simp [sortOrder, ha, hb] at h

theorem isNull_of_not_lt (h : a.sortOrder b ≠ .lt) (ha : a.isNull = true) : b.isNull = true := by
  by_contra hb
  rw [Bool.not_eq_true] at hb
  simp [sortOrder, ha, hb] at h

end Json

namespace Tuple

variable {o : Order} {orders : List Order} {t u : Tuple} {l : List Tuple}

/-- The tuple has no value in a column, or a null. -/
def Lacks (t : Tuple) (column : String) : Prop :=
  ∀ value, (if column.toList.contains '.' then t.qualified else t.plain).get? column = some value → value = .null

/-- The column puts the first tuple before the second one. -/
def Precedes (o : Order) (t u : Tuple) : Prop :=
  match o.direction with
  | .ascending => (t.resolve o.column).sortOrder (u.resolve o.column) = .lt
  | .descending => (t.resolve o.column).sortOrder (u.resolve o.column) = .gt

def Ties (o : Order) (t u : Tuple) : Prop := (t.resolve o.column).sortOrder (u.resolve o.column) = .eq

instance (o : Order) (t u : Tuple) : Decidable (Ties o t u) := inferInstanceAs (Decidable (_ = _))

/-- The first column that does not tie two tuples puts the first one before the second, if there is such a column. -/
inductive InOrder : List Order → Tuple → Tuple → Prop
  | tied (t u : Tuple) : InOrder [] t u
  | first {o : Order} {t u : Tuple} (rest : List Order) (h : Precedes o t u) : InOrder (o :: rest) t u
  | later {o : Order} {rest : List Order} {t u : Tuple} (htie : Ties o t u) (h : InOrder rest t u) :
      InOrder (o :: rest) t u

/-- Tuples in lexicographic order of some columns, those that all columns tie as they stood before. -/
structure Ordered (orders : List Order) (before sorted : List Tuple) : Prop where
  perm : sorted.Perm before
  inOrder : sorted.Pairwise (InOrder orders)
  lacking : ∀ earlier o later, orders = earlier ++ o :: later → sorted.Pairwise fun t u =>
    (∀ e ∈ earlier, Ties e t u) →
      match o.direction with
      | .ascending => u.Lacks o.column → t.Lacks o.column
      | .descending => t.Lacks o.column → u.Lacks o.column
  stable : ∀ t ∈ before, (sorted.filter fun u => ∀ o ∈ orders, Ties o t u) =
    before.filter fun u => ∀ o ∈ orders, Ties o t u

theorem lacks_iff {column : String} : t.Lacks column ↔ (t.resolve column).isNull = true := by
  rw [Lacks, resolve, Json.isNull_iff]
  cases (if column.toList.contains '.' then t.qualified else t.plain).get? column <;> simp

theorem orderBy_eq_eq : orderBy o t u = .eq ↔ Ties o t u := by
  unfold orderBy Ties
  cases o.direction <;> simp [Direction.isAscending]

theorem orderBy_eq_lt : orderBy o t u = .lt ↔ Precedes o t u := by
  unfold orderBy Precedes
  cases o.direction <;> simp [Direction.isAscending]

theorem order_eq_eq : order orders t u = .eq ↔ ∀ o ∈ orders, Ties o t u := by
  induction orders with
  | nil => simp [order]
  | cons o rest ih => rw [order, Ordering.then_eq_eq, orderBy_eq_eq, ih, List.forall_mem_cons]

theorem order_ne_gt : order orders t u ≠ .gt ↔ InOrder orders t u := by
  induction orders with
  | nil => exact iff_of_true (by simp [order]) (.tied t u)
  | cons o rest ih =>
      rw [order]
      constructor
      · intro h
        cases horder : orderBy o t u with
        | lt => exact .first rest (orderBy_eq_lt.mp horder)
        | eq =>
            rw [horder] at h
            exact .later (orderBy_eq_eq.mp horder) (ih.mp h)
        | gt => simp [horder] at h
      · intro h
        cases h with
        | first _ h => simp [orderBy_eq_lt.mpr h]
        | later htie h =>
            rw [orderBy_eq_eq.mpr htie]
            exact ih.mpr h

theorem InOrder.of_ties {earlier : List Order} (h : InOrder (earlier ++ orders) t u)
    (hties : ∀ e ∈ earlier, Ties e t u) : InOrder orders t u := by
  induction earlier with
  | nil => exact h
  | cons e rest ih =>
      obtain ⟨he, hrest⟩ := List.forall_mem_cons.mp hties
      cases h with
      | first _ h =>
          rw [← orderBy_eq_lt, orderBy_eq_eq.mpr he] at h
          cases h
      | later _ h => exact ih h hrest

theorem preorderOn_order (h : ∀ o ∈ orders, PreorderOn Json.sortOrder (l.map (·.resolve o.column))) :
    PreorderOn (order orders) l := by
  induction orders with
  | nil => exact ⟨fun _ _ _ _ => rfl, fun _ _ _ _ _ _ _ _ => by simp [order]⟩
  | cons o rest ih =>
      obtain ⟨ho, hrest⟩ := List.forall_mem_cons.mp h
      have hcolumn : PreorderOn (orderBy o) l := by
        unfold orderBy
        cases o.direction with
        | ascending => exact ho.comap
        | descending => exact ho.comap.reverse
      exact hcolumn.thenBy (ih hrest)

theorem InOrder.lacks {rest : List Order} (h : InOrder (o :: rest) t u) :
    match o.direction with
    | .ascending => u.Lacks o.column → t.Lacks o.column
    | .descending => t.Lacks o.column → u.Lacks o.column := by
  have hcolumn : orderBy o t u ≠ .gt := by
    cases h with
    | first _ h => simp [orderBy_eq_lt.mpr h]
    | later htie _ => simp [orderBy_eq_eq.mpr htie]
  unfold orderBy at hcolumn
  simp only [lacks_iff]
  cases hdirection : o.direction with
  | ascending => exact Json.isNull_of_not_gt (by simpa [hdirection, Direction.isAscending] using hcolumn)
  | descending => exact Json.isNull_of_not_lt (by simpa [hdirection, Direction.isAscending] using hcolumn)

/-- If every column is a preorder on the values it has, the sort puts the tuples in lexicographic order. -/
theorem ordered_sortedBy (h : ∀ o ∈ orders, PreorderOn Json.sortOrder (l.map (·.resolve o.column))) :
    Ordered orders l (sortedBy (order orders) l) := by
  obtain ⟨hperm, hincreasing, hstable⟩ := (preorderOn_order h).stablySorted
  have hinOrder : (sortedBy (order orders) l).Pairwise (InOrder orders) := hincreasing.imp order_ne_gt.mp
  refine ⟨hperm, hinOrder, ?_, ?_⟩
  · rintro earlier o later rfl
    exact hinOrder.imp fun h hties => (h.of_ties hties).lacks
  · intro t ht
    simpa only [order_eq_eq] using hstable t ht

end Tuple

namespace Store

variable {s : Store} {q : Query} {before : List Tuple}

theorem selectTuples_unordered (hall : q.pagination = none) :
    s.selectTuples { q with orders := [] } = s.filteredTuples q := by
  have hfiltered : s.filteredTuples { q with orders := [] } = s.filteredTuples q := rfl
  rw [selectTuples, hfiltered]
  cases s.filteredTuples q with
  | error e => rfl
  | ok tuples =>
      show Except.ok (paginated q.pagination (sortedBy (Tuple.order []) tuples)) = _
      rw [hall, sortedBy_nil]
      rfl

theorem selectTuples_of_filtered (h : s.filteredTuples q = .ok before) :
    s.selectTuples q = .ok (paginated q.pagination (sortedBy (Tuple.order q.orders) before)) := by
  rw [selectTuples, h]
  rfl

/-- What a query with orders selects is what it selects without them, in lexicographic order and with ties as they
stood. A limit or a page then gives the part of this list that it names. -/
theorem selection_ordered (s : Store) (q : Query) (hall : q.pagination = none) :
    (∀ e, s.selectTuples { q with orders := [] } = .error e → s.selectTuples q = .error e) ∧
    ∀ before, s.selectTuples { q with orders := [] } = .ok before →
      (∀ o ∈ q.orders, PreorderOn Json.sortOrder (before.map (·.resolve o.column))) →
      ∃ sorted, s.selectTuples q = .ok sorted ∧ Tuple.Ordered q.orders before sorted ∧
        (∀ n, s.selectTuples (q.limit n) = .ok (sorted.take n.toNat)) ∧
        ∀ page perPage : UInt64, (page.toNat - 1) * perPage.toNat < 2 ^ 64 →
          s.selectTuples (q.paginate page perPage) =
            .ok ((sorted.drop ((page.toNat - 1) * perPage.toNat)).take perPage.toNat) := by
  rw [selectTuples_unordered hall]
  constructor
  · intro e h
    rw [selectTuples, h]
    rfl
  · intro before h hcolumns
    refine ⟨sortedBy (Tuple.order q.orders) before, ?_, Tuple.ordered_sortedBy hcolumns, fun n => ?_, ?_⟩
    · rw [selectTuples_of_filtered h, hall]
      rfl
    · have hfiltered : s.filteredTuples (q.limit n) = .ok before := h
      rw [selectTuples_of_filtered hfiltered, Query.limit, hall]
      exact congrArg Except.ok (paginated_limit n _)
    · intro page perPage hoffset
      have hfiltered : s.filteredTuples (q.paginate page perPage) = .ok before := h
      rw [selectTuples_of_filtered hfiltered]
      exact congrArg Except.ok (Pagination.slice_page hoffset _)

/-- Members of two teams, of whom one has no team, one has a null for it, and two pairs have the same points. -/
def roster : Store where
  tables := .ofList [("members", { primaryKey := "id", rows := [
    .ofList [("id", .ofInt64 1), ("points", .ofInt64 7), ("team", .string "red")],
    .ofList [("id", .ofInt64 2), ("points", .ofInt64 9)],
    .ofList [("id", .ofInt64 3), ("points", .string "9"), ("team", .string "red")],
    .ofList [("id", .ofInt64 4), ("points", .ofInt64 7), ("team", .string "blue")],
    .ofList [("id", .ofInt64 5), ("points", .ofInt64 9), ("team", .null)],
    .ofList [("id", .ofInt64 6), ("points", .ofInt64 7), ("team", .string "red")]] })]

def ranking : Query where
  table := "members"
  orders := [⟨"team", .descending⟩, ⟨"points", .descending⟩]

theorem selection_ordered_ranking :
    ∃ before sorted, roster.selectTuples { ranking with orders := [] } = .ok before ∧
      (∀ o ∈ ranking.orders, PreorderOn Json.sortOrder (before.map (·.resolve o.column))) ∧
      roster.selectTuples ranking = .ok sorted ∧ Tuple.Ordered ranking.orders before sorted ∧
      roster.selectTuples (ranking.limit 2) = .ok (sorted.take 2) ∧
      roster.selectTuples (ranking.paginate 2 2) = .ok ((sorted.drop 2).take 2) ∧
      sorted.map (·.resolve "id") = [3, 1, 6, 4, 2, 5].map Json.ofInt64 := by
  have hcolumns : (roster.selectTuples { ranking with orders := [] }).toOption.any (fun before =>
      ∀ o ∈ ranking.orders, PreorderOn Json.sortOrder (before.map (·.resolve o.column))) = true := by decide
  have hids : (roster.selectTuples ranking).toOption.map (List.map (·.resolve "id")) =
      some ([3, 1, 6, 4, 2, 5].map Json.ofInt64) := by decide
  obtain ⟨before, hbefore, hcolumns⟩ := Outcome.toOption_any.mp hcolumns
  obtain ⟨sorted, hsorted, hordered, hlimit, hpage⟩ :=
    (selection_ordered roster ranking rfl).2 before hbefore (by simpa using hcolumns)
  rw [hsorted] at hids
  exact ⟨before, sorted, hbefore, by simpa using hcolumns, hsorted, hordered, hlimit 2, hpage 2 2 (by decide),
    Option.some.inj hids⟩

end Store

end RowQuery
