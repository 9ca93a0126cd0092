import RowQuery.Proofs.DoubleOrder
import RowQuery.Proofs.Equality
import RowQuery.Proofs.OrderedSelection

namespace RowQuery

/-- On the items with a property an order is a total preorder: an item is equal to itself, the order turns around with
its arguments, and two steps of which none goes down come to the first of them that goes up. -/
structure TotalPreorder {α : Type} (order : α → α → Ordering) (p : α → Prop) : Prop where
  refl : ∀ a, p a → order a a = .eq
  swap : ∀ a b, p a → p b → order b a = (order a b).swap
  trans : ∀ a b c, p a → p b → p c → order a b ≠ .gt → order b c ≠ .gt → order a c = (order a b).then (order b c)

namespace TotalPreorder

variable {α β : Type} {order : α → α → Ordering} {p : α → Prop}

/-- An order that compares keys of the items is as good as that of the keys. -/
theorem of_key [Ord β] [Std.TransOrd β] (key : α → β)
    (h : ∀ a b, p a → p b → order a b = compare (key a) (key b)) : TotalPreorder order p where
  refl a ha := (h a a ha ha).trans Std.ReflCmp.compare_self
  swap a b ha hb := by
    rw [h a b ha hb, h b a hb ha]
    exact Std.OrientedCmp.eq_swap
  trans a b c ha hb hc hab hbc := by
    rw [h a b ha hb] at hab ⊢
    rw [h b c hb hc] at hbc ⊢
    rw [h a c ha hc]
    cases hkeys : compare (key a) (key b) with
    | lt => exact Std.TransCmp.lt_of_lt_of_isLE hkeys (Ordering.isLE_iff_ne_gt.mpr hbc)
    | eq => exact Std.TransCmp.congr_left hkeys
    | gt => exact absurd hkeys hab

theorem preorderOn (h : TotalPreorder order p) {l : List α} (hl : ∀ a ∈ l, p a) : PreorderOn order l where
  swap := fun a ha b hb => h.swap a b (hl a ha) (hl b hb)
  trans := by
    intro a ha b hb c hc hab hbc
    rw [h.trans a b c (hl a ha) (hl b hb) (hl c hc) hab hbc, ne_eq, Ordering.then_eq_gt]
    exact fun hgt => hgt.elim hab fun hgt => hbc hgt.2

end TotalPreorder

/-- What the values of a column can be, apart from nulls. -/
inductive ColumnKind
  | text
  | numeric
  | nested

/-- A value can stand in a column of a kind. -/
inductive ColumnKind.Holds : ColumnKind → Json → Prop
  | null (kind : ColumnKind) : Holds kind .null
  | string (s : String) : Holds .text (.string s)
  | number (n : Number) : Holds .numeric (.number n)
  | bool (b : Bool) : Holds .numeric (.bool b)
  | array (items : List Json) : Holds .nested (.array items)
  | object (members : List (String × Json)) : Holds .nested (.object members)

namespace Json

variable {a b : Json}

theorem number?_finite (h : ColumnKind.numeric.Holds a) (hnull : a.isNull = false) :
    ∃ x, a.number? = some (.finite x) := by
  cases h with
  | null => cases hnull
  | number n =>
      cases n with
      | integer i => exact i.toDouble_finite.imp fun _ => congrArg some
      | float x => exact ⟨x, rfl⟩
  | bool b => cases b <;> exact ⟨_, rfl⟩

theorem compare?_numeric {x y : FiniteDouble} (ha : ColumnKind.numeric.Holds a) (hb : ColumnKind.numeric.Holds b)
    (hx : a.number? = some (.finite x)) (hy : b.number? = some (.finite y)) :
    a.compare? b = some (compare x.units y.units) := by
  have hcompare : ∀ v w, some v = some (Double.finite x) → some w = some (Double.finite y) →
      v.compare? w = some (compare x.units y.units) := by
    rintro _ _ ⟨⟩ ⟨⟩
    exact congrArg some (x.compare_rank y)
  cases ha <;> cases hb
  case null.null | null.number | null.bool => cases hx
  case number.null | bool.null => cases hy
  all_goals exact hcompare _ _ hx hy

/-- Numbers, true and false are compared as the finite doubles that they stand for. -/
theorem numbers_compared (ha : ColumnKind.numeric.Holds a) (hb : ColumnKind.numeric.Holds b)
    (hna : a.isNull = false) (hnb : b.isNull = false) :
    ∃ x y : FiniteDouble, a.number? = some (.finite x) ∧ b.number? = some (.finite y) ∧
      a.compare? b = some (compare x.units y.units) := by
  obtain ⟨x, hx⟩ := number?_finite ha hna
  obtain ⟨y, hy⟩ := number?_finite hb hnb
  exact ⟨x, y, hx, hy, compare?_numeric ha hb hx hy⟩

theorem sortOrder_text (ha : ColumnKind.text.Holds a) (hb : ColumnKind.text.Holds b) :
    a.sortOrder b = compare a.text? b.text? := by
  cases ha <;> cases hb <;> rfl

theorem place?_of_number {x : FiniteDouble} (h : a.number? = some (.finite x)) : a.place? = some x.rank := by
  rw [place?, h]
  rfl

theorem sortOrder_numeric (ha : ColumnKind.numeric.Holds a) (hb : ColumnKind.numeric.Holds b) :
    a.sortOrder b = compare a.place? b.place? := by
  cases hna : a.isNull <;> cases hnb : b.isNull
  · obtain ⟨x, y, hx, hy, hcompare⟩ := numbers_compared ha hb hna hnb
    rw [place?_of_number hx, place?_of_number hy, sortOrder, hna, hnb, hcompare]
    exact (x.compare_rank y).symm
  · obtain ⟨x, hx⟩ := number?_finite ha hna
    rw [place?_of_number hx, isNull_iff.mp hnb, sortOrder, hna]
    rfl
  · obtain ⟨y, hy⟩ := number?_finite hb hnb
    rw [place?_of_number hy, isNull_iff.mp hna, sortOrder, hnb]
    rfl
  · rw [isNull_iff.mp hna, isNull_iff.mp hnb]
    rfl

theorem sortOrder_nested (ha : ColumnKind.nested.Holds a) (hb : ColumnKind.nested.Holds b) :
    a.sortOrder b = compare (!a.isNull) (!b.isNull) := by
  have htied : ∀ c : Bool, (if c then some Ordering.eq else none).getD .eq = .eq := by decide
  cases ha <;> cases hb <;> simp only [sortOrder, isNull, compare?]
  case array.array | array.object | object.array | object.object => exact htied _
  all_goals rfl

theorem totalPreorder_sortOrder (kind : ColumnKind) : TotalPreorder sortOrder kind.Holds := by
  cases kind with
  | text => exact .of_key text? fun _ _ => sortOrder_text
  | numeric => exact .of_key place? fun _ _ => sortOrder_numeric
  | nested => exact .of_key (fun a => !a.isNull) fun _ _ => sortOrder_nested

/-- Across the kinds the order is no preorder: between a text and a number it is one of numbers. -/
example : (string "10").sortOrder (.string "9") = .lt ∧ (string "9").sortOrder (.ofInt64 9) = .eq ∧
    (string "10").sortOrder (.ofInt64 9) = .gt := by decide

/-- On a column of one kind the order of a sort is a total preorder, in which numbers, true and false stand as the
finite doubles that they are. On all values the comparison turns around with its arguments, and a value that is not
null is equal to itself. -/
theorem sortOrder_orders_columns :
    (∀ kind : ColumnKind, TotalPreorder sortOrder kind.Holds) ∧
    (∀ a b, ColumnKind.numeric.Holds a → ColumnKind.numeric.Holds b → a.isNull = false → b.isNull = false →
      ∃ x y : FiniteDouble, a.number? = some (.finite x) ∧ b.number? = some (.finite y) ∧
        a.compare? b = some (compare x.units y.units)) ∧
    (∀ a b : Json, b.compare? a = (a.compare? b).map Ordering.swap) ∧
    ∀ a : Json, a.isNull = false → a.equal a = true :=
  ⟨totalPreorder_sortOrder, fun _ _ => numbers_compared, compare?_swap, fun _ => equal_self⟩

theorem sortOrder_orders_columns_scores :
    let half := number (.float ⟨false, 1022, 0⟩)
    let great := ofInt64 9007199254740993
    null.sortOrder half ≠ .gt ∧ half.sortOrder (bool true) ≠ .gt ∧
    null.sortOrder (bool true) = (null.sortOrder half).then (half.sortOrder (bool true)) ∧
    (∃ x y : FiniteDouble, (bool true).number? = some (.finite x) ∧ great.number? = some (.finite y) ∧
      (bool true).compare? great = some (compare x.units y.units)) ∧
    (string "a").sortOrder (string "b") = ((string "b").sortOrder (string "a")).swap ∧
    (object []).sortOrder (object []) = .eq ∧
    great.compare? (string " 1e3") = ((string " 1e3").compare? great).map Ordering.swap ∧
    (array [half]).isNull = false ∧ (array [half]).equal (array [half]) = true := by
  intro half great
  obtain ⟨hkinds, hnumbers, hswap, hself⟩ := sortOrder_orders_columns
  have hnull : null.sortOrder half ≠ .gt := by decide
  have hhalf : half.sortOrder (bool true) ≠ .gt := by decide
  refine ⟨hnull, hhalf, ?_, hnumbers _ _ (.bool true) (.number _) rfl rfl, ?_, ?_, hswap _ _, rfl, hself _ rfl⟩
  · exact (hkinds .numeric).trans _ _ _ (.null _) (.number _) (.bool true) hnull hhalf
  · exact (hkinds .text).swap _ _ (.string "b") (.string "a")
  · exact (hkinds .nested).refl _ (.object [])

end Json

variable {l : List Tuple}

/-- All values that some tuples have in a column are of one kind. -/
def Tuple.Homogeneous (column : String) (l : List Tuple) : Prop :=
  ∃ kind : ColumnKind, ∀ t ∈ l, kind.Holds (t.resolve column)

theorem Tuple.Homogeneous.preorderOn {column : String} (h : Homogeneous column l) :
    PreorderOn Json.sortOrder (l.map (·.resolve column)) := by
  obtain ⟨kind, hkind⟩ := h
  exact (Json.totalPreorder_sortOrder kind).preorderOn (List.forall_mem_map.mpr hkind)

/-- A query whose orders name columns of one kind each selects its tuples in lexicographic order, with ties as they
stood, and cuts the part that is asked for from that list. -/
theorem Store.selectTuples_homogeneous {s : Store} {q : Query} (h : s.filteredTuples q = .ok l)
    (hcolumns : ∀ o ∈ q.orders, Tuple.Homogeneous o.column l) :
    ∃ sorted, s.selectTuples q = .ok (paginated q.pagination sorted) ∧ Tuple.Ordered q.orders l sorted :=
  ⟨_, selectTuples_of_filtered h, Tuple.ordered_sortedBy fun o ho => (hcolumns o ho).preorderOn⟩

end RowQuery
