import RowQuery.Proofs.Equality
import RowQuery.Proofs.Exclusion
import RowQuery.Proofs.NullTests
import RowQuery.Proofs.SingleTable

namespace RowQuery

namespace Comparison

/-- The comparison that says the same of two values in the other order. -/
def mirrored : Comparison → Comparison
  | .gt => .lt
  | .ge => .le
  | .lt => .gt
  | .le => .ge
  | c => c

theorem holds_mirrored (c : Comparison) (o : Option Ordering) : c.mirrored.holds (o.map Ordering.swap) = c.holds o := by
  rcases o with _ | o
  · rfl
  · cases c <;> cases o <;> rfl

/-- The comparison that holds of two values with an order when another does not. -/
def negated : Comparison → Comparison
  | .eq => .ne
  | .ne => .eq
  | .gt => .le
  | .ge => .lt
  | .lt => .ge
  | .le => .gt

theorem holds_negated (c : Comparison) (o : Ordering) : c.negated.holds (some o) = !c.holds (some o) := by
  cases c <;> cases o <;> rfl

end Comparison

namespace Operator

/-- The operators, as they are looked up. -/
def words : List String := ["=", "!=", "<>", ">", ">=", "<", "<=", "like", "not like"]

theorem normalized_word : ∀ w ∈ words, normalized w = w := by decide

theorem ofText?_eq_none {s : String} : ofText? s = none ↔ s ∉ words := by
  simp only [ofText?, Comparison.ofText?, words, List.mem_cons, List.not_mem_nil]
  grind

/-- With a null on either side only the two tests for null can hold. -/
theorem apply_null {op : Operator} {a b : Json} (h : a.isNull = true ∨ b.isNull = true) : op.apply a b = true ↔
    b.isNull = true ∧ (op = .comparison .eq ∧ a.isNull = true ∨ op = .comparison .ne ∧ a.isNull = false) := by
  cases hb : b.isNull with
  | true =>
      rw [Json.isNull_iff.mp hb, apply_null_right]
      simp
  | false =>
      have ha : a.isNull = true := h.resolve_right (by simp [hb])
      simp [apply, ha, hb]

theorem evaluate_of_null {w : String} (hw : w ∈ words) {a b : Json} (h : a.isNull = true ∨ b.isNull = true) :
    evaluate w a b = .ok true ↔
      b.isNull = true ∧ (w = "=" ∧ a.isNull = true ∨ (w = "!=" ∨ w = "<>") ∧ a.isNull = false) := by
  rw [evaluate_eq_ok, normalized_word w hw, ← Comparison.ofText?_eq_some_eq, ← Comparison.ofText?_eq_some_ne,
    ← ofText?_eq_some_comparison, ← ofText?_eq_some_comparison]
  simp only [apply_null h]
  constructor
  · rintro ⟨op, hop, hb, ⟨rfl, ha⟩ | ⟨rfl, ha⟩⟩
    · exact ⟨hb, .inl ⟨hop, ha⟩⟩
    · exact ⟨hb, .inr ⟨hop, ha⟩⟩
  · rintro ⟨hb, ⟨hop, ha⟩ | ⟨hop, ha⟩⟩
    · exact ⟨_, hop, hb, .inl ⟨rfl, ha⟩⟩
    · exact ⟨_, hop, hb, .inr ⟨rfl, ha⟩⟩

theorem evaluate_error {operator : String} {a b : Json} :
    (∃ e, evaluate operator a b = .error e) ↔ normalized operator ∉ words := by
  rw [← ofText?_eq_none, evaluate]
  cases ofText? (normalized operator) <;> simp

end Operator

namespace Tuple

/-- The words for comparisons, with what they stand for. -/
def comparisonWords : List (String × Comparison) :=
  [("=", .eq), ("!=", .ne), ("<>", .ne), (">", .gt), (">=", .ge), ("<", .lt), ("<=", .le)]

/-- How the operators on the value of a column and a given value hang together. -/
structure ComparisonLaws (t : Tuple) (field : String) (v : Json) : Prop where
  supported : ∀ operator, (∃ e, t.meets (.compare field operator v) = .error e) ↔
    Operator.normalized operator ∉ Operator.words
  spelled : ∀ operator, Operator.normalized operator ∈ Operator.words →
    t.meets (.compare field operator v) = t.meets (.compare field (Operator.normalized operator) v)
  nulls : (t.resolve field).isNull = true ∨ v.isNull = true → ∀ w ∈ Operator.words,
    (t.meets (.compare field w v) = .ok true ↔ v.isNull = true ∧
      (w = "=" ∧ (t.resolve field).isNull = true ∨ (w = "!=" ∨ w = "<>") ∧ (t.resolve field).isNull = false))
  trichotomy : (t.resolve field).Comparable v →
    ∃! w, w ∈ ["<", "=", ">"] ∧ t.meets (.compare field w v) = .ok true
  negations : (t.resolve field).Comparable v →
    ∀ w w', (w, w') ∈ [("=", "!="), ("=", "<>"), (">", "<="), ("<", ">=")] →
      t.meets (.compare field w' v) = (t.meets (.compare field w v)).map not
  incomparable : (t.resolve field).isNull = false → v.isNull = false → ¬(t.resolve field).Comparable v →
    ∀ e ∈ comparisonWords, t.meets (.compare field e.1 v) = .ok false
  likes : (t.resolve field).isNull = false → v.isNull = false →
    t.meets (.compare field "not like" v) = (t.meets (.compare field "like" v)).map not

variable {t : Tuple} {field : String} {v : Json}

theorem ofText?_comparisonWords : ∀ e ∈ comparisonWords,
    Operator.ofText? (Operator.normalized e.1) = some (.comparison e.2) := by decide

theorem meets_comparison {w : String} {c : Comparison} (hw : (w, c) ∈ comparisonWords) (hv : v.isNull = false) :
    t.meets (.compare field w v) = .ok (c.holds ((t.resolve field).compare? v)) := by
  have hop : Operator.ofText? (Operator.normalized w) = some (.comparison c) := ofText?_comparisonWords (w, c) hw
  rw [meets, Operator.evaluate_comparison hop hv]

theorem meets_like (ha : (t.resolve field).isNull = false) (hv : v.isNull = false) :
    t.meets (.compare field "like" v) = .ok (Operator.isLike (t.resolve field) v) := by
  have hop : Operator.ofText? (Operator.normalized "like") = some .like := by decide
  simp [meets, Operator.evaluate, hop, Operator.apply, ha, hv]

theorem meets_notLike (ha : (t.resolve field).isNull = false) (hv : v.isNull = false) :
    t.meets (.compare field "not like" v) = .ok (!Operator.isLike (t.resolve field) v) := by
  have hop : Operator.ofText? (Operator.normalized "not like") = some .notLike := by decide
  simp [meets, Operator.evaluate, hop, Operator.apply, ha, hv]

theorem exactly_one_holds (h : (t.resolve field).Comparable v) :
    ∃! w, w ∈ ["<", "=", ">"] ∧ t.meets (.compare field w v) = .ok true := by
  have hv := h.isNull_right
  obtain ⟨o, ho⟩ := Option.isSome_iff_exists.mp h
  have hlt : t.meets (.compare field "<" v) = .ok o.isLT := by
    rw [meets_comparison (c := .lt) (by decide) hv, ho]
    rfl
  have heq : t.meets (.compare field "=" v) = .ok o.isEq := by
    rw [meets_comparison (c := .eq) (by decide) hv, ho]
    rfl
  have hgt : t.meets (.compare field ">" v) = .ok o.isGT := by
    rw [meets_comparison (c := .gt) (by decide) hv, ho]
    rfl
  cases o with
  | lt => exact ⟨"<", ⟨by decide, hlt⟩, by simp [heq, hgt]⟩
  | eq => exact ⟨"=", ⟨by decide, heq⟩, by simp [hlt, hgt]⟩
  | gt => exact ⟨">", ⟨by decide, hgt⟩, by simp [hlt, heq]⟩

theorem meets_negated {w w' : String} {c : Comparison} (hw : (w, c) ∈ comparisonWords)
    (hw' : (w', c.negated) ∈ comparisonWords) (h : (t.resolve field).Comparable v) :
    t.meets (.compare field w' v) = (t.meets (.compare field w v)).map not := by
  obtain ⟨o, ho⟩ := Option.isSome_iff_exists.mp h
  rw [meets_comparison hw h.isNull_right, meets_comparison hw' h.isNull_right, ho, c.holds_negated]
  rfl

theorem comparisonLaws (t : Tuple) (field : String) (v : Json) : t.ComparisonLaws field v where
  supported operator := by
    simp only [meets]
    exact Operator.evaluate_error
  spelled operator hop := by
    simp only [meets, Operator.evaluate, Operator.normalized_word _ hop]
  nulls h w hw := by
    rw [meets]
    exact Operator.evaluate_of_null hw h
  trichotomy := exactly_one_holds
  negations h w w' hw := by
    simp only [List.mem_cons, List.not_mem_nil, or_false, Prod.mk.injEq] at hw
    rcases hw with ⟨rfl, rfl⟩ | ⟨rfl, rfl⟩ | ⟨rfl, rfl⟩ | ⟨rfl, rfl⟩
    · exact meets_negated (c := .eq) (by decide) (by decide) h
    · exact meets_negated (c := .eq) (by decide) (by decide) h
    · exact meets_negated (c := .gt) (by decide) (by decide) h
    · exact meets_negated (c := .lt) (by decide) (by decide) h
  incomparable _ hv h e he := by
    have hnone : (t.resolve field).compare? v = none := by simpa [Json.Comparable] using h
    rw [meets_comparison (c := e.2) he hv, hnone]
    rfl
  likes ha hv := by
    rw [meets_like ha hv, meets_notLike ha hv]
    rfl

/-- An order with a null holds of nothing, so that it needs no case of its own where two orders are asked for. -/
theorem meets_order {w : String} {c : Comparison} (hw : (w, c) ∈ comparisonWords) (heq : c ≠ .eq) (hne : c ≠ .ne)
    (v : Json) : t.meets (.compare field w v) = .ok (c.holds ((t.resolve field).compare? v)) := by
  cases hv : v.isNull with
  | false => exact meets_comparison hw hv
  | true =>
      have hop : Operator.ofText? (Operator.normalized w) = some (.comparison c) := ofText?_comparisonWords (w, c) hw
      have hfalse : Operator.apply (.comparison c) (t.resolve field) v = false := by
        rw [Bool.eq_false_iff, ne_eq, Operator.apply_null (.inr hv)]
        simp [heq, hne]
      rw [meets, Operator.evaluate, hop]
      refine congrArg Except.ok (hfalse.trans ?_)
      rw [Json.isNull_iff.mp hv, Json.compare?_null_right]
      rfl

theorem meets_between {start stop : Json} : t.meets (.between field start stop) = .ok true ↔
    t.meets (.compare field ">=" start) = .ok true ∧ t.meets (.compare field "<=" stop) = .ok true := by
  rw [meets_order (c := .ge) (by decide) (by decide) (by decide),
    meets_order (c := .le) (by decide) (by decide) (by decide)]
  simp [meets]

theorem meets_isIn {values : List Json} : t.meets (.isIn field values) = .ok true ↔
    ∃ v ∈ values, v.isNull = false ∧ t.meets (.compare field "=" v) = .ok true := by
  have heach : ∀ v : Json, v.isNull = false ∧ t.meets (.compare field "=" v) = .ok true ↔
      (t.resolve field).equal v = true := by
    intro v
    constructor
    · rintro ⟨hv, h⟩
      rw [t.meets_equal field hv] at h
      exact Except.ok.inj h
    · intro h
      have hv := (Json.Comparable.of_equal h).isNull_right
      exact ⟨hv, by rw [t.meets_equal field hv, h]⟩
  simp only [heach]
  simp only [meets, Except.ok.injEq, Bool.and_eq_true, List.any_eq_true, Bool.not_eq_true']
  constructor
  · exact And.right
  · rintro ⟨v, hv, h⟩
    exact ⟨(Json.Comparable.of_equal h).isNull_left, v, hv, h⟩

theorem joins_mirrored (t : Tuple) (first second : String) {operator operator' : String} {c : Comparison}
    (hop : Operator.ofText? (Operator.normalized operator) = some (.comparison c))
    (hop' : Operator.ofText? (Operator.normalized operator') = some (.comparison c.mirrored)) :
    t.joins ⟨second, operator', first⟩ = t.joins ⟨first, operator, second⟩ := by
  simp only [joins, Bool.or_comm (t.resolve second).isNull]
  split
  · rfl
  · rename_i hnulls
    obtain ⟨ha, hb⟩ := Bool.or_eq_false_iff.mp (Bool.eq_false_iff.mpr hnulls)
    rw [Operator.evaluate_comparison hop hb, Operator.evaluate_comparison hop' ha, Json.compare?_swap,
      Comparison.holds_mirrored]

/-- The operators obey the laws of their algebra on every pair of values, and a range, a list of values and a join say
what the comparisons say that they stand for. -/
theorem operators_obey_algebra (t : Tuple) (field : String) :
    (∀ v, t.ComparisonLaws field v) ∧
    (∀ start stop, t.meets (.between field start stop) = .ok true ↔
      t.meets (.compare field ">=" start) = .ok true ∧ t.meets (.compare field "<=" stop) = .ok true) ∧
    (∀ values, t.meets (.isIn field values) = .ok true ↔
      ∃ v ∈ values, v.isNull = false ∧ t.meets (.compare field "=" v) = .ok true) ∧
    ∀ second operator operator' c, Operator.ofText? (Operator.normalized operator) = some (.comparison c) →
      Operator.ofText? (Operator.normalized operator') = some (.comparison c.mirrored) →
      t.joins ⟨second, operator', field⟩ = t.joins ⟨field, operator, second⟩ :=
  ⟨t.comparisonLaws field, fun _ _ => meets_between, fun _ => meets_isIn,
    fun second _ _ _ => t.joins_mirrored field second⟩

theorem operators_obey_algebra_ages :
    let t := aged (.string "42")
    (t.resolve "age").Comparable (.ofInt64 40) ∧
    t.meets (.compare "age" "<=" (.ofInt64 40)) = (t.meets (.compare "age" ">" (.ofInt64 40))).map not ∧
    ¬(t.resolve "age").Comparable (.array []) ∧ t.meets (.compare "age" "!=" (.array [])) = .ok false ∧
    t.meets (.compare "age" " Not Like " (.ofInt64 4)) = (t.meets (.compare "age" "like" (.ofInt64 4))).map not ∧
    t.meets (.compare "size" "=" (.ofInt64 0)) ≠ .ok true ∧
    t.joins ⟨"people.age", " <", "age"⟩ = t.joins ⟨"age", ">", "people.age"⟩ := by
  intro t
  have hage : (t.resolve "age").isNull = false := by decide
  have hcomparable : (t.resolve "age").Comparable (.ofInt64 40) := by decide
  have hnot : ¬(t.resolve "age").Comparable (.array []) := by decide
  have hspelled : Operator.normalized " Not Like " = "not like" := by decide
  obtain ⟨hlaws, -, -, hjoins⟩ := operators_obey_algebra t "age"
  refine ⟨hcomparable, ?_, hnot, ?_, ?_, ?_, ?_⟩
  · exact (hlaws (.ofInt64 40)).negations hcomparable ">" "<=" (by decide)
  · exact (hlaws (.array [])).incomparable hage rfl hnot ("!=", .ne) (by decide)
  · rw [(hlaws (.ofInt64 4)).spelled " Not Like " (by rw [hspelled]; decide), hspelled]
    exact (hlaws (.ofInt64 4)).likes hage rfl
  · have hnull : (t.resolve "size").isNull = true := by decide
    rw [ne_eq, ((operators_obey_algebra t "size").1 (.ofInt64 0)).nulls (.inl hnull) "=" (by decide)]
    decide
  · exact hjoins "people.age" ">" " <" .gt (by decide) (by decide)

end Tuple

end RowQuery
