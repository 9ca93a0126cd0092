import RowQuery.Proofs.ComparisonLaws

namespace RowQuery

/-- Two tests give the same answer, or both refuse their operators. -/
def SameAnswer (x y : Except StoreError Bool) : Prop :=
  x = y ∨ ∃ s s', x = .error (.unsupportedOperator s) ∧ y = .error (.unsupportedOperator s')

namespace Comparison

/-- The comparisons, as they are looked up. -/
def words : List String := ["=", "!=", "<>", ">", ">=", "<", "<="]

theorem ofText?_eq_none {s : String} : ofText? s = none ↔ s ∉ words := by
  simp only [ofText?, words, List.mem_cons, List.not_mem_nil]
  grind

theorem exists_ofText? {s : String} (h : s ∈ words) : ∃ c, ofText? s = some c :=
  Option.ne_none_iff_exists'.mp (mt ofText?_eq_none.mp (not_not_intro h))

theorem words_subset : words ⊆ Operator.words := by decide

/-- Of the spellings of an operator at most one is that of a comparison. -/
theorem eq_of_mem_words {s s' : String} (h : Operator.normalized s = Operator.normalized s') (hs : s ∈ words)
    (hs' : s' ∈ words) : s = s' := by
  rwa [Operator.normalized_word s (words_subset hs), Operator.normalized_word s' (words_subset hs')] at h

theorem evaluate_of_not_mem {s : String} (h : s ∉ words) (o : Option Ordering) :
    evaluate s o = .error (.unsupportedOperator s) := by
  rw [evaluate, ofText?_eq_none.mpr h]

theorem evaluate_of_mem {s : String} (h : s ∈ words) (o : Option Ordering) : ∃ r, evaluate s o = .ok r := by
  obtain ⟨c, hc⟩ := exists_ofText? h
  exact ⟨c.holds o, by rw [evaluate, hc]⟩

theorem sameAnswer_evaluate {s s' : String} (h : Operator.normalized s = Operator.normalized s')
    (o : Option Ordering) : SameAnswer (evaluate s o) (evaluate s' o) ↔ s = s' ∨ s ∉ words ∧ s' ∉ words := by
  constructor
  · intro hsame
    by_cases hs : s ∈ words
    · obtain ⟨r, hr⟩ := evaluate_of_mem hs o
      by_cases hs' : s' ∈ words
      · exact .inl (eq_of_mem_words h hs hs')
      · rw [hr, evaluate_of_not_mem hs'] at hsame
        simp [SameAnswer] at hsame
    · by_cases hs' : s' ∈ words
      · obtain ⟨r, hr⟩ := evaluate_of_mem hs' o
        rw [hr, evaluate_of_not_mem hs] at hsame
        simp [SameAnswer] at hsame
      · exact .inr ⟨hs, hs'⟩
  · rintro (rfl | ⟨hs, hs'⟩)
    · exact .inl rfl
    · exact .inr ⟨s, s', evaluate_of_not_mem hs o, evaluate_of_not_mem hs' o⟩

end Comparison

namespace Operator

theorem evaluate_respelled {s s' : String} (h : normalized s = normalized s') (a b : Json) :
    evaluate s a b = evaluate s' a b := by
  rw [evaluate, evaluate, h]

end Operator

namespace Tuple

variable {t : Tuple} {field s s' : String} {v : Json}

theorem meets_date_of_dates {a b : Date} (ha : (t.resolve field).date? = some a) (hb : v.date? = some b)
    (s : String) : t.meets (.date field s v) = Comparison.evaluate s (some (a.order b)) := by
  simp only [meets, ha, hb]

theorem meets_date_of_none (h : (t.resolve field).date? = none ∨ v.date? = none) (s : String) :
    t.meets (.date field s v) = .ok false := by
  rcases h with h | h
  · simp only [meets, h]
  · simp only [meets, h]
    split <;> simp_all

theorem meets_month_of_date {a : Date} (ha : (t.resolve field).date? = some a) (s : String) (v : Json) :
    t.meets (.month field s v) = Comparison.evaluate s ((Json.ofMonth a.month).compare? v) := by
  simp only [meets, ha]

theorem meets_month_of_none (h : (t.resolve field).date? = none) (s : String) (v : Json) :
    t.meets (.month field s v) = .ok false := by
  simp only [meets, h]

theorem sameAnswer_date (h : Operator.normalized s = Operator.normalized s') :
    SameAnswer (t.meets (.date field s v)) (t.meets (.date field s' v)) ↔
      ((t.resolve field).date? = none ∨ v.date? = none) ∨ s = s' ∨
        s ∉ Comparison.words ∧ s' ∉ Comparison.words := by
  cases ha : (t.resolve field).date? with
  | none =>
      rw [meets_date_of_none (.inl ha), meets_date_of_none (.inl ha)]
      exact iff_of_true (.inl rfl) (.inl (.inl rfl))
  | some a =>
      cases hb : v.date? with
      | none =>
          rw [meets_date_of_none (.inr hb), meets_date_of_none (.inr hb)]
          exact iff_of_true (.inl rfl) (.inl (.inr rfl))
      | some b =>
          rw [meets_date_of_dates ha hb, meets_date_of_dates ha hb, Comparison.sameAnswer_evaluate h]
          simp

theorem sameAnswer_month (h : Operator.normalized s = Operator.normalized s') :
    SameAnswer (t.meets (.month field s v)) (t.meets (.month field s' v)) ↔
      (t.resolve field).date? = none ∨ s = s' ∨ s ∉ Comparison.words ∧ s' ∉ Comparison.words := by
  cases ha : (t.resolve field).date? with
  | none =>
      rw [meets_month_of_none ha, meets_month_of_none ha]
      exact iff_of_true (.inl rfl) (.inl rfl)
  | some a =>
      rw [meets_month_of_date ha, meets_month_of_date ha, Comparison.sameAnswer_evaluate h]
      simp

/-- How an operator is spelled makes no difference to a comparison of a column or to a join. A test of a date or a month
looks the operator up as it is spelled: where it has dates to compare it refuses every spelling but the words for the
comparisons themselves, so that two spellings of one operator agree only if neither is such a word. -/
theorem respelled_operators_agree {s s' : String} (h : Operator.normalized s = Operator.normalized s') (t : Tuple) :
    (∀ field v, t.meets (.compare field s v) = t.meets (.compare field s' v)) ∧
    (∀ first second, t.joins ⟨first, s, second⟩ = t.joins ⟨first, s', second⟩) ∧
    (∀ field v, SameAnswer (t.meets (.date field s v)) (t.meets (.date field s' v)) ↔
      ((t.resolve field).date? = none ∨ v.date? = none) ∨ s = s' ∨
        s ∉ Comparison.words ∧ s' ∉ Comparison.words) ∧
    (∀ field v, SameAnswer (t.meets (.month field s v)) (t.meets (.month field s' v)) ↔
      (t.resolve field).date? = none ∨ s = s' ∨ s ∉ Comparison.words ∧ s' ∉ Comparison.words) ∧
    (s' ∉ Comparison.words → ∀ field a, (t.resolve field).date? = some a → ∀ v,
      (∀ b, v.date? = some b → t.meets (.date field s' v) = .error (.unsupportedOperator s')) ∧
      t.meets (.month field s' v) = .error (.unsupportedOperator s')) := by
  refine ⟨fun field v => ?_, fun first second => ?_, fun field v => sameAnswer_date h,
    fun field v => sameAnswer_month h, fun hs' field a ha v => ⟨fun b hb => ?_, ?_⟩⟩
  · simp only [meets, Operator.evaluate_respelled h]
  · simp only [joins, Operator.evaluate_respelled h]
  · rw [meets_date_of_dates ha hb, Comparison.evaluate_of_not_mem hs']
  · rw [meets_month_of_date ha, Comparison.evaluate_of_not_mem hs']

/-- The tuple of an event at a given time. -/
def eventAt (time : String) : Tuple := .ofRow "events" (.ofList [("at", .string time)])

theorem respelled_operators_agree_event :
    let t := eventAt "2024-03-15 10:30:00"
    t.meets (.compare "at" " Like" (.string "2024%")) = t.meets (.compare "at" "LIKE " (.string "2024%")) ∧
    SameAnswer (t.meets (.month "at" " Like" (.string "03"))) (t.meets (.month "at" "LIKE " (.string "03"))) ∧
    ¬SameAnswer (t.meets (.date "at" "=" (.string "2024-03-15")))
      (t.meets (.date "at" " =" (.string "2024-03-15"))) ∧
    t.meets (.month "at" " =" (.string "03")) = .error (.unsupportedOperator " =") := by
  intro t
  have hlike : Operator.normalized " Like" = Operator.normalized "LIKE " :=
    calc Operator.normalized " Like"
      _ = "like" := by decide
      _ = Operator.normalized "LIKE " := by decide
  have heq : Operator.normalized "=" = Operator.normalized " =" := by decide
  have hday : (t.resolve "at").date? = some ⟨2024, 3, 15⟩ := by decide
  have hvalue : (Json.string "2024-03-15").date? = some ⟨2024, 3, 15⟩ := by decide
  obtain ⟨hcompare, -, -, hmonth, -⟩ := respelled_operators_agree hlike t
  obtain ⟨-, -, hdate, -, hrefused⟩ := respelled_operators_agree heq t
  refine ⟨hcompare "at" (.string "2024%"), (hmonth "at" (.string "03")).mpr (.inr (.inr (by decide))), ?_,
    (hrefused (by decide) "at" ⟨2024, 3, 15⟩ hday (.string "03")).2⟩
  rw [hdate "at" (.string "2024-03-15"), hday, hvalue]
  decide

/-- With a blank before its operator a test of a date is refused. -/
theorem spelling_counts_for_dates :
    ¬∀ s s', Operator.normalized s = Operator.normalized s' → ∀ (t : Tuple) (field : String) (v : Json),
      SameAnswer (t.meets (.date field s v)) (t.meets (.date field s' v)) := by
  intro hagree
  have heq : Operator.normalized "=" = Operator.normalized " =" := by decide
  have hmeets : (eventAt "2024-03-15 10:30:00").meets (.date "at" "=" (.string "2024-03-15")) = .ok true := by
    decide
  have hrefused : (eventAt "2024-03-15 10:30:00").meets (.date "at" " =" (.string "2024-03-15")) =
      .error (.unsupportedOperator " =") := by decide
  have hsame := hagree "=" " =" heq (eventAt "2024-03-15 10:30:00") "at" (.string "2024-03-15")
  rw [hmeets, hrefused] at hsame
  simp [SameAnswer] at hsame

end Tuple

end RowQuery
