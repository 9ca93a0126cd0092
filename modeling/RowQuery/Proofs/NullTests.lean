import RowQuery.Query.Sql
import RowQuery.Store.Evaluation

namespace RowQuery

namespace Comparison

theorem ofText?_eq_some_eq {s : String} : ofText? s = some .eq ↔ s = "=" := by
  grind [ofText?]

theorem ofText?_eq_some_ne {s : String} : ofText? s = some .ne ↔ s = "!=" ∨ s = "<>" := by
  grind [ofText?]

end Comparison

namespace Operator

theorem ofText?_eq_some_comparison {s : String} {c : Comparison} :
    ofText? s = some (.comparison c) ↔ Comparison.ofText? s = some c := by
  by_cases hlike : s = "like"
  · subst hlike
    simp [ofText?, Comparison.ofText?]
  · by_cases hnot : s = "not like"
    · subst hnot
      simp [ofText?, Comparison.ofText?]
    · simp [ofText?, hlike, hnot]

theorem evaluate_eq_ok {operator : String} {a b : Json} {r : Bool} :
    evaluate operator a b = .ok r ↔ ∃ op, ofText? (normalized operator) = some op ∧ op.apply a b = r := by
  unfold evaluate
  cases ofText? (normalized operator) <;> simp

/-- With a null on the right only the two tests for null can hold. -/
theorem apply_null_right {op : Operator} {a : Json} : op.apply a .null = true ↔
    op = .comparison .eq ∧ a.isNull = true ∨ op = .comparison .ne ∧ a.isNull = false := by
  rcases op with (_ | _ | _ | _ | _ | _) | _ | _ <;> simp [apply, Json.isNull]

theorem evaluate_null_right {operator : String} {a : Json} : evaluate operator a .null = .ok true ↔
    normalized operator = "=" ∧ a.isNull = true ∨
    (normalized operator = "!=" ∨ normalized operator = "<>") ∧ a.isNull = false := by
  simp only [evaluate_eq_ok, apply_null_right]
  rw [← Comparison.ofText?_eq_some_eq, ← Comparison.ofText?_eq_some_ne, ← ofText?_eq_some_comparison,
    ← ofText?_eq_some_comparison]
  constructor
  · rintro ⟨op, hop, ⟨rfl, ha⟩ | ⟨rfl, ha⟩⟩
    · exact .inl ⟨hop, ha⟩
    · exact .inr ⟨hop, ha⟩
  · rintro (⟨hop, ha⟩ | ⟨hop, ha⟩)
    · exact ⟨_, hop, .inl ⟨rfl, ha⟩⟩
    · exact ⟨_, hop, .inr ⟨rfl, ha⟩⟩

end Operator

theorem Tuple.exists_resolve (field : String) (a : Json) : ∃ t : Tuple, t.resolve field = a :=
  ⟨⟨Dict.empty.insert field a, Dict.empty.insert field a⟩, by simp [resolve]⟩

namespace Condition

/-- A comparison of a column with null. -/
def nullTest (field operator : String) : Condition := .compare field operator .null

/-- The condition holds on every tuple whose column is null. -/
def HoldsOnNull (c : Condition) (field : String) : Prop :=
  ∀ t : Tuple, (t.resolve field).isNull = true → t.meets c = .ok true

/-- The condition holds on every tuple whose column has a value, and on no other. -/
def HoldsOnValues (c : Condition) (field : String) : Prop :=
  (∀ t : Tuple, (t.resolve field).isNull = false → t.meets c = .ok true) ∧
  ∀ t : Tuple, (t.resolve field).isNull = true → t.meets c ≠ .ok true

variable {field operator : String}

theorem meets_nullTest (t : Tuple) : t.meets (nullTest field operator) = .ok true ↔
    Operator.normalized operator = "=" ∧ (t.resolve field).isNull = true ∨
    (Operator.normalized operator = "!=" ∨ Operator.normalized operator = "<>") ∧
      (t.resolve field).isNull = false := by
  rw [nullTest, Tuple.meets]
  exact Operator.evaluate_null_right

theorem holdsOnNull_iff : (nullTest field operator).HoldsOnNull field ↔ Operator.normalized operator = "=" := by
  constructor
  · intro h
    have hnull : (({} : Tuple).resolve field).isNull = true := by simp [Tuple.resolve, Json.isNull]
    have hmeets := (meets_nullTest _).mp (h {} hnull)
    simpa [hnull] using hmeets
  · exact fun hop t ht => (meets_nullTest t).mpr (.inl ⟨hop, ht⟩)

theorem holdsOnValues_iff : (nullTest field operator).HoldsOnValues field ↔
    Operator.normalized operator = "!=" ∨ Operator.normalized operator = "<>" := by
  constructor
  · rintro ⟨h, -⟩
    obtain ⟨t, ht⟩ := Tuple.exists_resolve field (.bool true)
    have hvalue : (t.resolve field).isNull = false := by rw [ht]; rfl
    have hmeets := (meets_nullTest _).mp (h t hvalue)
    simpa [hvalue] using hmeets
  · intro hop
    refine ⟨fun t ht => (meets_nullTest t).mpr (.inr ⟨hop, ht⟩), fun t ht hmeets => ?_⟩
    rcases (meets_nullTest t).mp hmeets with ⟨heq, -⟩ | ⟨-, hvalue⟩
    · rw [heq] at hop
      revert hop
      decide
    · rw [ht] at hvalue
      cases hvalue

theorem sql_nullTest (field operator : String) : (nullTest field operator).sql =
    if operator = "=" then field ++ " IS NULL"
    else if operator = "!=" ∨ operator = "<>" then field ++ " IS NOT NULL"
    else field ++ " " ++ operator ++ " NULL" := by
  have hnull : Sql.valueText .null = "NULL" := rfl
  simp only [nullTest, sql, Json.isNull, true_and, hnull]
  split
  · rfl
  · split
    · rfl
    · exact String.append_assoc

theorem verbatim_inj {word : String} : field ++ " " ++ operator ++ " NULL" = field ++ (" " ++ (word ++ " NULL")) ↔
    operator = word := by
  rw [String.append_assoc, String.append_assoc, String.append_right_inj, String.append_right_inj,
    String.append_left_inj]

theorem sql_eq_isNull :
    (nullTest field operator).sql = field ++ " IS NULL" ↔ operator = "=" ∨ operator = "IS" := by
  have hwords : " IS NULL" = " " ++ ("IS" ++ " NULL") := rfl
  rw [sql_nullTest]
  split
  · simp [*]
  · split
    · rename_i heq hne
      rw [String.append_right_inj]
      rcases hne with rfl | rfl <;> decide
    · rename_i heq hne
      rw [hwords, verbatim_inj]
      simp [heq]

theorem sql_eq_isNotNull : (nullTest field operator).sql = field ++ " IS NOT NULL" ↔
    operator = "!=" ∨ operator = "<>" ∨ operator = "IS NOT" := by
  have hwords : " IS NOT NULL" = " " ++ ("IS NOT" ++ " NULL") := rfl
  rw [sql_nullTest]
  split
  · rename_i heq
    rw [String.append_right_inj, heq]
    decide
  · split
    · rename_i hne
      rw [← or_assoc]
      exact iff_of_true rfl (.inl hne)
    · rename_i hne
      rw [hwords, verbatim_inj, ← or_assoc]
      simp [hne]

/-- A comparison with null is written as a test for null if its operator is spelled as the test is looked up, or is
the word of that test itself, whereas it works as one however the operator is spelled. So what is written says what is
done for every operator that is spelled without outer blanks and in lower case. -/
theorem null_tests_written (field operator : String) :
    ((nullTest field operator).sql = field ++ " IS NULL" ↔ operator = "=" ∨ operator = "IS") ∧
    ((nullTest field operator).sql = field ++ " IS NOT NULL" ↔
      operator = "!=" ∨ operator = "<>" ∨ operator = "IS NOT") ∧
    ((nullTest field operator).HoldsOnNull field ↔ Operator.normalized operator = "=") ∧
    ((nullTest field operator).HoldsOnValues field ↔
      Operator.normalized operator = "!=" ∨ Operator.normalized operator = "<>") ∧
    (Operator.normalized operator = operator →
      ((nullTest field operator).sql = field ++ " IS NULL" ↔ (nullTest field operator).HoldsOnNull field) ∧
      ((nullTest field operator).sql = field ++ " IS NOT NULL" ↔
        (nullTest field operator).HoldsOnValues field)) := by
  refine ⟨sql_eq_isNull, sql_eq_isNotNull, holdsOnNull_iff, holdsOnValues_iff, fun hplain => ?_⟩
  have hwords : operator ≠ "IS" ∧ operator ≠ "IS NOT" := by
    constructor <;> rintro rfl <;> revert hplain <;> decide
  rw [sql_eq_isNull, sql_eq_isNotNull, holdsOnNull_iff, holdsOnValues_iff, hplain]
  simp [hwords]

theorem null_tests_written_differs : Operator.normalized "<>" = "<>" ∧
    (nullTest "age" "<>").sql = "age" ++ " IS NOT NULL" ∧ (nullTest "age" "<>").HoldsOnValues "age" := by
  have hplain : Operator.normalized "<>" = "<>" := by decide
  have hsql : (nullTest "age" "<>").sql = "age" ++ " IS NOT NULL" := by decide
  obtain ⟨-, -, -, -, hagree⟩ := null_tests_written "age" "<>"
  exact ⟨hplain, hsql, (hagree hplain).2.mp hsql⟩

/-- With a blank before its operator a test for null works, but is not written as one. -/
theorem null_tests_written_otherwise :
    ¬∀ field operator, ((nullTest field operator).sql = field ++ " IS NULL" ↔
        (nullTest field operator).HoldsOnNull field) ∧
      ((nullTest field operator).sql = field ++ " IS NOT NULL" ↔ (nullTest field operator).HoldsOnValues field) := by
  intro hwritten
  have hop : Operator.normalized " =" = "=" := by decide
  have hsql : (nullTest "age" " =").sql ≠ "age" ++ " IS NULL" := by decide
  exact hsql ((hwritten "age" " =").1.mpr (holdsOnNull_iff.mpr hop))

end Condition

end RowQuery
