import RowQuery.Store.Evaluation

namespace RowQuery

namespace Json

variable {a b : Json}

/-- Two values that have an order. A null has one with nothing, a number none with a text that reads as no number. -/
def Comparable (a b : Json) : Prop := (a.compare? b).isSome = true

instance : Decidable (Comparable a b) := inferInstanceAs (Decidable (_ = true))

theorem Comparable.isNull_left (h : a.Comparable b) : a.isNull = false := by
  cases a with
  | null => simp [Comparable] at h
  | _ => rfl

theorem Comparable.isNull_right (h : a.Comparable b) : b.isNull = false := by
  cases b with
  | null => simp [Comparable] at h
  | _ => rfl

theorem Comparable.of_equal (h : a.equal b = true) : a.Comparable b := by
  rw [Comparable, beq_iff_eq.mp h]
  rfl

/-- Two values differ if they have an order and are not equal in it. -/
theorem ne_holds_iff : Comparison.ne.holds (a.compare? b) = true ↔ a.Comparable b ∧ a.equal b = false := by
  rw [Comparable, equal]
  cases a.compare? b with
  | none => simp [Comparison.holds]
  | some o => cases o <;> simp [Comparison.holds, Comparison.admits]

end Json

namespace Tuple

variable {t : Tuple} {field : String} {values : List Json}

theorem meets_differs {v : Json} (hv : v.isNull = false) : t.meets (.compare field "!=" v) = .ok true ↔
    (t.resolve field).Comparable v ∧ (t.resolve field).equal v = false := by
  have hop : Operator.ofText? (Operator.normalized "!=") = some (.comparison .ne) := by decide
  rw [meets, Operator.evaluate_comparison hop hv, Except.ok.injEq]
  exact Json.ne_holds_iff

theorem meets_isNotIn (hvalues : values ≠ []) : t.meets (.isNotIn field values) = .ok true ↔
    (t.resolve field).isNull = false ∧ ∀ v ∈ values, (t.resolve field).equal v = false := by
  simp [meets, hvalues]

theorem meets_isNotIn_of_comparable (hvalues : values ≠ []) : t.meets (.isNotIn field values) = .ok true ↔
    (t.resolve field).isNull = false ∧
      ∀ v ∈ values, (t.resolve field).Comparable v → t.meets (.compare field "!=" v) = .ok true := by
  rw [meets_isNotIn hvalues]
  refine and_congr_right fun _ => forall₂_congr fun v _ => ?_
  constructor
  · exact fun hne hcomparable => (meets_differs hcomparable.isNull_right).mpr ⟨hcomparable, hne⟩
  · intro hdiffers
    cases hequal : (t.resolve field).equal v with
    | false => rfl
    | true =>
        have hcomparable := Json.Comparable.of_equal hequal
        have hne := ((meets_differs hcomparable.isNull_right).mp (hdiffers hcomparable)).2
        exact absurd (hne.symm.trans hequal) Bool.false_ne_true

theorem meets_each_iff (hvalues : values ≠ []) (hnulls : ∀ v ∈ values, v.isNull = false) :
    (∀ v ∈ values, t.meets (.compare field "!=" v) = .ok true) ↔
      t.meets (.isNotIn field values) = .ok true ∧ ∀ v ∈ values, (t.resolve field).Comparable v := by
  rw [meets_isNotIn_of_comparable hvalues]
  constructor
  · intro heach
    have hcomparable : ∀ v ∈ values, (t.resolve field).Comparable v := fun v hv =>
      ((meets_differs (hnulls v hv)).mp (heach v hv)).1
    obtain ⟨v, hv⟩ := List.exists_mem_of_ne_nil values hvalues
    exact ⟨⟨(hcomparable v hv).isNull_left, fun v hv _ => heach v hv⟩, hcomparable⟩
  · rintro ⟨⟨-, heach⟩, hcomparable⟩ v hv
    exact heach v hv (hcomparable v hv)

theorem any_equal_filter (a : Json) (values : List Json) :
    (values.filter fun v => !v.isNull).any a.equal = values.any a.equal := by
  rw [List.any_filter]
  refine congrArg values.any (funext fun v => ?_)
  cases v <;> simp [Json.isNull]

theorem meets_isNotIn_filter (hfilter : (values.filter fun v => !v.isNull) ≠ []) :
    t.meets (.isNotIn field (values.filter fun v => !v.isNull)) = t.meets (.isNotIn field values) := by
  have hvalues : values ≠ [] := by
    rintro rfl
    exact hfilter rfl
  simp only [meets, List.isEmpty_eq_false_iff.mpr hvalues, List.isEmpty_eq_false_iff.mpr hfilter, any_equal_filter]

/-- A list of values excludes a tuple if its column has a value that differs from every value of the list it is
comparable with. A value that it is not comparable with is passed over, as a null is, where the test that the column
differs from it does not hold. -/
theorem exclusion_by_inequality (t : Tuple) (field : String) {values : List Json} (hvalues : values ≠ []) :
    (t.meets (.isNotIn field values) = .ok true ↔ (t.resolve field).isNull = false ∧
      ∀ v ∈ values, (t.resolve field).Comparable v → t.meets (.compare field "!=" v) = .ok true) ∧
    ((∀ v ∈ values, v.isNull = false) →
      ((∀ v ∈ values, t.meets (.compare field "!=" v) = .ok true) ↔
        t.meets (.isNotIn field values) = .ok true ∧ ∀ v ∈ values, (t.resolve field).Comparable v)) ∧
    ((values.filter fun v => !v.isNull) ≠ [] →
      t.meets (.isNotIn field (values.filter fun v => !v.isNull)) = t.meets (.isNotIn field values)) :=
  ⟨meets_isNotIn_of_comparable hvalues, meets_each_iff hvalues, meets_isNotIn_filter⟩

/-- The tuple of a person of a given age. -/
def aged (age : Json) : Tuple := .ofRow "people" (.ofList [("age", age)])

theorem exclusion_by_inequality_ages :
    (∀ v ∈ [Json.ofInt64 7, .string "six"], (aged (.string "5")).meets (.compare "age" "!=" v) = .ok true) ∧
    (aged (.string "5")).meets (.isNotIn "age" [.ofInt64 7, .null]) = .ok true := by
  have hvalues : [Json.ofInt64 7, .string "six"] ≠ [] := List.cons_ne_nil _ _
  have hvalues' : [Json.ofInt64 7, .null] ≠ [] := List.cons_ne_nil _ _
  obtain ⟨-, hdiffer, -⟩ := exclusion_by_inequality (aged (.string "5")) "age" hvalues
  obtain ⟨-, -, hnull⟩ := exclusion_by_inequality (aged (.string "5")) "age" hvalues'
  constructor
  · refine (hdiffer (by decide)).mpr ⟨?_, by decide⟩
    exact (meets_isNotIn hvalues).mpr (by decide)
  · refine (hnull (by decide)).symm.trans ?_
    exact (meets_isNotIn (List.cons_ne_nil _ _)).mpr (by decide)

/-- A null among the values does not keep a tuple from being let through. -/
theorem exclusion_ignores_nulls :
    ¬∀ (t : Tuple) (field : String) (values : List Json), values ≠ [] →
      ((∀ v ∈ values, v.isNull = false) → (t.meets (.isNotIn field values) = .ok true ↔
        ∀ v ∈ values, t.meets (.compare field "!=" v) = .ok true)) ∧
      (.null ∈ values → t.meets (.isNotIn field values) ≠ .ok true) := by
  intro hexclusion
  have hvalues : [Json.ofInt64 7, .null] ≠ [] := List.cons_ne_nil _ _
  have hmeets : (aged (.ofInt64 5)).meets (.isNotIn "age" [.ofInt64 7, .null]) = .ok true :=
    (meets_isNotIn hvalues).mpr (by decide)
  exact (hexclusion (aged (.ofInt64 5)) "age" [.ofInt64 7, .null] hvalues).2 (by simp) hmeets

end Tuple

end RowQuery
