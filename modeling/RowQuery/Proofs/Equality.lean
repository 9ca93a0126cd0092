import RowQuery.Json.Order

namespace RowQuery

namespace Double

theorem compare?_self {x : Double} (h : x ≠ .nan) : x.compare? x = some .eq := by
  cases x with
  | finite x => simp [compare?, place?]
  | infinite negative => cases negative <;> simp [compare?, place?]
  | nan => exact absurd rfl h

theorem compare?_eq_iff {x y : Double} :
    x.compare? y = some .eq ↔ ∃ p, x.place? = some p ∧ y.place? = some p := by
  unfold compare?
  cases x.place? <;> cases y.place? <;> simp [Std.LawfulEqCmp.compare_eq_iff_eq]
  exact eq_comm

theorem ofInt_ne_nan (i : Int) : ofInt i ≠ .nan := by
  unfold ofInt ofNat ofScaled
  split
  · simp
  · split <;> simp

end Double

theorem Number.toDouble_ne_nan (n : Number) : n.toDouble ≠ .nan := by
  cases n with
  | integer i => exact Double.ofInt_ne_nan i.val
  | float x => simp [toDouble]

theorem Number.same_trans {l m n : Number} (h : l.same m = true) (h' : m.same n = true) : l.same n = true := by
  cases l <;> cases m <;> cases n <;> simp_all [same, FiniteDouble.same]

namespace Json

mutual

theorem eqBy_comm {eq : Number → Number → Bool} (h : ∀ m n, eq m n = eq n m) (a b : Json) :
    eqBy eq a b = eqBy eq b a := by
  cases a <;> cases b <;> simp only [eqBy]
  case bool.bool => exact Bool.beq_comm
  case number.number m n => exact h m n
  case string.string => exact Bool.beq_comm
  case array.array l m => exact eqItems_comm h l m
  case object.object l m => exact eqMembers_comm h l m

theorem eqItems_comm {eq : Number → Number → Bool} (h : ∀ m n, eq m n = eq n m) (l m : List Json) :
    eqItems eq l m = eqItems eq m l := by
  cases l <;> cases m <;> simp only [eqItems]
  case cons.cons a l b m => rw [eqBy_comm h a b, eqItems_comm h l m]

theorem eqMembers_comm {eq : Number → Number → Bool} (h : ∀ m n, eq m n = eq n m) (l m : List (String × Json)) :
    eqMembers eq l m = eqMembers eq m l := by
  cases l <;> cases m <;> simp only [eqMembers]
  case cons.cons a l b m => rw [eqBy_comm h a.2 b.2, eqMembers_comm h l m, Bool.beq_comm]

end

theorem same_comm (a b : Json) : a.same b = b.same a := eqBy_comm Number.same_comm a b

theorem compare?_swap (a b : Json) : b.compare? a = (a.compare? b).map Ordering.swap := by
  have hsame : ∀ a b : Json, (if b.same a then some Ordering.eq else none) =
      (if a.same b then some Ordering.eq else none).map Ordering.swap := by
    intro a b
    rw [same_comm]
    split <;> rfl
  cases a <;> cases b <;> simp only [compare?, Option.map_none]
  case string.string s t => exact congrArg some Std.OrientedCmp.eq_swap
  case bool.bool | bool.number | number.bool | number.number => exact Double.compare?_swap _ _
  case bool.string b s | number.string b s =>
    simp only [number?]
    cases Double.ofText? (Text.trim s.toList) with
    | none => rfl
    | some y => exact Double.compare?_swap _ y
  case string.bool s b | string.number s b =>
    simp only [number?]
    cases Double.ofText? (Text.trim s.toList) with
    | none => rfl
    | some x => exact Double.compare?_swap x _
  all_goals exact hsame _ _

theorem equal_comm (a b : Json) : a.equal b = b.equal a := by
  rw [equal, equal, compare?_swap a b]
  cases a.compare? b with
  | none => rfl
  | some o => cases o <;> rfl

theorem equal_self {a : Json} (h : a.isNull = false) : a.equal a = true := by
  rw [equal, beq_iff_eq]
  cases a with
  | null => simp [isNull] at h
  | bool b =>
      have hb : (if b then Double.one else Double.zero) ≠ .nan := by cases b <;> simp [Double.one, Double.zero]
      exact Double.compare?_self hb
  | number n => exact Double.compare?_self n.toDouble_ne_nan
  | string s => exact congrArg some Std.ReflCmp.compare_self
  | array l => simp [compare?, same_self]
  | object l => simp [compare?, same_self]

mutual

theorem eqBy_trans {eq : Number → Number → Bool} (heq : ∀ l m n, eq l m = true → eq m n = true → eq l n = true)
    {a b c : Json} (h : eqBy eq a b = true) (h' : eqBy eq b c = true) : eqBy eq a c = true := by
  cases a <;> cases b <;> simp only [eqBy, Bool.false_eq_true] at h <;> cases c <;>
    simp only [eqBy, Bool.false_eq_true] at h' ⊢
  case bool.bool.bool => exact beq_iff_eq.mpr ((beq_iff_eq.mp h).trans (beq_iff_eq.mp h'))
  case number.number.number => exact heq _ _ _ h h'
  case string.string.string => exact beq_iff_eq.mpr ((beq_iff_eq.mp h).trans (beq_iff_eq.mp h'))
  case array.array.array => exact eqItems_trans heq h h'
  case object.object.object => exact eqMembers_trans heq h h'
termination_by structural a

theorem eqItems_trans {eq : Number → Number → Bool} (heq : ∀ l m n, eq l m = true → eq m n = true → eq l n = true)
    {k l m : List Json} (h : eqItems eq k l = true) (h' : eqItems eq l m = true) : eqItems eq k m = true := by
  cases k <;> cases l <;> simp only [eqItems, Bool.false_eq_true] at h <;> cases m <;>
    simp only [eqItems, Bool.false_eq_true, Bool.and_eq_true] at h h' ⊢
  case cons.cons.cons => exact ⟨eqBy_trans heq h.1 h'.1, eqItems_trans heq h.2 h'.2⟩
termination_by structural k

theorem eqMembers_trans {eq : Number → Number → Bool}
    (heq : ∀ l m n, eq l m = true → eq m n = true → eq l n = true) {k l m : List (String × Json)}
    (h : eqMembers eq k l = true) (h' : eqMembers eq l m = true) : eqMembers eq k m = true := by
  cases k <;> cases l <;> simp only [eqMembers, Bool.false_eq_true] at h <;> cases m <;>
    simp only [eqMembers, Bool.false_eq_true, Bool.and_eq_true, beq_iff_eq] at h h' ⊢
  case cons.cons.cons =>
    exact ⟨⟨h.1.1.trans h'.1.1, eqBy_trans heq h.1.2 h'.1.2⟩, eqMembers_trans heq h.2 h'.2⟩
termination_by structural k

end

theorem same_trans {a b c : Json} (h : a.same b = true) (h' : b.same c = true) : a.same c = true := by
  refine eqBy_trans ?_ h h'
  exact fun _ _ _ => Number.same_trans

/-- The place of the number a value stands for. -/
def place? (a : Json) : Option Int := a.number?.bind Double.place?

theorem number_equal (x y : Option Double) :
    (match x, y with
    | some x, some y => x.compare? y
    | _, _ => none) = some .eq ↔ ∃ p, x.bind Double.place? = some p ∧ y.bind Double.place? = some p := by
  cases x <;> cases y <;> simp [Double.compare?_eq_iff]

/-- Two values are equal as one text, by the numbers they stand for, or by their structure. -/
theorem equal_iff {a b : Json} : a.equal b = true ↔
    (∃ s, a = .string s ∧ b = .string s) ∨
    ((a.text? = none ∨ b.text? = none) ∧ ∃ p, a.place? = some p ∧ b.place? = some p) ∨
    (a.isNull = false ∧ (a.text? = none ∧ b.text? = none) ∧ (a.number? = none ∧ b.number? = none) ∧
      a.same b = true) := by
  rw [equal, beq_iff_eq]
  cases a <;> cases b
  case array.array | object.object => simp [compare?, text?, isNull, place?, number?]
  all_goals simp [compare?, text?, isNull, place?, number?, same, eqBy]
  case string.string => exact eq_comm
  case bool.bool | bool.number | number.bool | number.number => exact number_equal (some _) (some _)
  case bool.string | number.string => exact number_equal (some _) _
  case string.bool | string.number => exact number_equal _ (some _)

/-- Two values that are equal to a third are equal, unless they are texts and it is none. -/
theorem equal_of_both {a b c : Json} (ha : a.equal c = true) (hb : b.equal c = true)
    (htext : a.text? = none ∨ b.text? = none ∨ c.text?.isSome) : a.equal b = true := by
  rcases equal_iff.mp ha with ⟨s, rfl, rfl⟩ | ⟨hapart, p, hp, hcp⟩ | ⟨hnull, htexts, ⟨hna, hnc⟩, hac⟩
  · rwa [equal_comm]
  · rcases equal_iff.mp hb with ⟨s, rfl, rfl⟩ | ⟨hapart', q, hq, hcq⟩ | ⟨_, _, ⟨_, hnc⟩, _⟩
    · exact ha
    · obtain rfl := Option.some.inj (hcp.symm.trans hcq)
      refine equal_iff.mpr (.inr (.inl ⟨?_, p, hp, hq⟩))
      rcases htext with h | h | h
      · exact .inl h
      · exact .inr h
      · exact .inl (hapart.resolve_right (Option.isSome_iff_ne_none.mp h))
    · simp [place?, hnc] at hcp
  · rcases equal_iff.mp hb with ⟨s, rfl, rfl⟩ | ⟨_, q, _, hcq⟩ | ⟨_, htexts', ⟨hnb, _⟩, hbc⟩
    · exact ha
    · simp [place?, hnc] at hcq
    · refine equal_iff.mpr (.inr (.inr ⟨hnull, ⟨htexts.1, htexts'.1⟩, ⟨hna, hnb⟩, same_trans hac ?_⟩))
      rwa [same_comm]

theorem texts_of_both {a b c : Json} (ha : a.equal c = true) (hb : b.equal c = true) (hne : a.equal b = false) :
    a.text?.isSome ∧ b.text?.isSome ∧ c.text? = none := by
  have hnot : ¬(a.text? = none ∨ b.text? = none ∨ c.text?.isSome) := fun htext =>
    Bool.false_ne_true (hne.symm.trans (equal_of_both ha hb htext))
  simpa only [not_or, ← Option.isSome_iff_ne_none, Option.not_isSome_iff_eq_none] using hnot

/-- Two texts of one number are equal to it, but not to each other. -/
example : (string "1").equal (.ofInt64 1) = true ∧ (string "01").equal (.ofInt64 1) = true ∧
    (string "1").equal (.string "01") = false := by decide

end Json

end RowQuery
