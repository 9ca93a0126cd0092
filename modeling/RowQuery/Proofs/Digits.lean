import RowQuery.Proofs.Rounding
import Mathlib.Data.List.Basic
import Mathlib.Data.List.Induction
import Mathlib.Data.List.TakeWhile
import Mathlib.Data.Nat.Cast.Order.Basic
import Mathlib.Data.Int.Order.Basic
import Mathlib.Order.Compare
import Mathlib.Data.String.Basic

namespace RowQuery

theorem compare_lists_eq_lt (l m : List Char) : compare l m = .lt ↔ l < m := by
  induction l generalizing m with
  | nil =>
      cases m with
      | nil => decide
      | cons d m => simp [List.compare_nil_cons]
  | cons c l ih =>
      cases m with
      | nil => simp [List.compare_cons_nil]
      | cons d m =>
          rw [List.compare_cons_cons, Ordering.then_eq_lt, ih, List.cons_lt_cons_iff, compare_lt_iff_lt,
            compare_eq_iff_eq]

/-- Texts are in the order of their characters. -/
theorem compare_ofList (l m : List Char) : compare (String.ofList l) (String.ofList m) = compare l m := by
  have hlt : ∀ l m : List Char, compare (String.ofList l) (String.ofList m) = .lt ↔ compare l m = .lt := by
    intro l m
    rw [compare_lists_eq_lt, Std.LawfulLTCmp.eq_lt_iff_lt, String.lt_iff_toList_lt, String.toList_ofList,
      String.toList_ofList]
  cases h : compare l m with
  | lt => exact (hlt l m).mpr h
  | eq =>
      obtain rfl := Std.LawfulEqCmp.eq_of_compare h
      exact Std.ReflCmp.compare_self
  | gt => exact Std.OrientedCmp.gt_iff_lt.mpr ((hlt m l).mpr (Std.OrientedCmp.gt_iff_lt.mp h))

theorem compare_append {l m : List Char} (h : l.length = m.length) (a b : List Char) :
    compare (l ++ a) (m ++ b) = (compare l m).then (compare a b) := by
  induction l generalizing m with
  | nil =>
      obtain rfl := List.eq_nil_of_length_eq_zero h.symm
      rfl
  | cons c l ih =>
      cases m with
      | nil => cases h
      | cons d m =>
          rw [List.cons_append, List.cons_append, List.compare_cons_cons, List.compare_cons_cons,
            ih (Nat.succ.inj h), Ordering.then_assoc]

theorem compare_ten {a b x y : Nat} (hx : x < 10) (hy : y < 10) :
    compare (10 * a + x) (10 * b + y) = (compare a b).then (compare x y) := by
  rcases Nat.lt_trichotomy a b with h | rfl | h
  · rw [Nat.compare_eq_lt.mpr h, Nat.compare_eq_lt.mpr (by omega)]
    rfl
  · rw [Nat.compare_eq_eq.mpr rfl]
    rcases Nat.lt_trichotomy x y with h | rfl | h
    · rw [Nat.compare_eq_lt.mpr h, Nat.compare_eq_lt.mpr (by omega)]
      rfl
    · rw [Nat.compare_eq_eq.mpr rfl, Nat.compare_eq_eq.mpr rfl]
      rfl
    · rw [Nat.compare_eq_gt.mpr h, Nat.compare_eq_gt.mpr (by omega)]
      rfl
  · rw [Nat.compare_eq_gt.mpr h, Nat.compare_eq_gt.mpr (by omega)]
    rfl

variable {c d : Char}

theorem toNat_of_isDigit (h : c.isDigit = true) : 48 ≤ c.toNat ∧ c.toNat ≤ 57 := by
  simpa [Char.isDigit, UInt32.le_iff_toNat_le] using h

theorem ne_of_isDigit (hc : c.isDigit = true) (hd : d.isDigit = false) : c ≠ d := by
  rintro rfl
  exact Bool.false_ne_true (hd.symm.trans hc)

theorem toLower_of_isDigit (h : c.isDigit = true) : c.toLower = c := by
  have hbounds := toNat_of_isDigit h
  refine dif_neg fun hupper => ?_
  have hlow : 65 ≤ c.toNat := UInt32.le_iff_toNat_le.mp hupper.1
  omega

theorem isBlank_of_isDigit (h : c.isDigit = true) : Text.isBlank c = false := by
  obtain ⟨hlow, hhigh⟩ := toNat_of_isDigit h
  simp [Text.isBlank]
  omega

theorem readSign_of_isDigit (h : c.isDigit = true) (rest : List Char) :
    Double.readSign (c :: rest) = (false, c :: rest) := by
  unfold Double.readSign
  split
  · rename_i hcons
    exact absurd (List.cons.inj hcons).1 (ne_of_isDigit h (by decide))
  · rename_i hcons
    exact absurd (List.cons.inj hcons).1 (ne_of_isDigit h (by decide))
  · rfl

theorem compare_digit (hc : c.isDigit = true) (hd : d.isDigit = true) :
    compare c d = compare (c.toNat - 48) (d.toNat - 48) := by
  have hmono : StrictMonoOn (fun c : Char => c.toNat - 48) {c | c.isDigit = true} := by
    intro c hc d hd h
    have hlow := toNat_of_isDigit hc
    have hlt : c.toNat < d.toNat := h
    show c.toNat - 48 < d.toNat - 48
    omega
  rw [← cmp_eq_compare, ← cmp_eq_compare]
  exact (hmono.cmp_map_eq hc hd).symm

theorem digitsValue_concat (s : List Char) (c : Char) :
    digitsValue (s ++ [c]) = 10 * digitsValue s + (c.toNat - 48) := by
  simp [digitsValue]

theorem digitsValue_lt {s : List Char} (h : ∀ c ∈ s, c.isDigit = true) : digitsValue s < 10 ^ s.length := by
  induction s using List.reverseRecOn with
  | nil => decide
  | append_singleton s c ih =>
      have hs := ih fun e he => h e (List.mem_append_left _ he)
      have hc := toNat_of_isDigit (h c (by simp))
      rw [digitsValue_concat, List.length_append, List.length_singleton, Nat.pow_succ]
      omega

/-- Texts of equally many digits are in the order of their values. -/
theorem compare_digits {s t : List Char} (hs : ∀ c ∈ s, c.isDigit = true) (ht : ∀ c ∈ t, c.isDigit = true)
    (hlength : s.length = t.length) : compare s t = compare (digitsValue s) (digitsValue t) := by
  induction s using List.reverseRecOn generalizing t with
  | nil =>
      obtain rfl := List.eq_nil_of_length_eq_zero hlength.symm
      rfl
  | append_singleton s c ih =>
      obtain rfl | ⟨t, d, rfl⟩ := List.eq_nil_or_concat' t
      · simp at hlength
      · have hc := hs c (by simp)
        have hd := ht d (by simp)
        have hlength : s.length = t.length := by simpa using hlength
        have hc' := toNat_of_isDigit hc
        have hd' := toNat_of_isDigit hd
        rw [compare_append hlength, digitsValue_concat, digitsValue_concat, compare_ten (by omega) (by omega),
          ih (fun e he => hs e (List.mem_append_left _ he)) (fun e he => ht e (List.mem_append_left _ he)) hlength,
          List.compare_cons_cons, compare_digit hc hd]
        exact congrArg _ Ordering.then_eq

/-- A text of `n` digits. -/
structure Digits (n : Nat) where
  chars : List Char
  length_chars : chars.length = n
  isDigit : ∀ c ∈ chars, c.isDigit = true

namespace Digits

variable {n : Nat}

/-- Characters that are seen to be digits. -/
def ofChars (chars : List Char) (hlength : chars.length = n) (h : chars.all Char.isDigit = true) : Digits n :=
  ⟨chars, hlength, List.all_eq_true.mp h⟩

def value (d : Digits n) : Nat := digitsValue d.chars

def text (d : Digits n) : String := String.ofList d.chars

theorem value_lt (d : Digits n) : d.value < 10 ^ n := by
  have h := digitsValue_lt d.isDigit
  rwa [d.length_chars] at h

theorem compare_chars (a b : Digits n) : compare a.chars b.chars = compare a.value b.value :=
  compare_digits a.isDigit b.isDigit (a.length_chars.trans b.length_chars.symm)

theorem compare_text (a b : Digits n) : compare a.text b.text = compare a.value b.value :=
  (compare_ofList _ _).trans (a.compare_chars b)

theorem exists_cons (d : Digits n) (h : 0 < n) : ∃ c rest, d.chars = c :: rest ∧ c.isDigit = true := by
  have hlength : 0 < d.chars.length := by rwa [d.length_chars]
  obtain ⟨c, rest, hchars⟩ := List.exists_cons_of_length_pos hlength
  exact ⟨c, rest, hchars, d.isDigit c (by simp [hchars])⟩

theorem readDecimal?_chars (d : Digits n) (h : 0 < n) :
    Double.readDecimal? false d.chars = some (Double.ofDecimal false d.value 0) := by
  obtain ⟨c, rest, hchars, -⟩ := d.exists_cons h
  have htake : d.chars.takeWhile Char.isDigit = d.chars := List.takeWhile_eq_self_iff.mpr d.isDigit
  have hdrop : d.chars.dropWhile Char.isDigit = [] := List.dropWhile_eq_nil_iff.mpr d.isDigit
  have hne : d.chars ≠ [] := by simp [hchars]
  simp [Double.readDecimal?, htake, hdrop, hne, Double.readExponent?, value]

/-- Digits with no sign before them are read as a decimal number. -/
theorem ofText?_chars (d : Digits n) (h : 0 < n) :
    Double.ofText? d.chars = some (Double.ofDecimal false d.value 0) := by
  obtain ⟨c, rest, hchars, hc⟩ := d.exists_cons h
  have hsign : Double.readSign d.chars = (false, d.chars) := hchars ▸ readSign_of_isDigit hc rest
  have hword : ∀ {e : Char} {word : List Char}, e.isDigit = false → d.chars.map Char.toLower ≠ e :: word := by
    intro e word he heq
    rw [hchars, List.map_cons, toLower_of_isDigit hc] at heq
    exact ne_of_isDigit hc he (List.cons.inj heq).1
  rw [Double.ofText?, hsign]
  show (if _ ∨ _ then _ else if _ then _ else _) = _
  rw [if_neg (not_or.mpr ⟨hword (by decide), hword (by decide)⟩), if_neg (hword (by decide))]
  exact d.readDecimal?_chars h

theorem ofDecimal_value (d : Digits 2) : Double.ofDecimal false d.value 0 = Double.ofInt d.value := by
  have hlength : (digitChars d.value).length ≤ 2 := by
    have hall : ∀ k < 100, (digitChars k).length ≤ 2 := by decide
    exact hall d.value d.value_lt
  by_cases hzero : d.value = 0
  · rw [hzero]
    rfl
  · have hpower : d.value * powerOfTen 0 = d.value := Nat.mul_one _
    rw [Double.ofDecimal, if_neg (by omega), if_neg (by omega), if_pos (Int.le_refl 0)]
    show Double.ofNat false (d.value * powerOfTen 0) = Double.ofInt d.value
    rw [hpower, Double.ofInt, Int.natAbs_natCast, decide_eq_false (by omega)]

theorem trim_chars (d : Digits n) : Text.trim d.chars = d.chars :=
  Text.trim_eq_self (fun c hc => isBlank_of_isDigit (d.isDigit c (List.mem_of_mem_head? hc)))
    (fun c hc => isBlank_of_isDigit (d.isDigit c (List.mem_of_mem_getLast? hc)))

/-- The number that a text of two digits stands for. -/
theorem number?_text (d : Digits 2) : Json.number? (.string d.text) = some (Double.ofInt d.value) := by
  rw [Json.number?, text, String.toList_ofList, trim_chars, ofText?_chars d (by decide), ofDecimal_value]

end Digits

end RowQuery
