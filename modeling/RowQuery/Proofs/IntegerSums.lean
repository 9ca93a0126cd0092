import RowQuery.Proofs.Insertion
import RowQuery.Proofs.Ledger
import RowQuery.Proofs.Mutation
import RowQuery.Proofs.RoundedIntegers
import Mathlib.Algebra.Group.Int.Defs

namespace RowQuery

namespace Double

variable {n : Nat} {a b : Int}

theorem unitsInOne_eq {k : Nat} (h : k = 1074) : unitsInOne = 2 ^ k := by
  rw [unitsInOne, ← h, Nat.shiftLeft_eq, Nat.one_mul]

theorem nearest_scale (num den : Nat) {c : Nat} (h : 0 < c) : nearest (num * c) (den * c) = nearest num den := by
  have hmod : 2 * (num % den * c) = 2 * (num % den) * c := (Nat.mul_assoc _ _ _).symm
  have heq : den * c = 2 * (num % den) * c ↔ den = 2 * (num % den) :=
    ⟨fun hc => Nat.eq_of_mul_eq_mul_right h hc, fun hc => congrArg (· * c) hc⟩
  simp only [nearest, Nat.mul_div_mul_right _ _ h, Nat.mul_mod_mul_right, hmod, Nat.mul_lt_mul_right h, heq]

/-- What a number is rounded to, by the digits of its double and their weight. -/
theorem roundedNat_units (hn : n ≠ 0) : roundedNat n * unitsInOne = significand n * 2 ^ (1022 + n.log2) := by
  -- With a variable for its exponent the power is not evaluated.
  obtain ⟨k, hk⟩ : ∃ k, k = 1074 := ⟨_, rfl⟩
  rw [unitsInOne_eq hk]
  rcases Nat.lt_or_ge n (2 ^ 53) with hsmall | hlarge
  · have hlog := log2_lt_of_small hn hsmall
    have hsum : 52 - n.log2 + (1022 + n.log2) = k := by omega
    rw [roundedNat_of_small hsmall, significand_of_small hlog, Nat.mul_assoc, ← Nat.pow_add, hsum]
  · obtain ⟨hrounded, hlog⟩ := roundedNat_of_large hlarge
    have hsum : n.log2 - 52 + k = 1022 + n.log2 := by omega
    rw [hrounded, Nat.mul_assoc, ← Nat.pow_add, hsum]

theorem magnitude_ofNat (negative : Bool) (hlog : n.log2 < 1023) :
    ∃ x, ofNat negative n = .finite x ∧ x.negative = negative ∧ x.magnitude = roundedNat n * unitsInOne := by
  by_cases hn : n = 0
  · refine ⟨.zero negative, by rw [ofNat, if_pos hn], rfl, ?_⟩
    rw [hn, roundedNat_of_small (by decide), Nat.zero_mul]
    rfl
  · obtain ⟨x, hx, hnegative, hexponent, hfraction⟩ := ofNat_eq_finite negative hn hlog
    refine ⟨x, hx, hnegative, ?_⟩
    have hlow := le_significand hn
    have hhigh := significand_le n
    have hcarry : 1 ≤ significand n / fractionCount := (Nat.le_div_iff_mul_le (by decide)).mpr (by omega)
    have hpositive : 1022 + n.log2 + significand n / fractionCount ≠ 0 := by omega
    rw [roundedNat_units hn, FiniteDouble.magnitude, hexponent, hfraction, if_neg hpositive, Nat.shiftLeft_eq]
    have hdigits := Nat.div_add_mod (significand n) fractionCount
    rcases Nat.lt_or_eq_of_le hhigh with hlt | heq
    · have hone : significand n / fractionCount = 1 := by
        have hlt' : significand n / fractionCount < 2 := Nat.div_lt_of_lt_mul (by omega)
        omega
      rw [hone, Nat.mul_one] at hdigits
      rw [hone, hdigits, Nat.add_sub_cancel]
    · rw [heq, Nat.mul_mod_left, Nat.mul_div_cancel 2 (by decide), Nat.add_zero, Nat.mul_comm 2, Nat.mul_assoc,
        ← Nat.pow_succ']
      rfl

/-- The double of a whole number stands for what the number is rounded to. -/
theorem units_ofInt (h : a.natAbs < 2 ^ 64) :
    ∃ x, ofInt a = .finite x ∧ x.negative = decide (a < 0) ∧ x.units = rounded a * unitsInOne := by
  have hlog : a.natAbs.log2 < 1023 := log2_lt_of_words (by omega)
  obtain ⟨x, hx, hnegative, hmagnitude⟩ := magnitude_ofNat (decide (a < 0)) hlog
  refine ⟨x, hx, hnegative, ?_⟩
  rw [FiniteDouble.units, hnegative, hmagnitude, rounded]
  by_cases ha : a < 0
  · rw [decide_eq_true ha, if_pos rfl, if_pos ha, Int.natCast_mul, Int.neg_mul]
  · rw [decide_eq_false ha, if_neg Bool.false_ne_true, if_neg ha, Int.natCast_mul]

theorem log2_units (hn : n ≠ 0) : (n * unitsInOne).log2 = n.log2 + 1074 := by
  obtain ⟨k, hk⟩ : ∃ k, k = 1074 := ⟨_, rfl⟩
  rw [unitsInOne_eq hk, log2_mul_two_pow hn, hk]

/-- A whole number of ones is the same double whether it is counted in ones or in units. -/
theorem ofRatio_units (negative : Bool) (hn : n ≠ 0) : ofRatio negative (n * unitsInOne) 1 = ofNat negative n := by
  obtain ⟨k, hk⟩ : ∃ k, k = 1074 := ⟨_, rfl⟩
  have hshift : n.log2 + 1074 - 52 = 1022 + n.log2 := by omega
  have hnearest : nearest (n * unitsInOne) (1 <<< (1022 + n.log2)) = significand n := by
    rw [significand, unitsInOne_eq hk]
    rcases Nat.le_total n.log2 52 with hlog | hlog
    · have hcut : n.log2 - 52 = 0 := by omega
      have hnum : n * 2 ^ k = n <<< (52 - n.log2) * 2 ^ (1022 + n.log2) := by
        rw [Nat.shiftLeft_eq, Nat.mul_assoc, ← Nat.pow_add]
        congr 2
        omega
      rw [hcut, hnum, Nat.shiftLeft_eq 1, Nat.shiftLeft_zero]
      exact nearest_scale _ 1 (Nat.two_pow_pos _)
    · have hfill : 52 - n.log2 = 0 := by omega
      have hden : 1 <<< (1022 + n.log2) = 1 <<< (n.log2 - 52) * 2 ^ k := by
        rw [Nat.shiftLeft_eq, Nat.shiftLeft_eq, Nat.mul_assoc, ← Nat.pow_add]
        congr 2
        omega
      rw [hfill, hden, Nat.shiftLeft_zero]
      exact nearest_scale _ _ (Nat.two_pow_pos _)
  rw [ofRatio, Nat.div_one, log2_units hn, hshift, hnearest, ofNat, if_neg hn]
  rfl

theorem rounded_neg (h : a < 0) : rounded a < 0 := by
  have hplaces : placeOfInt a < placeOfInt 0 := placeOfInt_lt h (.inr (by decide))
  exact placeOfInt_lt_iff.mp hplaces

/-- Two whole numbers are added as doubles by rounding both of them and then their sum. -/
theorem add_ofInt (ha : a.natAbs < 2 ^ 64) (hb : b.natAbs < 2 ^ 64) :
    (ofInt a).add (ofInt b) = ofInt (rounded a + rounded b) := by
  obtain ⟨x, hx, hnx, hux⟩ := units_ofInt ha
  obtain ⟨y, hy, hny, huy⟩ := units_ofInt hb
  have hpos : 0 < unitsInOne := by decide
  have hsum : x.units + y.units = (rounded a + rounded b) * unitsInOne := by rw [hux, huy, Int.add_mul]
  rw [hx, hy, add, addFinite, hsum]
  by_cases hzero : rounded a + rounded b = 0
  -- Two negative terms have no sum of zero, so it is the positive one.
  · have hsign : (x.negative && y.negative) = false := by
      by_contra hboth
      rw [Bool.not_eq_false, Bool.and_eq_true, hnx, hny, decide_eq_true_eq, decide_eq_true_eq] at hboth
      have hlt := rounded_neg hboth.1
      have hlt' := rounded_neg hboth.2
      omega
    rw [hzero, hsign]
    rfl
  · have hne : (rounded a + rounded b) * unitsInOne ≠ 0 := Int.mul_ne_zero hzero (by omega)
    have hnegative : decide ((rounded a + rounded b) * unitsInOne < 0) = decide (rounded a + rounded b < 0) := by
      have hscaled := Int.mul_lt_mul_right (b := rounded a + rounded b) (c := 0) (Int.natCast_pos.mpr hpos)
      rw [Int.zero_mul] at hscaled
      rw [decide_eq_decide, hscaled]
    have habs : ((rounded a + rounded b) * unitsInOne).natAbs = (rounded a + rounded b).natAbs * unitsInOne := by
      rw [Int.natAbs_mul, Int.natAbs_natCast]
    simp only [hne, if_false, hnegative, habs]
    exact ofRatio_units _ (by omega)

end Double

theorem int64OfInt?_eq_some {i : Int} {k : Int64} : int64OfInt? i = some k ↔ k.toInt = i :=
  ⟨toInt_of_int64OfInt?, fun h => h ▸ int64OfInt?_toInt k⟩

theorem int64OfInt?_eq_none {i : Int} : int64OfInt? i = none ↔ ∀ k : Int64, k.toInt ≠ i := by
  simp only [Option.eq_none_iff_forall_ne_some, ne_eq, int64OfInt?_eq_some]

namespace Table

open Double (rounded)

variable {name column : String} {n : Integer} {amount : Int64}

theorem exists_int64 (h : n.val < 2 ^ 63) : ∃ i : Int64, i.toInt = n.val ∧ n.int64? = some i := by
  have hlower := n.lower
  have hsome : n.int64? = some (.ofInt n.val) := if_pos (by omega)
  exact ⟨_, Integer.toInt_of_int64? hsome, hsome⟩

theorem incremented_large (h : 2 ^ 63 ≤ n.val) :
    ∃ x : FiniteDouble, Double.finite x = .ofInt (rounded n.val + rounded amount.toInt) ∧
      incremented name column (some n.json) amount = .ok (.number (.float x)) := by
  have hnone : (Number.integer n).int64? = none := if_neg (by omega)
  have hamount : amount.toInt.natAbs < 2 ^ 64 := by
    have hl := Int64.le_toInt amount
    have hu := Int64.toInt_lt amount
    omega
  have hn := n.natAbs_lt
  have hsum := Double.add_ofInt hn hamount
  have herror := Double.rounded_error hn
  have herror' := Double.rounded_error hamount
  have hlog : (rounded n.val + rounded amount.toInt).natAbs.log2 < 1023 := Double.log2_lt_of_words (by omega)
  obtain ⟨x, hx, -⟩ := Double.magnitude_ofNat (decide (rounded n.val + rounded amount.toInt < 0)) hlog
  have hfinite : Double.ofInt (rounded n.val + rounded amount.toInt) = .finite x := hx
  refine ⟨x, hfinite.symm, ?_⟩
  rw [Integer.json, incremented_double hnone, Number.toDouble, hsum, hfinite]
  rfl

theorem incremented_eq_ok {i : Int64} (hi : n.int64? = some i) {a : Json} :
    incremented name column (some n.json) amount = .ok a ↔
      ∃ sum : Int64, sum.toInt = i.toInt + amount.toInt ∧ a = .ofInt64 sum := by
  have hheld : (Number.integer n).int64? = some i := hi
  rw [Integer.json, incremented_int64 hheld]
  simp only [← int64OfInt?_eq_some]
  cases int64OfInt? (i.toInt + amount.toInt) <;> simp [eq_comm]

theorem incremented_eq_error {i : Int64} (hi : n.int64? = some i) {e : StoreError} :
    incremented name column (some n.json) amount = .error e ↔
      (∀ sum : Int64, sum.toInt ≠ i.toInt + amount.toInt) ∧ e = .incrementOverflow name column amount i := by
  have hheld : (Number.integer n).int64? = some i := hi
  rw [Integer.json, incremented_int64 hheld, ← int64OfInt?_eq_none]
  cases int64OfInt? (i.toInt + amount.toInt) <;> simp [eq_comm]

/-- An integer below `2 ^ 63` is increased exactly, or not at all if the sum does not fit 64 bits with a sign. One that
is not below is never refused: what comes out is a float, the one nearest to the sum of the two integers as rounded. -/
theorem integer_increased_exactly_or_as_float (name column : String) (n : Integer) (amount : Int64) :
    (n.val < 2 ^ 63 →
      (∀ a, incremented name column (some n.json) amount = .ok a ↔
        ∃ sum : Int64, sum.toInt = n.val + amount.toInt ∧ a = .ofInt64 sum) ∧
      ∀ e, incremented name column (some n.json) amount = .error e ↔
        (∀ sum : Int64, sum.toInt ≠ n.val + amount.toInt) ∧
          ∃ held : Int64, held.toInt = n.val ∧ e = .incrementOverflow name column amount held) ∧
    (2 ^ 63 ≤ n.val → ∃ x : FiniteDouble, Double.finite x = .ofInt (rounded n.val + rounded amount.toInt) ∧
      incremented name column (some n.json) amount = .ok (.number (.float x))) := by
  refine ⟨fun hsmall => ?_, fun hlarge => incremented_large hlarge⟩
  obtain ⟨i, hval, hi⟩ := exists_int64 hsmall
  have honly : ∀ held : Int64, held.toInt = n.val ↔ held = i := by
    intro held
    rw [← hval, Int64.toInt_inj]
  refine ⟨fun a => hval ▸ incremented_eq_ok hi, fun e => ?_⟩
  rw [incremented_eq_error hi, ← hval]
  simp only [hval, honly, exists_eq_left]

/-- An integer that needs all 64 bits, so that it is none with a sign. -/
def unsigned : Integer where
  val := 9223372036854775809
  lower := by decide
  upper := by decide

theorem integer_increased_exactly_or_as_float_unsigned :
    incremented "items" "n" (some (Integer.ofInt64 41).json) 1 = .ok (.ofInt64 42) ∧
    ∃ x : FiniteDouble, incremented "items" "n" (some unsigned.json) 1 = .ok (.number (.float x)) := by
  obtain ⟨hexact, -⟩ := integer_increased_exactly_or_as_float "items" "n" (.ofInt64 41) 1
  obtain ⟨-, hfloat⟩ := integer_increased_exactly_or_as_float "items" "n" unsigned 1
  obtain ⟨x, -, hx⟩ := hfloat (by decide)
  exact ⟨((hexact (by decide)).1 _).mpr ⟨42, by decide, rfl⟩, x, hx⟩

/-- An integer of 64 bits without a sign is increased to a float. -/
theorem unsigned_increased_to_float :
    ¬∀ (name column : String) (n : Integer) (amount : Int64),
      (∃ sum : Integer, sum.val = n.val + amount.toInt ∧
        incremented name column (some n.json) amount = .ok sum.json) ∨
      ∃ e, incremented name column (some n.json) amount = .error e := by
  intro hexact
  obtain ⟨x, -, hx⟩ := @incremented_large "items" "n" unsigned 1 (by decide)
  rcases hexact "items" "n" unsigned 1 with ⟨sum, -, hsum⟩ | ⟨e, he⟩
  · exact Number.noConfusion (Json.number.inj (Except.ok.inj (hx.symm.trans hsum)))
  · cases hx.symm.trans he

end Table

end RowQuery
