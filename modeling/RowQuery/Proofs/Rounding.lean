import RowQuery.Json.Order
import Mathlib.Algebra.Group.Nat.Defs

namespace RowQuery

/-- Two integers compare as the two do that they stand for, if these decide where they lie. -/
theorem compare_congr {a b c d : Int} (hlt : c < d → a < b) (heq : c = d → a = b) (hgt : d < c → b < a) :
    compare a b = compare c d := by
  rcases Int.lt_trichotomy c d with h | h | h
  · rw [Int.compare_eq_lt.mpr h, Int.compare_eq_lt.mpr (hlt h)]
  · rw [Int.compare_eq_eq.mpr h, Int.compare_eq_eq.mpr (heq h)]
  · rw [Int.compare_eq_gt.mpr h, Int.compare_eq_gt.mpr (hgt h)]

namespace Double

/-- The 53 leading binary digits of a whole number, as its double has them. -/
def significand (n : Nat) : Nat := nearest (n <<< (52 - n.log2)) (1 <<< (n.log2 - 52))

/-- The place of the double nearest to a whole number. -/
def placeOfNat (n : Nat) : Nat := if n = 0 then 0 else (1022 + n.log2) * fractionCount + significand n

def placeOfInt (i : Int) : Int := if i < 0 then -placeOfNat i.natAbs else placeOfNat i.natAbs

variable {m n : Nat} {a b : Int}

theorem fractionCount_eq : fractionCount = 2 ^ 52 := rfl

theorem div_le_nearest (num den : Nat) : num / den ≤ nearest num den ∧ nearest num den ≤ num / den + 1 := by
  simp only [nearest]
  split <;> omega

theorem nearest_one (num : Nat) : nearest num 1 = num := by
  unfold nearest
  rw [Nat.div_one, Nat.mod_one]
  simp

theorem log2_lt_of_small (hn : n ≠ 0) (h : n < 2 ^ 53) : n.log2 ≤ 52 := by
  have hlog : n.log2 < 53 := (Nat.log2_lt hn).mpr h
  omega

theorem significand_of_small (hlog : n.log2 ≤ 52) : significand n = n * 2 ^ (52 - n.log2) := by
  have hcut : n.log2 - 52 = 0 := by omega
  rw [significand, hcut, Nat.shiftLeft_zero, nearest_one, Nat.shiftLeft_eq]

theorem le_significand (hn : n ≠ 0) : fractionCount ≤ significand n := by
  have hle := Nat.log2_self_le hn
  rcases Nat.le_total n.log2 52 with hlog | hlog
  · rw [significand_of_small hlog, fractionCount_eq]
    calc 2 ^ 52 = 2 ^ n.log2 * 2 ^ (52 - n.log2) := by rw [← Nat.pow_add]; congr 1; omega
      _ ≤ n * 2 ^ (52 - n.log2) := Nat.mul_le_mul_right _ hle
  · have hfill : 52 - n.log2 = 0 := by omega
    refine Nat.le_trans ?_ (div_le_nearest _ _).1
    rw [hfill, Nat.shiftLeft_zero, Nat.shiftLeft_eq, Nat.one_mul, Nat.le_div_iff_mul_le (Nat.two_pow_pos _),
      fractionCount_eq, ← Nat.pow_add]
    have hsum : 52 + (n.log2 - 52) = n.log2 := by omega
    rwa [hsum]

theorem significand_lt_of_small (hlog : n.log2 ≤ 52) : significand n < 2 * fractionCount := by
  rw [significand_of_small hlog, fractionCount_eq]
  calc n * 2 ^ (52 - n.log2) < 2 ^ (n.log2 + 1) * 2 ^ (52 - n.log2) :=
        Nat.mul_lt_mul_of_pos_right Nat.lt_log2_self (Nat.two_pow_pos _)
    _ = 2 * 2 ^ 52 := by rw [← Nat.pow_add, ← Nat.pow_succ']; congr 1; omega

theorem significand_le (n : Nat) : significand n ≤ 2 * fractionCount := by
  rcases Nat.le_total n.log2 52 with hlog | hlog
  · exact Nat.le_of_lt (significand_lt_of_small hlog)
  · have hfill : 52 - n.log2 = 0 := by omega
    have hlt : n / 2 ^ (n.log2 - 52) < 2 * fractionCount := by
      rw [Nat.div_lt_iff_lt_mul (Nat.two_pow_pos _), fractionCount_eq, ← Nat.pow_succ', ← Nat.pow_add]
      have hsum : 52 + 1 + (n.log2 - 52) = n.log2 + 1 := by omega
      rw [hsum]
      exact Nat.lt_log2_self
    refine Nat.le_trans (div_le_nearest _ _).2 ?_
    rw [hfill, Nat.shiftLeft_zero, Nat.shiftLeft_eq, Nat.one_mul]
    omega

/-- Whole numbers up to `2 ^ 53` have doubles of their own, in their order and before those of all greater ones. -/
theorem placeOfNat_lt (hm : m < 2 ^ 53) (h : m < n) : placeOfNat m < placeOfNat n := by
  have hn : n ≠ 0 := by omega
  have hlow := le_significand hn
  unfold placeOfNat
  rw [if_neg hn]
  by_cases hzero : m = 0
  · rw [if_pos hzero]
    have hpos : 0 < fractionCount := by decide
    omega
  · rw [if_neg hzero]
    have hlogm := log2_lt_of_small hzero hm
    have hlog : m.log2 ≤ n.log2 := (Nat.le_log2 hn).mpr (Nat.le_trans (Nat.log2_self_le hzero) (Nat.le_of_lt h))
    rcases Nat.lt_or_eq_of_le hlog with hlt | heq
    -- A number with more digits stands behind all those with fewer.
    · have hhigh := significand_lt_of_small hlogm
      have hmul : (1022 + m.log2 + 1) * fractionCount ≤ (1022 + n.log2) * fractionCount :=
        Nat.mul_le_mul_right _ (by omega)
      rw [Nat.succ_mul] at hmul
      omega
    · rw [significand_of_small hlogm, significand_of_small (heq ▸ hlogm), heq]
      have hmul : m * 2 ^ (52 - n.log2) < n * 2 ^ (52 - n.log2) :=
        Nat.mul_lt_mul_of_pos_right h (Nat.two_pow_pos _)
      omega

/-- The fields of the double of a whole number. Digits that were rounded up to `2 ^ 53` carry into the exponent. -/
theorem ofNat_eq_finite (negative : Bool) (hn : n ≠ 0) (h : n.log2 < 1023) :
    ∃ x, ofNat negative n = .finite x ∧ x.negative = negative ∧
      x.exponent.val = 1022 + n.log2 + significand n / fractionCount ∧
      x.fraction.val = significand n % fractionCount := by
  have hdiv : significand n / fractionCount ≤ 2 := Nat.div_le_of_le_mul (Nat.mul_comm 2 _ ▸ significand_le n)
  have hfits : 1022 + n.log2 + significand n / fractionCount < 2047 := by omega
  have hof : ofNat negative n = ofScaled negative (significand n) (1022 + n.log2) := if_neg hn
  rw [hof, ofScaled, dif_pos hfits]
  exact ⟨_, rfl, rfl, rfl, rfl⟩

theorem place?_ofNat (negative : Bool) (h : n.log2 < 1023) :
    (ofNat negative n).place? = some (if negative then -(placeOfNat n : Int) else placeOfNat n) := by
  by_cases hn : n = 0
  · rw [ofNat, placeOfNat, if_pos hn, if_pos hn]
    cases negative <;> rfl
  · obtain ⟨x, hx, hnegative, hexponent, hfraction⟩ := ofNat_eq_finite negative hn h
    have hcode : x.code = placeOfNat n := by
      rw [FiniteDouble.code, hexponent, hfraction, placeOfNat, if_neg hn, Nat.add_mul, Nat.add_assoc,
        Nat.mul_comm (significand n / fractionCount), Nat.div_add_mod]
    rw [hx, place?, FiniteDouble.rank, hnegative, hcode]

theorem log2_lt_of_words (h : n < 2 ^ 66) : n.log2 < 1023 := by
  by_cases hzero : n = 0
  · rw [hzero]
    decide
  · have hlt : n.log2 < 66 := (Nat.log2_lt hzero).mpr h
    omega

theorem place?_ofInt (h : a.natAbs < 2 ^ 64) : (ofInt a).place? = some (placeOfInt a) := by
  rw [ofInt, place?_ofNat _ (log2_lt_of_words (by omega)), placeOfInt]
  simp

theorem placeOfInt_lt (h : a < b) (hsmall : a.natAbs < 2 ^ 53 ∨ b.natAbs < 2 ^ 53) : placeOfInt a < placeOfInt b := by
  unfold placeOfInt
  by_cases ha : a < 0
  · by_cases hb : b < 0
    · have hlt := @placeOfNat_lt b.natAbs a.natAbs (by omega) (by omega)
      rw [if_pos ha, if_pos hb]
      omega
    · have hpos := @placeOfNat_lt 0 a.natAbs (by decide) (by omega)
      rw [if_pos ha, if_neg hb]
      omega
  · have hlt := @placeOfNat_lt a.natAbs b.natAbs (by omega) (by omega)
    rw [if_neg ha, if_neg (by omega)]
    omega

/-- A whole number below `2 ^ 53` is compared exactly with every other one. -/
theorem compare?_ofInt (ha : a.natAbs < 2 ^ 53) (hb : b.natAbs < 2 ^ 64) :
    (ofInt a).compare? (ofInt b) = some (compare a b) := by
  rw [compare?, place?_ofInt (by omega), place?_ofInt hb]
  refine congrArg some (compare_congr ?_ (congrArg placeOfInt) ?_)
  · exact fun hlt => placeOfInt_lt hlt (.inl ha)
  · exact fun hgt => placeOfInt_lt hgt (.inr ha)

end Double

theorem Integer.natAbs_lt (i : Integer) : i.val.natAbs < 2 ^ 64 := by
  have hl := i.lower
  have hu := i.upper
  omega

namespace Json

theorem equal_integer {i j : Integer} (h : i.val.natAbs < 2 ^ 53) :
    (number (.integer i)).equal (number (.integer j)) = decide (i = j) := by
  show ((Double.ofInt i.val).compare? (Double.ofInt j.val) == some .eq) = decide (i = j)
  rw [Double.compare?_ofInt h j.natAbs_lt, Bool.eq_iff_iff, beq_iff_eq, decide_eq_true_eq, Option.some_inj,
    Int.compare_eq_eq]
  cases i
  cases j
  simp

end Json

end RowQuery
