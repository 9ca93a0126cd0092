import RowQuery.Proofs.Rounding

namespace RowQuery.Double

/-- A whole number whose binary digits behind the first 53 are zeros. -/
def Exact (n : Nat) : Prop := 2 ^ (n.log2 - 52) ∣ n

instance (n : Nat) : Decidable (Exact n) := inferInstanceAs (Decidable (_ ∣ _))

/-- A whole number rounded to its first 53 binary digits. -/
def roundedNat (n : Nat) : Nat := if n < 2 ^ 53 then n else nearest n (2 ^ (n.log2 - 52)) * 2 ^ (n.log2 - 52)

def rounded (i : Int) : Int := if i < 0 then -roundedNat i.natAbs else roundedNat i.natAbs

variable {m n num num' den : Nat} {a b : Int}

theorem nearest_mul (q : Nat) (h : 0 < den) : nearest (q * den) den = q := by
  have hne : den ≠ 0 := Nat.ne_of_gt h
  rw [nearest, Nat.mul_div_cancel q h, Nat.mul_mod_left]
  simp [hne]

theorem nearest_mono (h : num ≤ num') : nearest num den ≤ nearest num' den := by
  rcases Nat.lt_or_eq_of_le (Nat.div_le_div_right (c := den) h) with hlt | heq
  · exact Nat.le_trans (div_le_nearest num den).2 (Nat.le_trans hlt (div_le_nearest num' den).1)
  -- With one quotient the greater number has the greater remainder.
  · have hnum := Nat.div_add_mod num den
    have hnum' := Nat.div_add_mod num' den
    rw [heq] at hnum
    have hmod : num % den ≤ num' % den := by omega
    simp only [nearest, heq]
    split <;> split <;> omega

/-- A rounded quotient misses the exact one by a half at most. -/
theorem nearest_error (num : Nat) (h : 0 < den) :
    2 * num ≤ 2 * (nearest num den * den) + den ∧ 2 * (nearest num den * den) ≤ 2 * num + den := by
  have hnum := Nat.div_add_mod num den
  have hlt := Nat.mod_lt num h
  rw [Nat.mul_comm] at hnum
  simp only [nearest]
  split
  · rw [Nat.add_mul, Nat.one_mul]
    omega
  · omega

theorem significand_of_large (hlog : 52 ≤ n.log2) : significand n = nearest n (2 ^ (n.log2 - 52)) := by
  have hfill : 52 - n.log2 = 0 := by omega
  rw [significand, hfill, Nat.shiftLeft_zero, Nat.shiftLeft_eq, Nat.one_mul]

theorem significand_mono (hlog : m.log2 = n.log2) (h : m ≤ n) : significand m ≤ significand n := by
  rw [significand, significand, hlog, Nat.shiftLeft_eq m, Nat.shiftLeft_eq n]
  exact nearest_mono (Nat.mul_le_mul_right _ h)

theorem log2_le_log2 (hm : m ≠ 0) (h : m ≤ n) : m.log2 ≤ n.log2 :=
  (Nat.le_log2 (by omega)).mpr (Nat.le_trans (Nat.log2_self_le hm) h)

theorem placeOfNat_mono (h : m ≤ n) : placeOfNat m ≤ placeOfNat n := by
  unfold placeOfNat
  by_cases hm : m = 0
  · rw [if_pos hm]
    exact Nat.zero_le _
  · have hn : n ≠ 0 := by omega
    rw [if_neg hm, if_neg hn]
    rcases Nat.lt_or_eq_of_le (log2_le_log2 hm h) with hlt | heq
    · have hhigh := significand_le m
      have hlow := le_significand hn
      have hmul : (1022 + m.log2 + 1) * fractionCount ≤ (1022 + n.log2) * fractionCount :=
        Nat.mul_le_mul_right _ (by omega)
      rw [Nat.succ_mul] at hmul
      omega
    · rw [heq]
      exact Nat.add_le_add_left (significand_mono heq h) _

/-- An exact number loses nothing when its digits are cut to those of its double. -/
theorem significand_of_exact (h : Exact n) : significand n * 2 ^ (n.log2 - 52) = n * 2 ^ (52 - n.log2) := by
  rcases Nat.le_total n.log2 52 with hlog | hlog
  · have hcut : n.log2 - 52 = 0 := by omega
    rw [significand_of_small hlog, hcut, Nat.pow_zero, Nat.mul_one]
  · have hfill : 52 - n.log2 = 0 := by omega
    obtain ⟨q, hq⟩ := h
    rw [Nat.mul_comm] at hq
    have hnearest : nearest n (2 ^ (n.log2 - 52)) = q := by
      have hmul := nearest_mul q (Nat.two_pow_pos (n.log2 - 52))
      rwa [← hq] at hmul
    rw [significand_of_large hlog, hfill, Nat.pow_zero, Nat.mul_one, hnearest, ← hq]

theorem significand_lt_of_exact (h : Exact n) : significand n < 2 * fractionCount := by
  refine Nat.lt_of_mul_lt_mul_right (a := 2 ^ (n.log2 - 52)) ?_
  rw [significand_of_exact h, fractionCount_eq]
  calc n * 2 ^ (52 - n.log2) < 2 ^ (n.log2 + 1) * 2 ^ (52 - n.log2) :=
        Nat.mul_lt_mul_of_pos_right Nat.lt_log2_self (Nat.two_pow_pos _)
    _ = 2 * 2 ^ 52 * 2 ^ (n.log2 - 52) := by
        rw [← Nat.pow_succ', ← Nat.pow_add, ← Nat.pow_add]
        congr 1
        omega

/-- Exact numbers have doubles of their own, in their order. -/
theorem placeOfNat_lt_of_exact (hm : Exact m) (hn : Exact n) (h : m < n) : placeOfNat m < placeOfNat n := by
  by_cases hzero : m = 0
  · exact placeOfNat_lt (by omega) h
  · have hne : n ≠ 0 := by omega
    rw [placeOfNat, placeOfNat, if_neg hzero, if_neg hne]
    rcases Nat.lt_or_eq_of_le (log2_le_log2 hzero (Nat.le_of_lt h)) with hlt | heq
    · have hhigh := significand_lt_of_exact hm
      have hlow := le_significand hne
      have hmul : (1022 + m.log2 + 1) * fractionCount ≤ (1022 + n.log2) * fractionCount :=
        Nat.mul_le_mul_right _ (by omega)
      rw [Nat.succ_mul] at hmul
      omega
    · have hdigits : significand m < significand n := by
        refine Nat.lt_of_mul_lt_mul_right (a := 2 ^ (n.log2 - 52)) ?_
        rw [significand_of_exact hn, ← heq, significand_of_exact hm]
        exact Nat.mul_lt_mul_of_pos_right h (Nat.two_pow_pos _)
      rw [heq]
      omega

theorem exact_of_small (h : n < 2 ^ 53) : Exact n := by
  have hcut : n.log2 - 52 = 0 := by
    by_cases hzero : n = 0
    · rw [hzero]
      decide
    · have hlog := log2_lt_of_small hzero h
      omega
  rw [Exact, hcut]
  exact Nat.one_dvd n

theorem log2_mul_two_pow (hn : n ≠ 0) (k : Nat) : (n * 2 ^ k).log2 = n.log2 + k := by
  have hne : n * 2 ^ k ≠ 0 := Nat.mul_ne_zero hn (Nat.ne_of_gt (Nat.two_pow_pos k))
  refine (Nat.log2_eq_iff hne).mpr ⟨?_, ?_⟩
  · rw [Nat.pow_add]
    exact Nat.mul_le_mul_right _ (Nat.log2_self_le hn)
  · rw [Nat.add_right_comm, Nat.pow_add]
    exact Nat.mul_lt_mul_of_pos_right Nat.lt_log2_self (Nat.two_pow_pos k)

theorem log2_of_digits {g e : Nat} (hlow : 2 ^ 52 ≤ g) (hhigh : g < 2 ^ 53) : (g * 2 ^ e).log2 = 52 + e := by
  have hg : g ≠ 0 := by omega
  rw [log2_mul_two_pow hg, (Nat.log2_eq_iff hg).mpr ⟨hlow, hhigh⟩]

theorem exact_of_digits {g : Nat} (e : Nat) (hlow : 2 ^ 52 ≤ g) (hhigh : g ≤ 2 ^ 53) : Exact (g * 2 ^ e) := by
  rcases Nat.lt_or_eq_of_le hhigh with hlt | rfl
  · rw [Exact, log2_of_digits hlow hlt, Nat.add_sub_cancel_left]
    exact Nat.dvd_mul_left _ _
  · rw [Exact, ← Nat.pow_add, Nat.log2_two_pow]
    exact Nat.pow_dvd_pow 2 (by omega)

theorem roundedNat_of_small (h : n < 2 ^ 53) : roundedNat n = n := if_pos h

theorem roundedNat_of_large (h : 2 ^ 53 ≤ n) : roundedNat n = significand n * 2 ^ (n.log2 - 52) ∧ 52 < n.log2 := by
  have hlog : 53 ≤ n.log2 := (Nat.le_log2 (by omega)).mpr h
  rw [roundedNat, if_neg (by omega), significand_of_large (by omega)]
  exact ⟨rfl, by omega⟩

theorem exact_roundedNat (n : Nat) : Exact (roundedNat n) := by
  rcases Nat.lt_or_ge n (2 ^ 53) with hsmall | hlarge
  · rw [roundedNat_of_small hsmall]
    exact exact_of_small hsmall
  · rw [(roundedNat_of_large hlarge).1]
    exact exact_of_digits _ (le_significand (by omega)) (significand_le n)

/-- A number has the double of what it is rounded to. -/
theorem placeOfNat_roundedNat (n : Nat) : placeOfNat (roundedNat n) = placeOfNat n := by
  rcases Nat.lt_or_ge n (2 ^ 53) with hsmall | hlarge
  · rw [roundedNat_of_small hsmall]
  · obtain ⟨hrounded, hlog⟩ := roundedNat_of_large hlarge
    have hn : n ≠ 0 := by omega
    have hlow := le_significand hn
    have hpos : roundedNat n ≠ 0 := by
      rw [hrounded]
      exact Nat.mul_ne_zero (by rw [fractionCount_eq] at hlow; omega) (Nat.ne_of_gt (Nat.two_pow_pos _))
    have hdigits := significand_of_exact (exact_roundedNat n)
    rw [placeOfNat, placeOfNat, if_neg hn, if_neg hpos]
    rcases Nat.lt_or_eq_of_le (significand_le n) with hlt | heq
    · have hlog' : (roundedNat n).log2 = n.log2 := by
        rw [hrounded, log2_of_digits hlow hlt]
        omega
      have hfill : 52 - n.log2 = 0 := by omega
      rw [hlog', hfill, Nat.pow_zero, Nat.mul_one, hrounded] at hdigits
      rw [hlog', hrounded, Nat.eq_of_mul_eq_mul_right (Nat.two_pow_pos _) hdigits]
    -- Rounded up to `2 ^ 53`, the digits carry into the exponent.
    · have hlog' : (roundedNat n).log2 = n.log2 + 1 := by
        rw [hrounded, heq, fractionCount_eq, ← Nat.pow_succ', ← Nat.pow_add, Nat.log2_two_pow]
        omega
      have hfill : 52 - (n.log2 + 1) = 0 := by omega
      have hcut : n.log2 + 1 - 52 = n.log2 - 52 + 1 := by omega
      have hcarry : significand (roundedNat n) * 2 ^ (n.log2 - 52 + 1) = fractionCount * 2 ^ (n.log2 - 52 + 1) := by
        rw [hlog', hfill, Nat.pow_zero, Nat.mul_one, hcut] at hdigits
        rw [hdigits, hrounded, heq, Nat.pow_succ', ← Nat.mul_assoc, Nat.mul_comm fractionCount 2]
      rw [hlog', Nat.eq_of_mul_eq_mul_right (Nat.two_pow_pos _) hcarry, heq, ← Nat.add_assoc, Nat.succ_mul]
      omega

theorem placeOfNat_lt_iff : placeOfNat m < placeOfNat n ↔ roundedNat m < roundedNat n := by
  constructor
  · intro h
    refine Nat.lt_of_not_le fun hle => ?_
    have hplaces := placeOfNat_mono hle
    rw [placeOfNat_roundedNat, placeOfNat_roundedNat] at hplaces
    omega
  · intro h
    have hlt := placeOfNat_lt_of_exact (exact_roundedNat m) (exact_roundedNat n) h
    rwa [placeOfNat_roundedNat, placeOfNat_roundedNat] at hlt

theorem roundedNat_mono (h : m ≤ n) : roundedNat m ≤ roundedNat n := by
  have hplaces := placeOfNat_mono h
  refine Nat.le_of_not_lt fun hlt => ?_
  have hswapped := placeOfNat_lt_iff.mpr hlt
  omega

theorem roundedNat_eq_self : roundedNat n = n ↔ Exact n := by
  constructor
  · intro h
    exact h ▸ exact_roundedNat n
  · intro h
    rcases Nat.lt_or_ge n (2 ^ 53) with hsmall | hlarge
    · exact roundedNat_of_small hsmall
    · obtain ⟨hrounded, hlog⟩ := roundedNat_of_large hlarge
      have hfill : 52 - n.log2 = 0 := by omega
      rw [hrounded, significand_of_exact h, hfill, Nat.pow_zero, Nat.mul_one]

theorem roundedNat_error (h : n < 2 ^ 64) : roundedNat n ≤ n + 1024 ∧ n ≤ roundedNat n + 1024 := by
  rcases Nat.lt_or_ge n (2 ^ 53) with hsmall | hlarge
  · rw [roundedNat_of_small hsmall]
    omega
  · obtain ⟨hrounded, hlog⟩ := roundedNat_of_large hlarge
    have hlog' : n.log2 < 64 := (Nat.log2_lt (by omega)).mpr h
    have hpow : 2 ^ (n.log2 - 52) ≤ 2 ^ 11 := Nat.pow_le_pow_right (by decide) (by omega)
    obtain ⟨hbelow, habove⟩ := nearest_error n (Nat.two_pow_pos (n.log2 - 52))
    rw [hrounded, significand_of_large (Nat.le_of_lt hlog)]
    omega

theorem placeOfInt_lt_iff : placeOfInt a < placeOfInt b ↔ rounded a < rounded b := by
  have hpositive : ∀ n ≠ 0, 0 < placeOfNat n ∧ 0 < roundedNat n := by
    intro n hn
    have hplace : placeOfNat 0 < placeOfNat n := placeOfNat_lt (by decide) (by omega)
    have hrounded := placeOfNat_lt_iff.mp hplace
    exact ⟨by omega, by omega⟩
  have hab := @placeOfNat_lt_iff a.natAbs b.natAbs
  have hba := @placeOfNat_lt_iff b.natAbs a.natAbs
  unfold placeOfInt rounded
  by_cases ha : a < 0 <;> by_cases hb : b < 0
  · rw [if_pos ha, if_pos hb, if_pos ha, if_pos hb]
    omega
  · have hpos := hpositive a.natAbs (by omega)
    rw [if_pos ha, if_neg hb, if_pos ha, if_neg hb]
    omega
  · have hpos := hpositive b.natAbs (by omega)
    rw [if_neg ha, if_pos hb, if_neg ha, if_pos hb]
    omega
  · rw [if_neg ha, if_neg hb, if_neg ha, if_neg hb]
    omega

/-- Whole numbers of up to 64 binary digits are compared as what they are rounded to. -/
theorem compare?_rounded (ha : a.natAbs < 2 ^ 64) (hb : b.natAbs < 2 ^ 64) :
    (ofInt a).compare? (ofInt b) = some (compare (rounded a) (rounded b)) := by
  have hab := @placeOfInt_lt_iff a b
  have hba := @placeOfInt_lt_iff b a
  rw [compare?, place?_ofInt ha, place?_ofInt hb]
  exact congrArg some (compare_congr hab.mpr (by omega) hba.mpr)

theorem rounded_mono (h : a ≤ b) : rounded a ≤ rounded b := by
  unfold rounded
  by_cases ha : a < 0 <;> by_cases hb : b < 0
  · have hmono := @roundedNat_mono b.natAbs a.natAbs (by omega)
    rw [if_pos ha, if_pos hb]
    omega
  · rw [if_pos ha, if_neg hb]
    omega
  · omega
  · have hmono := @roundedNat_mono a.natAbs b.natAbs (by omega)
    rw [if_neg ha, if_neg hb]
    omega

theorem rounded_eq_self : rounded a = a ↔ Exact a.natAbs := by
  rw [← roundedNat_eq_self, rounded]
  split <;> omega

theorem rounded_of_small (h : a.natAbs < 2 ^ 53) : rounded a = a := rounded_eq_self.mpr (exact_of_small h)

theorem rounded_error (h : a.natAbs < 2 ^ 64) : (rounded a - a).natAbs ≤ 1024 := by
  have hbound := roundedNat_error h
  rw [rounded]
  split <;> omega

end RowQuery.Double
