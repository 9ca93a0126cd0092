import RowQuery.Proofs.Rounding

namespace RowQuery

namespace FiniteDouble

variable {x y : FiniteDouble}

/-- All doubles of an exponent are below the least one of the next exponent. -/
theorem magnitude_lt (x : FiniteDouble) : x.magnitude < fractionCount * 2 ^ x.exponent.val := by
  have hfraction := x.fraction.isLt
  unfold magnitude
  by_cases hzero : x.exponent.val = 0
  · rw [if_pos hzero, hzero, Nat.pow_zero, Nat.mul_one]
    exact hfraction
  · rw [if_neg hzero, Nat.shiftLeft_eq]
    calc (fractionCount + x.fraction.val) * 2 ^ (x.exponent.val - 1)
        < fractionCount * 2 * 2 ^ (x.exponent.val - 1) :=
          Nat.mul_lt_mul_of_pos_right (by omega) (Nat.two_pow_pos _)
      _ = fractionCount * 2 ^ x.exponent.val := by
          rw [Nat.mul_assoc, ← Nat.pow_succ', Nat.succ_eq_add_one, Nat.sub_add_cancel (Nat.pos_of_ne_zero hzero)]

theorem le_magnitude (h : x.exponent.val ≠ 0) : fractionCount * 2 ^ (x.exponent.val - 1) ≤ x.magnitude := by
  rw [magnitude, if_neg h, Nat.shiftLeft_eq]
  exact Nat.mul_le_mul_right _ (Nat.le_add_right _ _)

theorem exponent_le (h : x.code ≤ y.code) : x.exponent.val ≤ y.exponent.val := by
  refine Nat.le_of_not_lt fun hlt => ?_
  have hfraction := y.fraction.isLt
  have hmul : (y.exponent.val + 1) * fractionCount ≤ x.exponent.val * fractionCount := Nat.mul_le_mul_right _ hlt
  rw [Nat.succ_mul] at hmul
  unfold code at h
  omega

/-- A greater code stands for a greater number. -/
theorem magnitude_lt_magnitude (h : x.code < y.code) : x.magnitude < y.magnitude := by
  rcases Nat.lt_or_eq_of_le (exponent_le (Nat.le_of_lt h)) with hlt | heq
  · calc x.magnitude < fractionCount * 2 ^ x.exponent.val := x.magnitude_lt
      _ ≤ fractionCount * 2 ^ (y.exponent.val - 1) :=
          Nat.mul_le_mul_left _ (Nat.pow_le_pow_right (by decide) (Nat.le_sub_one_of_lt hlt))
      _ ≤ y.magnitude := le_magnitude (Nat.ne_zero_of_lt hlt)
  · rw [code, code, heq] at h
    have hfraction : x.fraction.val < y.fraction.val := Nat.lt_of_add_lt_add_left h
    rw [magnitude, magnitude, heq]
    split
    · exact hfraction
    · rw [Nat.shiftLeft_eq, Nat.shiftLeft_eq]
      exact Nat.mul_lt_mul_of_pos_right (Nat.add_lt_add_left hfraction _) (Nat.two_pow_pos _)

theorem magnitude_eq_magnitude (h : x.code = y.code) : x.magnitude = y.magnitude := by
  have hexponent := Nat.le_antisymm (exponent_le (Nat.le_of_eq h)) (exponent_le (Nat.le_of_eq h.symm))
  rw [code, code, hexponent] at h
  rw [magnitude, magnitude, hexponent, Nat.add_left_cancel h]

theorem code_lt_iff : x.code < y.code ↔ x.magnitude < y.magnitude := by
  refine ⟨magnitude_lt_magnitude, fun h => Nat.lt_of_not_le fun hle => ?_⟩
  rcases Nat.lt_or_eq_of_le hle with hlt | heq
  · exact Nat.lt_asymm h (magnitude_lt_magnitude hlt)
  · exact Nat.ne_of_gt h (magnitude_eq_magnitude heq)

theorem rank_lt_iff : x.rank < y.rank ↔ x.units < y.units := by
  have hxy := @code_lt_iff x y
  have hyx := @code_lt_iff y x
  have hx := @code_lt_iff (zero false) x
  have hy := @code_lt_iff (zero false) y
  have hcode : (zero false).code = 0 := rfl
  have hmagnitude : (zero false).magnitude = 0 := rfl
  -- Doubles of different signs are told apart by which of them is a zero.
  rw [hcode, hmagnitude] at hx hy
  unfold rank units
  cases x.negative <;> cases y.negative <;> simp only [Bool.false_eq_true, if_true, if_false] <;> omega

/-- Finite doubles are ranked as the numbers they stand for. -/
theorem compare_rank (x y : FiniteDouble) : compare x.rank y.rank = compare x.units y.units := by
  have hxy := @rank_lt_iff x y
  have hyx := @rank_lt_iff y x
  exact compare_congr hxy.mpr (by omega) hyx.mpr

end FiniteDouble

theorem Integer.toDouble_finite (i : Integer) : ∃ x, Double.ofInt i.val = .finite x := by
  have hsize := i.natAbs_lt
  by_cases hzero : i.val.natAbs = 0
  · exact ⟨_, if_pos hzero⟩
  · obtain ⟨x, hx, -⟩ := Double.ofNat_eq_finite (decide (i.val < 0)) hzero (Double.log2_lt_of_words (by omega))
    exact ⟨x, hx⟩

end RowQuery
