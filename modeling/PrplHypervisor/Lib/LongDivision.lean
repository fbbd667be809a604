import Mathlib.Algebra.Order.Ring.Int
import Mathlib.Tactic.Ring

/-! Division by shifting and subtracting, on naturals, and the truncated division of integers by its
defining equations. -/

namespace Lib.LongDivision

/-- `k` rounds of restoring division by `d`: round `j`, from `k - 1` down to 0, tries `d * 2 ^ j`
and adds `2 ^ j` to the quotient.  The result is the quotient and what is left of the dividend. -/
def shiftSubtract (d : ℕ) : ℕ → ℕ → ℕ → ℕ × ℕ
  | 0, num, quot => (quot, num)
  | k + 1, num, quot =>
    if d * 2 ^ k ≤ num then shiftSubtract d k (num - d * 2 ^ k) (quot + 2 ^ k)
    else shiftSubtract d k num quot

/-- With enough rounds for the dividend, they divide it. -/
theorem shiftSubtract_eq {d k num : ℕ} (quot : ℕ) (h : num < d * 2 ^ k) :
    shiftSubtract d k num quot = (quot + num / d, num % d) := by
  induction k generalizing num quot with
  | zero =>
    rw [pow_zero, Nat.mul_one] at h
    rw [shiftSubtract, Nat.div_eq_of_lt h, Nat.mod_eq_of_lt h, Nat.add_zero]
  | succ k ih =>
    rw [pow_succ, ← Nat.mul_assoc] at h
    rw [shiftSubtract]
    by_cases hle : d * 2 ^ k ≤ num
    · have hd : 0 < d := by
        by_contra h0
        simp [Nat.eq_zero_of_not_pos h0] at h
      have hsplit : num = num - d * 2 ^ k + d * 2 ^ k := (Nat.sub_add_cancel hle).symm
      have hdiv : num / d = (num - d * 2 ^ k) / d + 2 ^ k := by
        conv_lhs => rw [hsplit]
        exact Nat.add_mul_div_left _ _ hd
      have hmod : num % d = (num - d * 2 ^ k) % d := by
        conv_lhs => rw [hsplit]
        exact Nat.add_mul_mod_self_left _ _ _
      rw [if_pos hle, ih _ (by omega), hdiv, hmod, Nat.add_assoc, Nat.add_comm (2 ^ k)]
    · rw [if_neg hle, ih _ (by omega)]

/-- `q` and `r` are the quotient and the remainder of `num` by `den`, rounded towards zero. -/
structure Truncated (num den q r : ℤ) : Prop where
  exact : num = q * den + r
  small : |r| < |den|
  sign : r = 0 ∨ r.sign = num.sign

theorem truncated_tdiv_tmod (num : ℤ) {den : ℤ} (hden : den ≠ 0) :
    Truncated num den (num.tdiv den) (num.tmod den) := by
  refine ⟨(Int.tdiv_mul_add_tmod num den).symm, ?_, ?_⟩
  · rw [Int.abs_eq_natAbs, Int.abs_eq_natAbs, Int.natAbs_tmod]
    exact_mod_cast Nat.mod_lt _ (Int.natAbs_pos.mpr hden)
  · rw [Int.sign_tmod]
    by_cases hdvd : den ∣ num
    · exact .inl (Int.tmod_eq_zero_of_dvd hdvd)
    · exact .inr (if_neg hdvd)

theorem Truncated.sign_nonneg {num den q r : ℤ} (h : Truncated num den q r) (hnum : 0 ≤ num) :
    0 ≤ r := by
  obtain h0 | hsign := h.sign
  · exact h0.ge
  · rw [← Int.sign_nonneg_iff, hsign]
    exact Int.sign_nonneg_iff.mpr hnum

theorem Truncated.sign_nonpos {num den q r : ℤ} (h : Truncated num den q r) (hnum : num ≤ 0) :
    r ≤ 0 := by
  obtain h0 | hsign := h.sign
  · exact h0.le
  · rw [← Int.sign_nonpos_iff, hsign]
    exact Int.sign_nonpos_iff.mpr hnum

/-- The equations have no other solution. -/
theorem truncated_iff {num den q r : ℤ} (hden : den ≠ 0) :
    Truncated num den q r ↔ q = num.tdiv den ∧ r = num.tmod den := by
  constructor
  · intro h
    have hexact : r + den * q = num := by
      rw [h.exact, Int.mul_comm den, Int.add_comm]
    have hsmall : (r.natAbs : ℤ) < den.natAbs := by
      rw [← Int.abs_eq_natAbs, ← Int.abs_eq_natAbs]
      exact h.small
    rcases le_total 0 num with hnum | hnum
    · have hr := h.sign_nonneg hnum
      obtain ⟨hq, hr⟩ := (Int.tdiv_tmod_unique hnum hden).mpr ⟨hexact, hr, by omega⟩
      exact ⟨hq.symm, hr.symm⟩
    · have hr := h.sign_nonpos hnum
      obtain ⟨hq, hr⟩ := (Int.tdiv_tmod_unique' hnum hden).mpr ⟨hexact, by omega, hr⟩
      exact ⟨hq.symm, hr.symm⟩
  · rintro ⟨rfl, rfl⟩
    exact truncated_tdiv_tmod num hden

/-- The truncated quotient from that of the magnitudes. -/
theorem tdiv_eq_natAbs (a b : ℤ) :
    a.tdiv b = if (decide (a < 0)).xor (decide (b < 0)) then -((a.natAbs / b.natAbs : ℕ) : ℤ)
      else ((a.natAbs / b.natAbs : ℕ) : ℤ) := by
  rw [Int.ofNat_tdiv]
  rcases lt_or_ge a 0 with ha | ha <;> rcases lt_or_ge b 0 with hb | hb
  · simp [ha, hb, Int.ofNat_natAbs_of_nonpos ha.le, Int.ofNat_natAbs_of_nonpos hb.le]
  · simp [ha, hb.not_gt, Int.ofNat_natAbs_of_nonpos ha.le, Int.natAbs_of_nonneg hb]
  · simp [ha.not_gt, hb, Int.natAbs_of_nonneg ha, Int.ofNat_natAbs_of_nonpos hb.le]
  · simp [ha.not_gt, hb.not_gt, Int.natAbs_of_nonneg ha, Int.natAbs_of_nonneg hb]

/-- The truncated remainder from that of the magnitudes. -/
theorem tmod_eq_natAbs (a b : ℤ) :
    a.tmod b = if a < 0 then -((a.natAbs % b.natAbs : ℕ) : ℤ)
      else ((a.natAbs % b.natAbs : ℕ) : ℤ) := by
  rw [Int.ofNat_tmod]
  rcases lt_or_ge a 0 with ha | ha <;> rcases lt_or_ge b 0 with hb | hb
  · simp [ha, Int.ofNat_natAbs_of_nonpos ha.le, Int.ofNat_natAbs_of_nonpos hb.le]
  · simp [ha, Int.ofNat_natAbs_of_nonpos ha.le, Int.natAbs_of_nonneg hb]
  · simp [ha.not_gt, Int.natAbs_of_nonneg ha, Int.ofNat_natAbs_of_nonpos hb.le]
  · simp [ha.not_gt, Int.natAbs_of_nonneg ha, Int.natAbs_of_nonneg hb]

end Lib.LongDivision
