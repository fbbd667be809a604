import Mathlib.Algebra.Order.Floor.Semifield
import Mathlib.Data.Nat.Size
import Mathlib.Data.Rat.Floor
import Mathlib.Tactic.Ring

/-! Binary floating-point numbers: a natural cut to its leading bits, and the interchange formats,
in which a sign, an exponent and a fraction stand for a number. -/

namespace Lib.Floats

/-! ### Leading bits -/

variable {p m : ℕ}

/-- `m` with its `p` leading bits, and zeros below them. -/
def truncate (p m : ℕ) : ℕ := m / 2 ^ (m.size - p) * 2 ^ (m.size - p)

/-- The leading bits of `m`, shifted so that they are `p` bits. -/
def leadingBits (p m : ℕ) : ℕ := m / 2 ^ (m.size - p) * 2 ^ (p - m.size)

theorem truncate_eq_self_iff : truncate p m = m ↔ 2 ^ (m.size - p) ∣ m :=
  Nat.dvd_iff_div_mul_eq m _ |>.symm

/-- Up to `2 ^ p` nothing is cut. -/
theorem truncate_of_le (hp : 0 < p) (h : m ≤ 2 ^ p) : truncate p m = m := by
  rw [truncate_eq_self_iff]
  rcases Nat.lt_or_eq_of_le h with hlt | rfl
  · rw [Nat.sub_eq_zero_of_le (Nat.size_le.mpr hlt), pow_zero]
    exact one_dvd m
  · rw [Nat.size_pow, Nat.add_sub_cancel_left]
    exact pow_dvd_pow 2 hp

theorem size_mul_two_pow (hm : m ≠ 0) (k : ℕ) : (m * 2 ^ k).size = m.size + k := by
  rw [← Nat.shiftLeft_eq, Nat.size_shiftLeft hm]

theorem size_div_two_pow (m k : ℕ) : (m / 2 ^ k).size = m.size - k := by
  refine eq_of_forall_ge_iff fun n => ?_
  rw [Nat.size_le, Nat.div_lt_iff_lt_mul (Nat.two_pow_pos k), ← pow_add, ← Nat.size_le,
    Nat.sub_le_iff_le_add]

theorem size_leadingBits (hp : 0 < p) (hm : m ≠ 0) : (leadingBits p m).size = p := by
  have hsize := Nat.size_pos.mpr (Nat.pos_of_ne_zero hm)
  have hdiv := size_div_two_pow m (m.size - p)
  have hne : m / 2 ^ (m.size - p) ≠ 0 := by
    intro h0
    rw [h0, Nat.size_zero] at hdiv
    omega
  rw [leadingBits, size_mul_two_pow hne, hdiv]
  omega

/-- The leading bits have the place that the exponent gives them. -/
theorem leadingBits_mul (p m : ℕ) : leadingBits p m * 2 ^ m.size = truncate p m * 2 ^ p := by
  rw [leadingBits, truncate, Nat.mul_assoc, Nat.mul_assoc, ← pow_add, ← pow_add]
  congr 2
  omega

/-! ### Formats -/

/-- The fields of a number in the format with `w` bits of exponent and `f` bits of fraction. -/
structure Fields (w f : ℕ) where
  sign : Bool
  exponent : Fin (2 ^ w)
  fraction : Fin (2 ^ f)

def bias (w : ℕ) : ℕ := 2 ^ (w - 1) - 1

variable {w f : ℕ}

/-- The fields as one word: the fraction in the low bits, the sign on top. -/
def Fields.bits (x : Fields w f) : ℕ := (x.sign.toNat * 2 ^ w + x.exponent) * 2 ^ f + x.fraction

def ofBits (w f a : ℕ) : Fields w f where
  sign := a / 2 ^ f / 2 ^ w % 2 = 1
  exponent := ⟨a / 2 ^ f % 2 ^ w, Nat.mod_lt _ (Nat.two_pow_pos w)⟩
  fraction := ⟨a % 2 ^ f, Nat.mod_lt _ (Nat.two_pow_pos f)⟩

theorem ofBits_bits (x : Fields w f) : ofBits w f x.bits = x := by
  have hhigh : x.bits / 2 ^ f = x.sign.toNat * 2 ^ w + x.exponent := by
    rw [Fields.bits, Nat.add_comm, Nat.add_mul_div_right _ _ (Nat.two_pow_pos f),
      Nat.div_eq_of_lt x.fraction.isLt, Nat.zero_add]
  have hsign : x.bits / 2 ^ f / 2 ^ w = x.sign.toNat := by
    rw [hhigh, Nat.add_comm, Nat.add_mul_div_right _ _ (Nat.two_pow_pos w),
      Nat.div_eq_of_lt x.exponent.isLt, Nat.zero_add]
  have hexponent : x.bits / 2 ^ f % 2 ^ w = x.exponent := by
    rw [hhigh, Nat.mul_add_mod_self_right, Nat.mod_eq_of_lt x.exponent.isLt]
  have hfraction : x.bits % 2 ^ f = x.fraction := by
    rw [Fields.bits, Nat.mul_add_mod_self_right, Nat.mod_eq_of_lt x.fraction.isLt]
  obtain ⟨sign, exponent, fraction⟩ := x
  simp only [ofBits, hsign, hexponent, hfraction]
  cases sign <;> rfl

/-- The significand: a number whose exponent is not 0 has a leading bit that is not in the
fraction. -/
def Fields.significand (x : Fields w f) : ℕ :=
  if x.exponent.val = 0 then x.fraction else 2 ^ f + x.fraction

/-- The magnitude of a finite number.  The least exponent is that of 0 as well as that of 1. -/
def Fields.magnitude (x : Fields w f) : ℚ :=
  x.significand * 2 ^ max 1 x.exponent.val / 2 ^ (bias w + f)

/-- The value of a finite number, rounded towards zero. -/
def Fields.toInt (x : Fields w f) : ℤ :=
  if x.sign then -⌊x.magnitude⌋₊ else ⌊x.magnitude⌋₊

theorem Fields.floor_magnitude (x : Fields w f) :
    ⌊x.magnitude⌋₊ = x.significand * 2 ^ max 1 x.exponent.val / 2 ^ (bias w + f) := by
  rw [magnitude, ← Nat.floor_div_eq_div (K := ℚ)]
  push_cast
  rfl

/-- The fields of a magnitude that is not too large for the format. -/
def ofMagnitude (sign : Bool) (m : ℕ) (h : bias w + m.size ≤ 2 ^ w) : Fields w f where
  sign := sign
  exponent := ⟨if m = 0 then 0 else bias w + m.size - 1, by
    have hpos := Nat.two_pow_pos w
    split <;> omega⟩
  fraction := ⟨leadingBits (f + 1) m % 2 ^ f, Nat.mod_lt _ (Nat.two_pow_pos f)⟩

/-- The pattern of zeros is that of 0. -/
theorem ofBits_zero (h : bias w + Nat.size 0 ≤ 2 ^ w) : ofBits w f 0 = ofMagnitude false 0 h := by
  simp [ofBits, ofMagnitude, leadingBits]

theorem bias_pos (hw : 1 < w) : 0 < bias w :=
  Nat.sub_pos_of_lt (Nat.one_lt_two_pow (Nat.sub_ne_zero_of_lt hw))

section

variable (hw : 1 < w) (sign : Bool) (h : bias w + m.size ≤ 2 ^ w)

include hw

theorem exponent_ofMagnitude (hm : m ≠ 0) :
    0 < bias w + m.size - 1 ∧
      (ofMagnitude sign m h : Fields w f).exponent.val = bias w + m.size - 1 := by
  have hbias := bias_pos hw
  have hsize := Nat.size_pos.mpr (Nat.pos_of_ne_zero hm)
  exact ⟨by omega, if_neg hm⟩

theorem significand_ofMagnitude (hm : m ≠ 0) :
    (ofMagnitude sign m h : Fields w f).significand = leadingBits (f + 1) m := by
  obtain ⟨hpos, hexponent⟩ := exponent_ofMagnitude (f := f) hw sign h hm
  have hsize := size_leadingBits f.succ_pos hm
  have hlt : leadingBits (f + 1) m < 2 ^ (f + 1) := Nat.size_le.mp hsize.le
  have hle : 2 ^ f ≤ leadingBits (f + 1) m := Nat.lt_size.mp (by rw [hsize]; exact f.lt_succ_self)
  have hmod : leadingBits (f + 1) m % 2 ^ f = leadingBits (f + 1) m - 2 ^ f := by
    rw [pow_succ] at hlt
    rw [Nat.mod_eq_sub_mod hle, Nat.mod_eq_of_lt (by omega)]
  rw [Fields.significand, if_neg (hexponent ▸ hpos.ne'), ← Nat.add_sub_cancel' hle]
  exact congrArg _ hmod

/-- The number with the fields of `m` has the magnitude of `m`, cut to the significant bits. -/
theorem magnitude_ofMagnitude :
    (ofMagnitude sign m h : Fields w f).magnitude = truncate (f + 1) m := by
  rcases eq_or_ne m 0 with rfl | hm
  · simp [Fields.magnitude, Fields.significand, ofMagnitude, leadingBits, truncate]
  · have hbias := bias_pos hw
    obtain ⟨hpos, hexponent⟩ := exponent_ofMagnitude (f := f) hw sign h hm
    have hplace : leadingBits (f + 1) m * 2 ^ (bias w + m.size - 1) =
        truncate (f + 1) m * 2 ^ (bias w + f) := by
      rw [show bias w + m.size - 1 = m.size + (bias w - 1) by omega, pow_add, ← Nat.mul_assoc,
        leadingBits_mul, Nat.mul_assoc, ← pow_add]
      congr 2
      omega
    rw [Fields.magnitude, significand_ofMagnitude hw sign h hm, hexponent, max_eq_right hpos,
      div_eq_iff (pow_ne_zero _ two_ne_zero)]
    exact_mod_cast hplace

theorem toInt_ofMagnitude :
    (ofMagnitude sign m h : Fields w f).toInt =
      if sign then -(truncate (f + 1) m : ℤ) else truncate (f + 1) m := by
  rw [Fields.toInt, magnitude_ofMagnitude hw, Nat.floor_natCast]
  rfl

end

theorem exponent_ofMagnitude_le (sign : Bool) (h : bias w + m.size ≤ 2 ^ w) :
    (ofMagnitude sign m h : Fields w f).exponent.val ≤ bias w + m.size - 1 := by
  rw [ofMagnitude]
  dsimp only
  split <;> omega

/-- The fields of an integer that is not too large for the format. -/
def ofInt (n : ℤ) (h : bias w + n.natAbs.size ≤ 2 ^ w) : Fields w f :=
  ofMagnitude (decide (n < 0)) n.natAbs h

/-- An integer comes back when the bits that the format has no room for are zeros. -/
theorem toInt_ofInt_iff (hw : 1 < w) (n : ℤ) (h : bias w + n.natAbs.size ≤ 2 ^ w) :
    (ofInt n h : Fields w f).toInt = n ↔ 2 ^ (n.natAbs.size - (f + 1)) ∣ n.natAbs := by
  rw [← truncate_eq_self_iff, ofInt, toInt_ofMagnitude hw]
  by_cases hneg : n < 0
  · rw [if_pos (decide_eq_true hneg)]
    omega
  · rw [if_neg (by simpa using hneg)]
    omega

end Lib.Floats
