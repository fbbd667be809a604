import Mathlib.Algebra.Order.Ring.Int
import Mathlib.Data.UInt

/-! Words read as signed: the integer that a word stands for and its magnitude, and the shifts of a
32-bit word. -/

namespace Lib.SignedWords

section Word

variable {w : ℕ} {x : BitVec w}

theorem toInt_of_lt (h : 2 * x.toNat < 2 ^ w) : x.toInt = x.toNat :=
  BitVec.toInt_eq_toNat_of_lt h

theorem toInt_of_le (h : 2 ^ w ≤ 2 * x.toNat) : x.toInt = x.toNat - 2 ^ w := by
  rw [BitVec.toInt_eq_toNat_cond, if_neg (Nat.not_lt.mpr h)]
  push_cast
  rfl

theorem toNat_of_nonneg (h : 0 ≤ x.toInt) : (x.toNat : ℤ) = x.toInt := by
  rcases Nat.lt_or_ge (2 * x.toNat) (2 ^ w) with hlt | hle
  · exact (toInt_of_lt hlt).symm
  · have hint := toInt_of_le hle
    have hword : (x.toNat : ℤ) < 2 ^ w := by exact_mod_cast x.isLt
    omega

theorem toNat_of_neg (h : x.toInt < 0) : (x.toNat : ℤ) = x.toInt + 2 ^ w := by
  rcases Nat.lt_or_ge (2 * x.toNat) (2 ^ w) with hlt | hle
  · have hint := toInt_of_lt hlt
    omega
  · have hint := toInt_of_le hle
    omega

/-- Negating a negative word gives its magnitude as an unsigned word, also for the least word. -/
theorem toNat_neg_of_neg (h : x.toInt < 0) : (-x).toNat = x.toInt.natAbs := by
  have hnat := toNat_of_neg h
  have hcast : ((2 ^ w : ℕ) : ℤ) = 2 ^ w := Nat.cast_pow 2 w
  have hlt := x.isLt
  have hpos : 0 < x.toNat := by
    by_contra h0
    have hint := toInt_of_lt (x := x) (by omega)
    omega
  rw [BitVec.toNat_neg, Nat.mod_eq_of_lt (by omega)]
  omega

end Word

/-! ### 32-bit words -/

variable {x : UInt32} {y s : Int32} {k : ℕ}

theorem toInt_toInt32 (x : UInt32) : x.toInt32.toInt = (x.toNat : ℤ).bmod (2 ^ 32) :=
  BitVec.toInt_eq_toNat_bmod x.toBitVec

theorem toInt_toInt32_of_lt (h : x.toNat < 2 ^ 31) : x.toInt32.toInt = x.toNat :=
  toInt_of_lt (x := x.toBitVec) (by rw [UInt32.toNat_toBitVec]; omega)

theorem toInt_toInt32_of_le (h : 2 ^ 31 ≤ x.toNat) : x.toInt32.toInt = x.toNat - 2 ^ 32 :=
  toInt_of_le (x := x.toBitVec) (by rw [UInt32.toNat_toBitVec]; omega)

theorem toNat_toUInt32_of_nonneg (h : 0 ≤ y.toInt) : (y.toUInt32.toNat : ℤ) = y.toInt :=
  toNat_of_nonneg (x := y.toBitVec) h

theorem toNat_toUInt32_of_neg (h : y.toInt < 0) : (y.toUInt32.toNat : ℤ) = y.toInt + 2 ^ 32 :=
  toNat_of_neg (x := y.toBitVec) h

theorem nonneg_iff (y : Int32) : 0 ≤ y ↔ 0 ≤ y.toInt := by
  rw [Int32.le_iff_toInt_le, Int32.toInt_zero]

/-- A word that is not negative has a negation that does not wrap. -/
theorem toInt_neg_of_nonneg (h : 0 ≤ y.toInt) : (-y).toInt = -y.toInt := by
  have hlt := y.toInt_lt
  rw [Int32.toInt_neg]
  exact Int.bmod_eq_of_le (by omega) (by omega)

theorem toNat_abs (y : Int32) : (if 0 ≤ y then y else -y).toUInt32.toNat = y.toInt.natAbs := by
  by_cases hnonneg : 0 ≤ y.toInt
  · have hword := toNat_toUInt32_of_nonneg hnonneg
    rw [if_pos ((nonneg_iff y).mpr hnonneg)]
    omega
  · rw [if_neg (mt (nonneg_iff y).mp hnonneg)]
    exact toNat_neg_of_neg (x := y.toBitVec) (not_le.mp hnonneg)

/-! ### Shifts -/

theorem toNat_count (hs : s.toInt = k) (hk : k < 32) : (s.toBitVec.smod 32).toNat = k := by
  have hword : s.toBitVec.toNat = k := by
    have hnat := toNat_toUInt32_of_nonneg (y := s) (by omega)
    rw [hs] at hnat
    exact_mod_cast hnat
  have hmsb : s.toBitVec.msb = false := BitVec.msb_eq_false_iff_two_mul_lt.mpr (by omega)
  have hmsb' : (32 : BitVec 32).msb = false := rfl
  rw [BitVec.smod_eq, hmsb, hmsb']
  dsimp only
  rw [BitVec.umod_eq, BitVec.toNat_umod, hword]
  exact Nat.mod_eq_of_lt hk

/-- A shift right divides and rounds down, also a negative word. -/
theorem toInt_shiftRight (hs : s.toInt = k) (hk : k < 32) : (y >>> s).toInt = y.toInt / 2 ^ k := by
  rw [← Int32.toInt_toBitVec, Int32.toBitVec_shiftRight, BitVec.toInt_sshiftRight',
    toNat_count hs hk, Int32.toInt_toBitVec, Int.shiftRight_eq_div_pow]
  rfl

theorem toInt_shiftLeft (hs : s.toInt = k) (hk : k < 32) (h : 0 ≤ y.toInt)
    (hlt : y.toInt * 2 ^ k < 2 ^ 31) : (y <<< s).toInt = y.toInt * 2 ^ k := by
  have hnat := toNat_toUInt32_of_nonneg h
  have hpos : 0 ≤ y.toInt * 2 ^ k := Int.mul_nonneg h (pow_nonneg (by decide) k)
  rw [← Int32.toInt_toBitVec, Int32.toBitVec_shiftLeft, BitVec.shiftLeft_eq', toNat_count hs hk,
    BitVec.toInt_shiftLeft, Nat.shiftLeft_eq]
  push_cast
  rw [show (y.toBitVec.toNat : ℤ) = y.toInt from hnat]
  exact Int.bmod_eq_of_le (by omega) (by omega)

end Lib.SignedWords
