import PrplHypervisor.Lib.SignedWords
import Mathlib.Data.Nat.Bitwise

/-! 64-bit words as naturals and, read as signed, as integers: shifts by one bit, the sign test, and
the magnitude that a conditional negation computes. -/

namespace Lib.LongWords

open Lib.SignedWords

variable {x : UInt64}

theorem toNat_shiftRight_one (x : UInt64) : (x >>> 1).toNat = x.toNat / 2 := by
  rw [UInt64.toNat_shiftRight, UInt64.toNat_one, Nat.shiftRight_eq_div_pow]

theorem toNat_shiftLeft_one (h : x.toNat < 2 ^ 63) : (x <<< 1).toNat = x.toNat * 2 := by
  rw [UInt64.toNat_shiftLeft, UInt64.toNat_one, Nat.shiftLeft_eq]
  simp only [Nat.one_mod, pow_one]
  omega

theorem toNat_neg_of_pos (h : 0 < x.toNat) : (-x).toNat = 2 ^ 64 - x.toNat := by
  rw [UInt64.toNat_neg, UInt64.size]
  omega

/-! ### Words read as signed -/

theorem toInt_toInt64_of_lt (h : x.toNat < 2 ^ 63) : x.toInt64.toInt = x.toNat :=
  toInt_of_lt (x := x.toBitVec) (by rw [UInt64.toNat_toBitVec]; omega)

theorem toInt_toInt64_of_le (h : 2 ^ 63 ≤ x.toNat) : x.toInt64.toInt = x.toNat - 2 ^ 64 :=
  toInt_of_le (x := x.toBitVec) (by rw [UInt64.toNat_toBitVec]; omega)

/-- The sign test of a word that is read as signed tests its top bit. -/
theorem toInt64_nonneg_iff : 0 ≤ x.toInt64 ↔ x.toNat < 2 ^ 63 := by
  rw [Int64.le_iff_toInt_le, Int64.toInt_zero]
  rcases Nat.lt_or_ge x.toNat (2 ^ 63) with h | h
  · rw [toInt_toInt64_of_lt h]
    omega
  · have := x.toNat_lt
    rw [toInt_toInt64_of_le h]
    omega

theorem toInt64_neg_iff (y : Int64) : y < 0 ↔ y.toInt < 0 := by
  rw [Int64.lt_iff_toInt_lt, Int64.toInt_zero]

/-- Negating a negative word gives its magnitude, also for the least word. -/
theorem toNat_magnitude (y : Int64) :
    (if y < 0 then -y else y).toUInt64.toNat = y.toInt.natAbs := by
  by_cases hneg : y.toInt < 0
  · rw [if_pos ((toInt64_neg_iff y).mpr hneg)]
    exact toNat_neg_of_neg (x := y.toBitVec) hneg
  · have hword : (y.toUInt64.toNat : ℤ) = y.toInt :=
      toNat_of_nonneg (x := y.toBitVec) (not_lt.mp hneg)
    rw [if_neg (mt (toInt64_neg_iff y).mp hneg)]
    omega

/-- A magnitude of at most `2 ^ 63`, read as signed and negated. -/
theorem toInt_neg_toInt64 (h : x.toNat ≤ 2 ^ 63) : (-x.toInt64).toInt = -x.toNat := by
  rw [← UInt64.toInt64_neg]
  rcases Nat.eq_zero_or_pos x.toNat with h0 | hpos
  · rw [UInt64.toNat_inj.mp (h0.trans UInt64.toNat_zero.symm)]
    rfl
  · have hneg := toNat_neg_of_pos hpos
    rw [toInt_toInt64_of_le (by omega), hneg]
    omega

/-- A magnitude with a sign: `2 ^ 63` has a negative word only. -/
theorem toInt_signed (b : Bool) (h : x.toNat ≤ 2 ^ 63) (hb : b = false → x.toNat < 2 ^ 63) :
    (if b then -x.toInt64 else x.toInt64).toInt = if b then -(x.toNat : ℤ) else x.toNat := by
  cases b with
  | false => exact toInt_toInt64_of_lt (hb rfl)
  | true => exact toInt_neg_toInt64 h

end Lib.LongWords
