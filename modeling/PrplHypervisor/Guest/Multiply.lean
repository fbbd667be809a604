import PrplHypervisor.Guest.Dwords
import PrplHypervisor.Lib.Words
import Mathlib.Tactic.Linarith
import Mathlib.Tactic.Ring

/-! The multiplications of the guest library (`bare-metal-apps/lib/libc.c`), which the compiler
calls on a processor that has none.  Signed arithmetic wraps. -/

namespace PrplHypervisor.Guest

open Lib.Words

/-- The loop of `__mulsi3`. -/
def mulsi3Loop (a b answer : UInt32) : UInt32 :=
  if b = 0 then answer
  else mulsi3Loop (a <<< 1) (b >>> 1) (if b &&& 1 ≠ 0 then answer + a else answer)
termination_by b.toNat
decreasing_by
  have hpos := toNat_pos_of_ne ‹_›
  rw [toNat_shiftRight (k := 1) rfl (by decide)]
  omega

def mulsi3 (a b : UInt32) : Int32 := (mulsi3Loop a b 0).toInt32

/-- `bits_in_word_2` of `__muldsi3`. -/
def bitsInWord2 : UInt32 := 4 * 8 / 2

def lowerMask : UInt32 := ~~~0 >>> bitsInWord2

def muldsi3 (a b : UInt32) : Int64 :=
  let low := (a &&& lowerMask) * (b &&& lowerMask)
  let t := low >>> bitsInWord2
  let low := low &&& lowerMask
  let t := t + (a >>> bitsInWord2) * (b &&& lowerMask)
  let low := low + (t &&& lowerMask) <<< bitsInWord2
  let high := (t >>> bitsInWord2).toInt32
  let t := low >>> bitsInWord2
  let low := low &&& lowerMask
  let t := t + (b >>> bitsInWord2) * (a &&& lowerMask)
  let low := low + (t &&& lowerMask) <<< bitsInWord2
  let high := (high.toUInt32 + t >>> bitsInWord2).toInt32
  let high := (high.toUInt32 + (a >>> bitsInWord2) * (b >>> bitsInWord2)).toInt32
  { low, high : Dwords }.all

def muldi3 (a b : Int64) : Int64 :=
  let x := Dwords.ofAll a
  let y := Dwords.ofAll b
  let r := Dwords.ofAll (muldsi3 x.low y.low)
  let high := r.high + (mulsi3 x.high.toUInt32 y.low + mulsi3 x.low y.high.toUInt32)
  { r with high }.all

/-! ### The product of two words -/

/-- The answer after a round: `a` is added where `b` is odd. -/
theorem toNat_answer (a b answer : UInt32) :
    (if b &&& 1 ≠ 0 then answer + a else answer).toNat ≡
      answer.toNat + a.toNat * (b.toNat % 2) [MOD 2 ^ 32] := by
  have hbit : (b &&& 1).toNat = b.toNat % 2 := toNat_and_low (k := 1) rfl
  rcases Nat.mod_two_eq_zero_or_one b.toNat with h | h
  · have h0 : b &&& 1 = 0 := UInt32.toNat_inj.mp (by rw [hbit, h, UInt32.toNat_zero])
    rw [if_neg (not_not.mpr h0), h, Nat.mul_zero, Nat.add_zero]
  · have h1 : b &&& 1 ≠ 0 := by
      intro h0
      rw [h0, UInt32.toNat_zero] at hbit
      omega
    rw [if_pos h1, h, Nat.mul_one, UInt32.toNat_add]
    exact Nat.mod_modEq _ _

/-- The loop adds the product to `answer`, modulo `2 ^ 32`. -/
theorem toNat_mulsi3Loop (a b answer : UInt32) :
    (mulsi3Loop a b answer).toNat = (answer.toNat + a.toNat * b.toNat) % 2 ^ 32 := by
  fun_induction mulsi3Loop a b answer with
  | case1 a answer =>
    rw [UInt32.toNat_zero, Nat.mul_zero, Nat.add_zero, Nat.mod_eq_of_lt answer.toNat_lt]
  | case2 a b answer hb ih =>
    have hhalf : (b >>> 1).toNat = b.toNat / 2 := toNat_shiftRight (k := 1) rfl (by decide)
    have hdouble : (a <<< 1).toNat ≡ a.toNat * 2 [MOD 2 ^ 32] := by
      rw [toNat_shiftLeft (k := 1) rfl (by decide)]
      exact Nat.mod_modEq _ _
    simp only [dite_eq_ite] at ih
    rw [ih, hhalf]
    calc _ ≡ (answer.toNat + a.toNat * (b.toNat % 2)) + a.toNat * 2 * (b.toNat / 2) [MOD 2 ^ 32] :=
          (toNat_answer a b answer).add (hdouble.mul_right _)
      _ = answer.toNat + a.toNat * (b.toNat % 2 + 2 * (b.toNat / 2)) := by ring
      _ = answer.toNat + a.toNat * b.toNat := by rw [Nat.mod_add_div]

theorem mulsi3_eq (a b : UInt32) : mulsi3 a b = (a * b).toInt32 := by
  refine congrArg UInt32.toInt32 (UInt32.toNat_inj.mp ?_)
  rw [toNat_mulsi3Loop, UInt32.toNat_zero, Nat.zero_add, UInt32.toNat_mul]

/-! ### The full product -/

theorem toNat_and_lowerMask (x : UInt32) : (x &&& lowerMask).toNat = x.toNat % 2 ^ 16 :=
  toNat_and_low (by decide)

theorem toNat_shr_bitsInWord2 (x : UInt32) : (x >>> bitsInWord2).toNat = x.toNat / 2 ^ 16 :=
  toNat_shiftRight (by decide) (by decide)

theorem toNat_mul_halves {x y : UInt32} (hx : x.toNat < 2 ^ 16) (hy : y.toNat < 2 ^ 16) :
    (x * y).toNat = x.toNat * y.toNat ∧ x.toNat * y.toNat ≤ (2 ^ 16 - 1) * (2 ^ 16 - 1) := by
  have hle : x.toNat * y.toNat ≤ (2 ^ 16 - 1) * (2 ^ 16 - 1) :=
    Nat.mul_le_mul (by omega) (by omega)
  exact ⟨by rw [UInt32.toNat_mul, Nat.mod_eq_of_lt (by omega)], hle⟩

/-- One partial product in the middle: what goes to the high word and what stays in the low word
add up to the low word and the product, with no carry lost. -/
theorem partial_product (low : UInt32) {x y : UInt32} (hx : x.toNat < 2 ^ 16)
    (hy : y.toNat < 2 ^ 16) :
    ((low >>> bitsInWord2 + x * y) >>> bitsInWord2).toNat * 2 ^ 32 +
        ((low &&& lowerMask) +
          ((low >>> bitsInWord2 + x * y) &&& lowerMask) <<< bitsInWord2).toNat =
      low.toNat + x.toNat * y.toNat * 2 ^ 16 := by
  obtain ⟨hmul, hle⟩ := toNat_mul_halves hx hy
  have hlow := low.toNat_lt
  have ht : (low >>> bitsInWord2 + x * y).toNat = low.toNat / 2 ^ 16 + x.toNat * y.toNat := by
    rw [UInt32.toNat_add, toNat_shr_bitsInWord2, hmul, Nat.mod_eq_of_lt (by omega)]
  generalize low >>> bitsInWord2 + x * y = t at ht
  have hshift : ((t &&& lowerMask) <<< bitsInWord2).toNat = t.toNat % 2 ^ 16 * 2 ^ 16 := by
    rw [toNat_shiftLeft_of_lt (k := 16) (by decide) (by decide), toNat_and_lowerMask]
    rw [toNat_and_lowerMask]
    omega
  rw [UInt32.toNat_add, hshift, toNat_and_lowerMask, toNat_shr_bitsInWord2,
    Nat.mod_eq_of_lt (by omega)]
  omega

/-- `__muldsi3` is the full product. -/
theorem toNat_muldsi3 (a b : UInt32) : (muldsi3 a b).toUInt64.toNat = a.toNat * b.toNat := by
  have ha0 := toNat_and_lowerMask a
  have hb0 := toNat_and_lowerMask b
  have ha1 := toNat_shr_bitsInWord2 a
  have hb1 := toNat_shr_bitsInWord2 b
  have halt := a.toNat_lt
  have hblt := b.toNat_lt
  have hprod : a.toNat * b.toNat < 2 ^ 32 * 2 ^ 32 := Nat.mul_lt_mul'' halt hblt
  have hsplit : a.toNat * b.toNat =
      (a &&& lowerMask).toNat * (b &&& lowerMask).toNat +
        (a >>> bitsInWord2).toNat * (b &&& lowerMask).toNat * 2 ^ 16 +
        (b >>> bitsInWord2).toNat * (a &&& lowerMask).toNat * 2 ^ 16 +
        (a >>> bitsInWord2).toNat * (b >>> bitsInWord2).toNat * 2 ^ 32 := by
    rw [ha0, hb0, ha1, hb1]
    conv_lhs => rw [← Nat.mod_add_div a.toNat (2 ^ 16), ← Nat.mod_add_div b.toNat (2 ^ 16)]
    ring
  obtain ⟨hlow, -⟩ := toNat_mul_halves (x := a &&& lowerMask) (y := b &&& lowerMask)
    (by omega) (by omega)
  obtain ⟨hhigh, -⟩ := toNat_mul_halves (x := a >>> bitsInWord2) (y := b >>> bitsInWord2)
    (by omega) (by omega)
  have hfirst := partial_product ((a &&& lowerMask) * (b &&& lowerMask))
    (x := a >>> bitsInWord2) (y := b &&& lowerMask) (by omega) (by omega)
  simp only [muldsi3, Dwords.toNat_all, UInt32.toUInt32_toInt32]
  generalize (a &&& lowerMask) * (b &&& lowerMask) = low at *
  generalize low >>> bitsInWord2 + (a >>> bitsInWord2) * (b &&& lowerMask) = t at *
  generalize (low &&& lowerMask) + (t &&& lowerMask) <<< bitsInWord2 = low' at *
  have hsecond := partial_product low' (x := b >>> bitsInWord2) (y := a &&& lowerMask)
    (by omega) (by omega)
  generalize low' >>> bitsInWord2 + (b >>> bitsInWord2) * (a &&& lowerMask) = t' at *
  generalize (low' &&& lowerMask) + (t' &&& lowerMask) <<< bitsInWord2 = low'' at *
  have hwords : ((t >>> bitsInWord2).toNat + (t' >>> bitsInWord2).toNat +
      (a >>> bitsInWord2).toNat * (b >>> bitsInWord2).toNat) * 2 ^ 32 + low''.toNat =
      a.toNat * b.toNat := by
    linarith only [hsplit, hlow, hfirst, hsecond]
  rw [UInt32.toNat_add, UInt32.toNat_add, hhigh, Nat.mod_add_mod, Nat.mod_eq_of_lt (by omega),
    hwords]

theorem Dwords.toNat_ofAll (u : Int64) :
    (ofAll u).high.toUInt32.toNat * 2 ^ 32 + (ofAll u).low.toNat = u.toUInt64.toNat := by
  rw [← Dwords.toNat_all, Dwords.all_ofAll]

/-- The high word after the cross terms are added, modulo `2 ^ 32`. -/
theorem toNat_add_cross (h ah al bh bl : UInt32) :
    (h + (ah * bl + al * bh)).toNat ≡ h.toNat + (ah.toNat * bl.toNat + al.toNat * bh.toNat)
      [MOD 2 ^ 32] := by
  simp only [UInt32.toNat_add, UInt32.toNat_mul, Nat.ModEq, Nat.mod_mod, Nat.add_mod_mod,
    Nat.mod_add_mod]

theorem toNat_muldi3 (a b : Int64) :
    (muldi3 a b).toUInt64.toNat ≡ a.toUInt64.toNat * b.toUInt64.toNat [MOD 2 ^ 64] := by
  have hr := toNat_muldsi3 (Dwords.ofAll a).low (Dwords.ofAll b).low
  rw [← Dwords.toNat_ofAll (muldsi3 _ _)] at hr
  rw [← Dwords.toNat_ofAll a, ← Dwords.toNat_ofAll b]
  simp only [muldi3, Dwords.toNat_all, mulsi3_eq, Int32.toUInt32_add, UInt32.toUInt32_toInt32]
  generalize Dwords.ofAll (muldsi3 _ _) = r at *
  generalize (Dwords.ofAll a).high.toUInt32 = ah at *
  generalize (Dwords.ofAll a).low = al at *
  generalize (Dwords.ofAll b).high.toUInt32 = bh at *
  generalize (Dwords.ofAll b).low = bl at *
  calc _ ≡ (r.high.toUInt32.toNat + (ah.toNat * bl.toNat + al.toNat * bh.toNat)) * 2 ^ 32 +
          r.low.toNat [MOD 2 ^ 64] :=
        ((toNat_add_cross r.high.toUInt32 ah al bh bl).mul_right' (2 ^ 32)).add_right _
    _ = al.toNat * bl.toNat + (ah.toNat * bl.toNat + al.toNat * bh.toNat) * 2 ^ 32 := by
        rw [← hr]
        ring
    _ ≡ al.toNat * bl.toNat + (ah.toNat * bl.toNat + al.toNat * bh.toNat) * 2 ^ 32 +
          2 ^ 64 * (ah.toNat * bh.toNat) [MOD 2 ^ 64] := by
        rw [Nat.mul_comm (2 ^ 64)]
        exact (Nat.add_mul_modulus_modEq_iff.mpr rfl).symm
    _ = (ah.toNat * 2 ^ 32 + al.toNat) * (bh.toNat * 2 ^ 32 + bl.toNat) := by ring

/-- `__muldsi3` is the full product, `__mulsi3` the product modulo `2 ^ 32` and `__muldi3` the one
modulo `2 ^ 64`, for all operands. -/
theorem multiplication_right :
    (∀ a b : UInt32, (muldsi3 a b).toUInt64.toNat = a.toNat * b.toNat) ∧
      (∀ a b : UInt32, (mulsi3 a b).toUInt32.toNat = a.toNat * b.toNat % 2 ^ 32) ∧
      ∀ a b : Int64,
        (muldi3 a b).toUInt64.toNat = a.toUInt64.toNat * b.toUInt64.toNat % 2 ^ 64 := by
  refine ⟨toNat_muldsi3, fun a b => ?_, fun a b => ?_⟩
  · rw [mulsi3_eq, UInt32.toUInt32_toInt32, UInt32.toNat_mul]
  · rw [← Nat.mod_eq_of_lt (muldi3 a b).toUInt64.toNat_lt]
    exact toNat_muldi3 a b

end PrplHypervisor.Guest
