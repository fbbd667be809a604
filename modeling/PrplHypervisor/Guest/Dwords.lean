import PrplHypervisor.Lib.Halves
import Mathlib.Data.UInt

/-! 64-bit words as pairs of 32-bit words in the guest library (`bare-metal-apps/lib/libc.c`), and
the shifts that work on the pairs.  The layout is the one of a build with `LITTLE_ENDIAN`. -/

namespace PrplHypervisor.Guest

open Lib.Halves

/-- `dwords`: the struct of the union. -/
structure Dwords where
  low : UInt32
  high : Int32
  deriving DecidableEq, Repr

/-- The union read as `all`. -/
def Dwords.all (d : Dwords) : Int64 := .ofBitVec (d.high.toBitVec ++ d.low.toBitVec)

/-- The union after a write of `all`. -/
def Dwords.ofAll (u : Int64) : Dwords where
  low := .ofBitVec (u.toBitVec.extractLsb' 0 32)
  high := .ofBitVec (u.toBitVec.extractLsb' 32 32)

theorem Dwords.halves_ofAll (u : Int64) :
    (ofAll u).high.toBitVec ++ (ofAll u).low.toBitVec = u.toBitVec :=
  BitVec.extractLsb'_append_extractLsb'

@[simp] theorem Dwords.all_ofAll (u : Int64) : (ofAll u).all = u :=
  Int64.toBitVec_inj.mp (halves_ofAll u)

theorem Dwords.toNat_all (d : Dwords) :
    d.all.toUInt64.toNat = d.high.toUInt32.toNat * 2 ^ 32 + d.low.toNat :=
  toNat_append d.high.toBitVec d.low.toBitVec

/-- `x << n` for a 32-bit `x`.  C gives a meaning to counts below 32 only. -/
def shl32 (x n : UInt32) : Option UInt32 := if n < 32 then some (x <<< n) else none

def shr32 (x n : UInt32) : Option UInt32 := if n < 32 then some (x >>> n) else none

/-- `x >> n` for a signed `x`, which keeps the sign. -/
def sar32 (x : Int32) (n : UInt32) : Option Int32 :=
  if n < 32 then some (.ofBitVec (x.toBitVec.sshiftRight n.toNat)) else none

/-- `__ashldi3`.  There is no result where a half is shifted by 32 or more. -/
def ashldi3 (u : Int64) (b : UInt32) : Option Int64 :=
  if b = 0 then some u
  else
    let uu := Dwords.ofAll u
    -- unsigned, so that the first branch is for `b = 32` alone
    let bm := 32 - b
    if bm ≤ 0 then do
      let high ← shl32 uu.low (-bm)
      return { low := 0, high := high.toInt32 : Dwords }.all
    else do
      let carries ← shr32 uu.low bm
      let low ← shl32 uu.low b
      let high ← shl32 uu.high.toUInt32 b
      return { low, high := (high ||| carries).toInt32 : Dwords }.all

/-- `__ashrdi3`. -/
def ashrdi3 (u : Int64) (b : UInt32) : Option Int64 :=
  if b = 0 then some u
  else
    let uu := Dwords.ofAll u
    let bm := 32 - b
    if bm ≤ 0 then do
      let high ← sar32 uu.high 31
      -- the low half, where the two other functions take the other half
      let low ← shr32 uu.low (-bm)
      return { low, high : Dwords }.all
    else do
      let carries ← shl32 uu.high.toUInt32 bm
      let high ← sar32 uu.high b
      let low ← shr32 uu.low b
      return { low := low ||| carries, high : Dwords }.all

/-- `__lshrdi3`. -/
def lshrdi3 (u : Int64) (b : UInt32) : Option Int64 :=
  if b = 0 then some u
  else
    let uu := Dwords.ofAll u
    let bm := 32 - b
    if bm ≤ 0 then do
      let low ← shr32 uu.high.toUInt32 (-bm)
      return { low, high := 0 : Dwords }.all
    else do
      let carries ← shl32 uu.high.toUInt32 bm
      let high ← shr32 uu.high.toUInt32 b
      let low ← shr32 uu.low b
      return { low := low ||| carries, high := high.toInt32 : Dwords }.all

/-! ### The shifts of a half -/

section Half

variable {x n : UInt32} (hn : n.toNat < 32)

include hn

theorem shl32_of_lt : shl32 x n = some (.ofBitVec (x.toBitVec <<< n.toNat)) := by
  rw [shl32, if_pos (UInt32.lt_iff_toNat_lt.mpr hn), Option.some.injEq, ← UInt32.toBitVec_inj,
    UInt32.toBitVec_shiftLeft, UInt32.toBitVec_ofBitVec, BitVec.shiftLeft_eq', BitVec.toNat_umod,
    UInt32.toNat_toBitVec]
  exact congrArg _ (Nat.mod_eq_of_lt hn)

theorem shr32_of_lt : shr32 x n = some (.ofBitVec (x.toBitVec >>> n.toNat)) := by
  rw [shr32, if_pos (UInt32.lt_iff_toNat_lt.mpr hn), Option.some.injEq, ← UInt32.toBitVec_inj,
    UInt32.toBitVec_shiftRight, UInt32.toBitVec_ofBitVec, BitVec.ushiftRight_eq', BitVec.toNat_umod,
    UInt32.toNat_toBitVec]
  exact congrArg _ (Nat.mod_eq_of_lt hn)

theorem sar32_of_lt (y : Int32) :
    sar32 y n = some (.ofBitVec (y.toBitVec.sshiftRight n.toNat)) := by
  rw [sar32, if_pos (UInt32.lt_iff_toNat_lt.mpr hn)]

end Half

theorem shl32_of_ge {x n : UInt32} (hn : 32 ≤ n.toNat) : shl32 x n = none := by
  rw [shl32, if_neg (by rw [UInt32.lt_iff_toNat_lt]; exact not_lt.mpr hn)]

/-! ### The three ranges of the count -/

/-- The count that takes the bits from one half to the other. -/
theorem toNat_bm {b : UInt32} (hb : b.toNat ≤ 32) : (32 - b).toNat = 32 - b.toNat :=
  UInt32.toNat_sub_of_le _ _ (UInt32.le_iff_toNat_le.mpr hb)

/-- Beyond 32, `bm` wraps. -/
theorem toNat_bm_of_gt {b : UInt32} (hb : 32 < b.toNat) :
    (32 - b).toNat = 2 ^ 32 + 32 - b.toNat := by
  have := b.toNat_lt
  rw [UInt32.toNat_sub]
  simp only [UInt32.reduceToNat]
  omega

theorem le_toNat_bm {b : UInt32} (hb : 32 < b.toNat) : 32 ≤ (32 - b).toNat := by
  have hlt := b.toNat_lt
  rw [toNat_bm_of_gt hb]
  omega

theorem not_bm_le {b : UInt32} (hb : b.toNat ≠ 32) : ¬32 - b ≤ 0 := by
  intro h
  have hle := UInt32.le_iff_toNat_le.mp h
  rw [UInt32.toNat_zero] at hle
  rcases Nat.lt_or_ge 32 b.toNat with hlt | hge
  · have := b.toNat_lt
    rw [toNat_bm_of_gt hlt] at hle
    omega
  · rw [toNat_bm hge] at hle
    omega

theorem toNat_pos_of_ne {b : UInt32} (h0 : b ≠ 0) : 0 < b.toNat :=
  UInt32.lt_iff_toNat_lt.mp (UInt32.pos_iff_ne_zero.mpr h0)

theorem ne_zero_of_gt {b : UInt32} (hb : 32 < b.toNat) : b ≠ 0 := by
  rintro rfl
  exact absurd hb (by decide)

section Small

variable (u : Int64) {b : UInt32} (hb : b.toNat < 32)

include hb

theorem ashldi3_of_lt : ashldi3 u b = some (.ofBitVec (u.toBitVec <<< b.toNat)) := by
  by_cases h0 : b = 0
  · rw [ashldi3, if_pos h0, h0, UInt32.toNat_zero, BitVec.shiftLeft_zero]
    rfl
  · have hpos := toNat_pos_of_ne h0
    have hbm := toNat_bm hb.le
    have hcarry : (32 - b).toNat < 32 := by omega
    simp only [ashldi3, if_neg h0, if_neg (not_bm_le hb.ne), shr32_of_lt hcarry, shl32_of_lt hb,
      Option.bind_eq_bind, Option.bind_some, Option.pure_def]
    rw [Dwords.all, hbm, ← Dwords.halves_ofAll u, ← append_shiftLeft _ _ hb]
    rfl

theorem ashrdi3_of_lt : ashrdi3 u b = some (.ofBitVec (u.toBitVec.sshiftRight b.toNat)) := by
  by_cases h0 : b = 0
  · rw [ashrdi3, if_pos h0, h0, UInt32.toNat_zero, BitVec.sshiftRight_zero]
    rfl
  · have hpos := toNat_pos_of_ne h0
    have hbm := toNat_bm hb.le
    have hcarry : (32 - b).toNat < 32 := by omega
    simp only [ashrdi3, if_neg h0, if_neg (not_bm_le hb.ne), shl32_of_lt hcarry, shr32_of_lt hb,
      sar32_of_lt hb, Option.bind_eq_bind, Option.bind_some, Option.pure_def]
    rw [Dwords.all, hbm, ← Dwords.halves_ofAll u, ← append_sshiftRight _ _ hb]
    rfl

theorem lshrdi3_of_lt : lshrdi3 u b = some (.ofBitVec (u.toBitVec >>> b.toNat)) := by
  by_cases h0 : b = 0
  · rw [lshrdi3, if_pos h0, h0, UInt32.toNat_zero, BitVec.ushiftRight_zero]
    rfl
  · have hpos := toNat_pos_of_ne h0
    have hbm := toNat_bm hb.le
    have hcarry : (32 - b).toNat < 32 := by omega
    simp only [lshrdi3, if_neg h0, if_neg (not_bm_le hb.ne), shl32_of_lt hcarry, shr32_of_lt hb,
      Option.bind_eq_bind, Option.bind_some, Option.pure_def]
    rw [Dwords.all, hbm, ← Dwords.halves_ofAll u, ← append_ushiftRight _ _ hb]
    rfl

end Small

section Half

variable (u : Int64)

theorem toNat_neg_bm_32 : (-(32 - 32) : UInt32).toNat = 0 := by decide

theorem bm_32_le : (32 - 32 : UInt32) ≤ 0 := by decide

theorem ashldi3_32 : ashldi3 u 32 = some (.ofBitVec (u.toBitVec <<< 32)) := by
  rw [ashldi3, if_neg (by decide)]
  simp only [if_pos bm_32_le, shl32_of_lt (toNat_neg_bm_32.trans_lt (by decide)), toNat_neg_bm_32,
    Option.bind_eq_bind, Option.bind_some, Option.pure_def]
  rw [Dwords.all, ← Dwords.halves_ofAll u, ← append_shiftLeft_half, BitVec.shiftLeft_zero]
  rfl

theorem lshrdi3_32 : lshrdi3 u 32 = some (.ofBitVec (u.toBitVec >>> 32)) := by
  rw [lshrdi3, if_neg (by decide)]
  simp only [if_pos bm_32_le, shr32_of_lt (toNat_neg_bm_32.trans_lt (by decide)), toNat_neg_bm_32,
    Option.bind_eq_bind, Option.bind_some, Option.pure_def]
  rw [Dwords.all, ← Dwords.halves_ofAll u, ← append_ushiftRight_half, BitVec.ushiftRight_zero]
  rfl

/-- At 32 the high half of the arithmetic shift is right, and the low half is that of `u`. -/
theorem ashrdi3_32 :
    ashrdi3 u 32 = some (.ofBitVec
      ((Dwords.ofAll u).high.toBitVec.sshiftRight 31 ++ (Dwords.ofAll u).low.toBitVec)) := by
  have hsign : (31 : UInt32).toNat < 32 := by decide
  rw [ashrdi3, if_neg (by decide)]
  simp only [if_pos bm_32_le, shr32_of_lt (toNat_neg_bm_32.trans_lt (by decide)), toNat_neg_bm_32,
    sar32_of_lt hsign, Option.bind_eq_bind, Option.bind_some, Option.pure_def]
  rw [Dwords.all, BitVec.ushiftRight_zero]
  rfl

end Half

section Large

variable (u : Int64) {b : UInt32} (hb : 32 < b.toNat)

include hb

/-- Beyond 32 each function shifts a half by too much. -/
theorem ashldi3_of_gt : ashldi3 u b = none := by
  simp only [ashldi3, if_neg (ne_zero_of_gt hb), if_neg (not_bm_le hb.ne'), shl32_of_ge hb.le,
    Option.bind_eq_bind]
  cases shr32 (Dwords.ofAll u).low (32 - b) <;> rfl

theorem ashrdi3_of_gt : ashrdi3 u b = none := by
  simp only [ashrdi3, if_neg (ne_zero_of_gt hb), if_neg (not_bm_le hb.ne'),
    shl32_of_ge (le_toNat_bm hb), Option.bind_eq_bind, Option.bind_none]

theorem lshrdi3_of_gt : lshrdi3 u b = none := by
  simp only [lshrdi3, if_neg (ne_zero_of_gt hb), if_neg (not_bm_le hb.ne'),
    shl32_of_ge (le_toNat_bm hb), Option.bind_eq_bind, Option.bind_none]

end Large

/-! ### What the shifts are for -/

/-- `__ashldi3` multiplies by a power of 2, modulo `2 ^ 64`. -/
def LeftShifted (u : Int64) (b : UInt32) : Prop :=
  ∃ w, ashldi3 u b = some w ∧ w.toUInt64.toNat = u.toUInt64.toNat * 2 ^ b.toNat % 2 ^ 64

/-- `__lshrdi3` divides the unsigned word by a power of 2. -/
def LogicallyShifted (u : Int64) (b : UInt32) : Prop :=
  ∃ w, lshrdi3 u b = some w ∧ w.toUInt64.toNat = u.toUInt64.toNat / 2 ^ b.toNat

/-- `__ashrdi3` divides the signed word by a power of 2, rounding down. -/
def ArithmeticallyShifted (u : Int64) (b : UInt32) : Prop :=
  ∃ w, ashrdi3 u b = some w ∧ w.toInt = u.toInt / 2 ^ b.toNat

theorem toInt_sshiftRight (u : Int64) (k : ℕ) :
    (Int64.ofBitVec (u.toBitVec.sshiftRight k)).toInt = u.toInt / 2 ^ k := by
  rw [Int64.toInt_ofBitVec, BitVec.toInt_sshiftRight, Int64.toInt_toBitVec,
    Int.shiftRight_eq_div_pow]
  norm_cast

theorem leftShifted_iff (u : Int64) (b : UInt32) : LeftShifted u b ↔ b.toNat ≤ 32 := by
  have hright : ashldi3 u b = some (.ofBitVec (u.toBitVec <<< b.toNat)) → LeftShifted u b := by
    refine fun h => ⟨_, h, ?_⟩
    rw [Int64.toUInt64_ofBitVec, UInt64.toNat_ofBitVec, BitVec.toNat_shiftLeft, Nat.shiftLeft_eq]
    rfl
  rcases lt_trichotomy b.toNat 32 with hlt | heq | hgt
  · exact ⟨fun _ => hlt.le, fun _ => hright (ashldi3_of_lt u hlt)⟩
  · obtain rfl : b = 32 := UInt32.toNat_inj.mp heq
    exact ⟨fun _ => le_rfl, fun _ => hright (ashldi3_32 u)⟩
  · refine ⟨fun ⟨w, hw, _⟩ => ?_, fun h => absurd hgt (not_lt.mpr h)⟩
    rw [ashldi3_of_gt u hgt] at hw
    cases hw

theorem logicallyShifted_iff (u : Int64) (b : UInt32) : LogicallyShifted u b ↔ b.toNat ≤ 32 := by
  have hright : lshrdi3 u b = some (.ofBitVec (u.toBitVec >>> b.toNat)) → LogicallyShifted u b := by
    refine fun h => ⟨_, h, ?_⟩
    rw [Int64.toUInt64_ofBitVec, UInt64.toNat_ofBitVec, BitVec.toNat_ushiftRight,
      Nat.shiftRight_eq_div_pow]
    rfl
  rcases lt_trichotomy b.toNat 32 with hlt | heq | hgt
  · exact ⟨fun _ => hlt.le, fun _ => hright (lshrdi3_of_lt u hlt)⟩
  · obtain rfl : b = 32 := UInt32.toNat_inj.mp heq
    exact ⟨fun _ => le_rfl, fun _ => hright (lshrdi3_32 u)⟩
  · refine ⟨fun ⟨w, hw, _⟩ => ?_, fun h => absurd hgt (not_lt.mpr h)⟩
    rw [lshrdi3_of_gt u hgt] at hw
    cases hw

/-- The arithmetic shift by 32 returns the low half unshifted, which is right where the two halves
are equal. -/
theorem arithmeticallyShifted_iff (u : Int64) (b : UInt32) :
    ArithmeticallyShifted u b ↔ b.toNat < 32 ∨
      b.toNat = 32 ∧ (Dwords.ofAll u).low = (Dwords.ofAll u).high.toUInt32 := by
  rcases lt_trichotomy b.toNat 32 with hlt | heq | hgt
  · exact ⟨fun _ => .inl hlt, fun _ => ⟨_, ashrdi3_of_lt u hlt, toInt_sshiftRight u _⟩⟩
  · obtain rfl : b = 32 := UInt32.toNat_inj.mp heq
    have hiff : ArithmeticallyShifted u 32 ↔
        (Dwords.ofAll u).high.toBitVec.sshiftRight 31 ++ (Dwords.ofAll u).low.toBitVec =
          u.toBitVec.sshiftRight 32 := by
      have hexact := toInt_sshiftRight u 32
      rw [ArithmeticallyShifted, ashrdi3_32]
      constructor
      · rintro ⟨w, hw, hint⟩
        rw [Option.some.injEq] at hw
        rw [← hw, heq, ← hexact, Int64.toInt_inj] at hint
        exact congrArg Int64.toBitVec hint
      · intro h
        exact ⟨_, rfl, by rw [h]; exact hexact⟩
    rw [hiff, ← Dwords.halves_ofAll u, ← append_sshiftRight_half _ _ (by decide),
      append_low_inj]
    constructor
    · exact fun h => .inr ⟨rfl, UInt32.toBitVec_inj.mp h⟩
    · rintro (h | ⟨-, h⟩)
      · exact absurd h (by decide)
      · rw [h]
        rfl
  · refine ⟨fun ⟨w, hw, _⟩ => ?_, fun h => ?_⟩
    · rw [ashrdi3_of_gt u hgt] at hw
      cases hw
    · omega

/-- Which shifts are right, for every word and count. -/
theorem shifts_iff (u : Int64) (b : UInt32) :
    (LeftShifted u b ↔ b.toNat ≤ 32) ∧ (LogicallyShifted u b ↔ b.toNat ≤ 32) ∧
      (ArithmeticallyShifted u b ↔ b.toNat < 32 ∨
        b.toNat = 32 ∧ (Dwords.ofAll u).low = (Dwords.ofAll u).high.toUInt32) :=
  ⟨leftShifted_iff u b, logicallyShifted_iff u b, arithmeticallyShifted_iff u b⟩

/-- The arithmetic shift of 5 by 32 gives 5, and the shifts by 33 have no meaning. -/
theorem shifts_from_32 :
    ashrdi3 5 32 = some 5 ∧ ashldi3 5 33 = none ∧ lshrdi3 5 33 = none ∧
      ¬∀ (u : Int64) (b : UInt32), b.toNat < 64 →
        LeftShifted u b ∧ LogicallyShifted u b ∧ ArithmeticallyShifted u b := by
  refine ⟨by decide, ashldi3_of_gt 5 (by decide), lshrdi3_of_gt 5 (by decide), fun hall => ?_⟩
  have h := (leftShifted_iff 5 33).mp (hall 5 33 (by decide)).1
  exact absurd h (by decide)

end PrplHypervisor.Guest
