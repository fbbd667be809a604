import Mathlib.Data.Nat.Bitwise

/-! Shifts and masks of 32-bit words as arithmetic on naturals: a shift right divides, a shift left
multiplies, a mask of low bits takes a remainder, and fields that do not overlap add up. -/

namespace Lib.Words

variable {x m s : UInt32} {k : Nat}

theorem toNat_shiftRight (hs : s.toNat = k) (hk : k < 32) : (x >>> s).toNat = x.toNat / 2 ^ k := by
  rw [UInt32.toNat_shiftRight, hs, Nat.mod_eq_of_lt hk, Nat.shiftRight_eq_div_pow]

theorem toNat_shiftLeft (hs : s.toNat = k) (hk : k < 32) :
    (x <<< s).toNat = x.toNat * 2 ^ k % 2 ^ 32 := by
  rw [UInt32.toNat_shiftLeft, hs, Nat.mod_eq_of_lt hk, Nat.shiftLeft_eq]

theorem toNat_shiftLeft_of_lt (hs : s.toNat = k) (hk : k < 32) (hx : x.toNat * 2 ^ k < 2 ^ 32) :
    (x <<< s).toNat = x.toNat * 2 ^ k := by
  rw [toNat_shiftLeft hs hk, Nat.mod_eq_of_lt hx]

/-- A mask of the low `k` bits takes the remainder modulo `2 ^ k`. -/
theorem toNat_and_low (hm : m.toNat = 2 ^ k - 1) : (x &&& m).toNat = x.toNat % 2 ^ k := by
  rw [UInt32.toNat_and, hm, Nat.and_two_pow_sub_one_eq_mod]

theorem toNat_and_add_not (x m : UInt32) :
    (x &&& m).toNat + (x &&& ~~~m).toNat = x.toNat := by
  have hdisjoint : (x.toBitVec &&& m.toBitVec) &&& (x.toBitVec &&& ~~~m.toBitVec) = 0#32 := by
    ext i hi
    simp only [BitVec.getElem_and, BitVec.getElem_not, BitVec.getElem_zero]
    cases x.toBitVec[i] <;> cases m.toBitVec[i] <;> rfl
  have hall : (x.toBitVec &&& m.toBitVec) ||| (x.toBitVec &&& ~~~m.toBitVec) = x.toBitVec := by
    ext i hi
    simp only [BitVec.getElem_and, BitVec.getElem_not, BitVec.getElem_or]
    cases x.toBitVec[i] <;> cases m.toBitVec[i] <;> rfl
  have hsum := BitVec.toNat_add_of_and_eq_zero hdisjoint
  rw [BitVec.add_eq_or_of_and_eq_zero _ _ hdisjoint, hall] at hsum
  simpa [← UInt32.toNat_toBitVec] using hsum.symm

/-- A mask that clears the low `k` bits rounds down to a multiple of `2 ^ k`. -/
theorem toNat_and_not_low (hm : m.toNat = 2 ^ k - 1) :
    (x &&& ~~~m).toNat = x.toNat / 2 ^ k * 2 ^ k := by
  have hsum := toNat_and_add_not x m
  have hdiv := Nat.mod_add_div x.toNat (2 ^ k)
  rw [toNat_and_low hm] at hsum
  rw [Nat.mul_comm] at hdiv
  omega

/-- No bit is set above the low `k`. -/
theorem and_not_low_eq_zero_iff (hm : m.toNat = 2 ^ k - 1) : x &&& ~~~m = 0 ↔ x.toNat < 2 ^ k := by
  rw [← UInt32.toNat_inj, UInt32.toNat_zero, toNat_and_not_low hm, Nat.mul_eq_zero,
    Nat.div_eq_zero_iff_lt (Nat.two_pow_pos k)]
  exact or_iff_left (Nat.two_pow_pos k).ne'

/-- Two fields of a word: a high part and `k` low bits. -/
theorem shiftLeft_or {a b : Nat} (hb : b < 2 ^ k) : a <<< k ||| b = a * 2 ^ k + b := by
  rw [← Nat.shiftLeft_add_eq_or_of_lt hb, Nat.shiftLeft_eq]

theorem toNat_field {n w : Nat} (hn : n < 2 ^ w) (hs : s.toNat = k) (hk : k < 32)
    (hw : w + k ≤ 32) : (UInt32.ofNat n <<< s).toNat = n * 2 ^ k := by
  have hplace : n * 2 ^ k < 2 ^ 32 :=
    calc n * 2 ^ k < 2 ^ w * 2 ^ k := Nat.mul_lt_mul_of_pos_right hn (Nat.two_pow_pos k)
      _ = 2 ^ (w + k) := (Nat.pow_add 2 w k).symm
      _ ≤ 2 ^ 32 := Nat.pow_le_pow_right (by decide) hw
  have hword : (UInt32.ofNat n).toNat = n :=
    UInt32.toNat_ofNat_of_lt' ((Nat.le_mul_of_pos_right n (Nat.two_pow_pos k)).trans_lt hplace)
  rw [toNat_shiftLeft_of_lt hs hk (by rwa [hword]), hword]

/-- A field of `w` bits, set `k` bits up, is read back whatever the bits around it are. -/
theorem toNat_field_or {n w : Nat} {y : UInt32} (hn : n < 2 ^ w) (hs : s.toNat = k) (hk : k < 32)
    (hw : w + k ≤ 32) (hm : m.toNat = 2 ^ w - 1) (hy : y >>> s &&& m = 0) :
    ((UInt32.ofNat n <<< s ||| y) >>> s &&& m).toNat = n := by
  have hfield : (UInt32.ofNat n <<< s >>> s).toNat = n := by
    rw [toNat_shiftRight hs hk, toNat_field hn hs hk hw, Nat.mul_div_cancel _ (Nat.two_pow_pos k)]
  rw [UInt32.shiftRight_or, UInt32.toNat_and, UInt32.toNat_or, Nat.and_or_distrib_right,
    ← UInt32.toNat_and, ← UInt32.toNat_and, hy, toNat_and_low hm, hfield, Nat.mod_eq_of_lt hn]
  exact Nat.or_zero n

/-! ### Flags -/

/-- Some bit of the mask `m` is set in `x`. -/
def HasBits (x m : UInt32) : Prop := x &&& m ≠ 0

instance (x m : UInt32) : Decidable (HasBits x m) := inferInstanceAs (Decidable (_ ≠ _))

theorem hasBits_or_self (x : UInt32) (hm : m ≠ 0) : HasBits (x ||| m) m := by
  have hbits : (x ||| m) &&& m = m := by
    rw [← UInt32.toBitVec_inj]
    ext i hi
    simp only [UInt32.toBitVec_and, UInt32.toBitVec_or, BitVec.getElem_and, BitVec.getElem_or]
    cases m.toBitVec[i] <;> simp
  rw [HasBits, hbits]
  exact hm

theorem HasBits.and_not (h : HasBits x m) {y : UInt32} (hy : ~~~y &&& m = m) :
    HasBits (x &&& ~~~y) m := by
  rw [HasBits, UInt32.and_assoc, hy]
  exact h

theorem hasBits_iff : HasBits x m ↔ ∃ i, x.toNat.testBit i ∧ m.toNat.testBit i := by
  rw [HasBits, ne_eq, ← UInt32.toNat_inj, UInt32.toNat_and, UInt32.toNat_zero]
  constructor
  · intro h
    obtain ⟨i, hi⟩ := Nat.exists_testBit_of_ne_zero h
    rw [Nat.testBit_and, Bool.and_eq_true] at hi
    exact ⟨i, hi⟩
  · rintro ⟨i, hx, hm⟩ hzero
    have hbit : (x.toNat &&& m.toNat).testBit i = true := by
      rw [Nat.testBit_and, hx, hm]
      rfl
    rw [hzero, Nat.zero_testBit] at hbit
    cases hbit

theorem hasBits_or {y : UInt32} : HasBits (x ||| y) m ↔ HasBits x m ∨ HasBits y m := by
  simp only [hasBits_iff, UInt32.toNat_or, Nat.testBit_or, Bool.or_eq_true, or_and_right, exists_or]

theorem HasBits.or (h : HasBits x m) (y : UInt32) : HasBits (x ||| y) m := hasBits_or.mpr (Or.inl h)

theorem HasBits.of_and {y : UInt32} (h : HasBits (x &&& y) m) : HasBits x m := by
  obtain ⟨i, hx, hm⟩ := hasBits_iff.mp h
  rw [UInt32.toNat_and, Nat.testBit_and, Bool.and_eq_true] at hx
  exact hasBits_iff.mpr ⟨i, hx.1, hm⟩

/-- The mask `m` is a single bit. -/
def IsBit (m : UInt32) : Prop := ∃ k < 32, m.toNat = 2 ^ k

theorem IsBit.ne_zero (h : IsBit m) : m ≠ 0 := by
  obtain ⟨k, _, hk⟩ := h
  intro hzero
  rw [hzero, UInt32.toNat_zero] at hk
  exact absurd hk.symm (Nat.two_pow_pos k).ne'

theorem isBit_shiftLeft (hs : s.toNat = k) (hk : k < 32) : IsBit (1 <<< s) := by
  refine ⟨k, hk, ?_⟩
  have hlt : 2 ^ k < 2 ^ 32 := Nat.pow_lt_pow_right (by decide) hk
  rw [toNat_shiftLeft_of_lt hs hk (by rwa [UInt32.toNat_one, Nat.one_mul]), UInt32.toNat_one,
    Nat.one_mul]

theorem hasBits_testBit (hm : m.toNat = 2 ^ k) : HasBits x m ↔ x.toNat.testBit k := by
  rw [hasBits_iff, hm]
  constructor
  · rintro ⟨i, hx, hi⟩
    rw [Nat.testBit_two_pow, decide_eq_true_eq] at hi
    exact hi ▸ hx
  · exact fun hx => ⟨k, hx, Nat.testBit_two_pow_self⟩

theorem IsBit.hasBits_iff (h : IsBit x) (hm : IsBit m) : HasBits x m ↔ x = m := by
  obtain ⟨j, _, hj⟩ := h
  obtain ⟨k, _, hk⟩ := hm
  rw [hasBits_testBit hk, hj, Nat.testBit_two_pow, decide_eq_true_eq, ← UInt32.toNat_inj, hj, hk,
    Nat.pow_right_inj (le_refl 2)]

/-- A field of `w` bits, set `k` bits up, sets no bit outside it. -/
theorem not_hasBits_field {n w j : Nat} (hn : n < 2 ^ w) (hs : s.toNat = k) (hk : k < 32)
    (hw : w + k ≤ 32) (hm : m.toNat = 2 ^ j) (hj : j < k ∨ w + k ≤ j) :
    ¬HasBits (UInt32.ofNat n <<< s) m := by
  rw [hasBits_testBit hm, toNat_field hn hs hk hw, Nat.testBit_mul_two_pow, Bool.and_eq_true,
    decide_eq_true_eq]
  rintro ⟨hkj, htest⟩
  rcases hj with hlow | hhigh
  · exact absurd hkj (Nat.not_le.mpr hlow)
  · have hn' : n < 2 ^ (j - k) := hn.trans_le (Nat.pow_le_pow_right (by decide) (by omega))
    rw [Nat.testBit_lt_two_pow hn'] at htest
    exact Bool.noConfusion htest

/-- Clearing the bits of `y` clears a single bit when it is one of them. -/
theorem IsBit.hasBits_and_not (hm : IsBit m) {y : UInt32} :
    HasBits (x &&& ~~~y) m ↔ HasBits x m ∧ ¬HasBits y m := by
  obtain ⟨k, hlt, hk⟩ := hm
  have hnot : (~~~y).toNat.testBit k = !y.toNat.testBit k := by
    rw [← UInt32.toNat_toBitVec, ← UInt32.toNat_toBitVec, BitVec.testBit_toNat,
      BitVec.testBit_toNat, UInt32.toBitVec_not, BitVec.getLsbD_not, decide_eq_true hlt,
      Bool.true_and]
  rw [hasBits_testBit hk, hasBits_testBit hk, hasBits_testBit hk, UInt32.toNat_and, Nat.testBit_and,
    hnot, Bool.and_eq_true, Bool.not_eq_true', Bool.not_eq_true]

end Lib.Words
