import Mathlib.Data.BitVec

/-! A double word as a high and a low half: shifting it by less than a half moves bits from one half
to the other, shifting it by a half moves the halves. -/

namespace Lib.Halves

variable {w : ℕ} (h l : BitVec w) {k : ℕ}

theorem append_shiftLeft (hk : k < w) :
    (h <<< k ||| l >>> (w - k)) ++ l <<< k = (h ++ l) <<< k := by
  ext i hi
  simp only [BitVec.getElem_append, BitVec.getElem_shiftLeft, BitVec.getElem_or,
    BitVec.getElem_ushiftRight]
  grind

theorem append_ushiftRight (hk : k < w) :
    h >>> k ++ (l >>> k ||| h <<< (w - k)) = (h ++ l) >>> k := by
  ext i hi
  simp only [BitVec.getElem_append, BitVec.getElem_shiftLeft, BitVec.getElem_or,
    BitVec.getElem_ushiftRight]
  grind

theorem append_sshiftRight (hk : k < w) :
    h.sshiftRight k ++ (l >>> k ||| h <<< (w - k)) = (h ++ l).sshiftRight k := by
  ext i hi
  simp only [BitVec.getElem_append, BitVec.getElem_shiftLeft, BitVec.getElem_or,
    BitVec.getElem_ushiftRight, BitVec.getElem_sshiftRight, BitVec.msb_append]
  grind

theorem append_shiftLeft_half : l ++ 0#w = (h ++ l) <<< w := by
  ext i hi
  simp only [BitVec.getElem_append, BitVec.getElem_shiftLeft]
  grind

theorem append_ushiftRight_half : 0#w ++ h = (h ++ l) >>> w := by
  ext i hi
  simp only [BitVec.getElem_append, BitVec.getElem_ushiftRight]
  grind

/-- The high half of an arithmetic shift by a half is all signs. -/
theorem append_sshiftRight_half (hw : 0 < w) :
    h.sshiftRight (w - 1) ++ h = (h ++ l).sshiftRight w := by
  ext i hi
  simp only [BitVec.getElem_append, BitVec.getElem_sshiftRight, BitVec.msb_append]
  grind

theorem append_low_inj {l' : BitVec w} : h ++ l = h ++ l' ↔ l = l' := by
  refine ⟨fun heq => ?_, fun heq => by rw [heq]⟩
  have hbits : ∀ i, (h ++ l).getLsbD i = (h ++ l').getLsbD i := fun i => by rw [heq]
  simp only [BitVec.getLsbD_append] at hbits
  ext i hi
  have := hbits i
  grind

theorem toNat_append : (h ++ l).toNat = h.toNat * 2 ^ w + l.toNat := by
  rw [BitVec.toNat_append, ← Nat.shiftLeft_add_eq_or_of_lt l.isLt, Nat.shiftLeft_eq]

end Lib.Halves
