import PrplHypervisor.Kernel.Libc
import PrplHypervisor.Lib.Copy

/-! The two paths of `memcpy` (`sys/lib/libc.c`) on one memory, where the ranges may overlap.  The
word path takes four bytes at a time. -/

namespace PrplHypervisor.Kernel

open Lib.Words Lib.Copy

/-- The memory, by address. -/
abbrev Bytes := UInt32 → UInt8

/-- An aligned word, as the four bytes that it has in the memory. -/
def loadWord (mem : Bytes) (src : UInt32) : Fin 4 → UInt8
  | 0 => mem src
  | 1 => mem (src + 1)
  | 2 => mem (src + 2)
  | 3 => mem (src + 3)

def storeWord (mem : Bytes) (dst : UInt32) (word : Fin 4 → UInt8) : Bytes :=
  let mem := Function.update mem dst (word 0)
  let mem := Function.update mem (dst + 1) (word 1)
  let mem := Function.update mem (dst + 2) (word 2)
  Function.update mem (dst + 3) (word 3)

/-- The loop of `memcpy` that copies bytes. -/
def byteLoop (mem : Bytes) (dst src bytes : UInt32) : Bytes :=
  if 0 < bytes.toInt32 then
    byteLoop (Function.update mem dst (mem src)) (dst + 1) (src + 1) (bytes - 1)
  else mem
termination_by bytes.toNat
decreasing_by
  rename_i hpos
  rw [toInt32_pos_iff] at hpos
  rw [toNat_pred hpos.1]
  omega

/-- The loop of `memcpy` that copies words, for a count of words. -/
def wordLoop (mem : Bytes) (dst src words : UInt32) : Bytes :=
  if 0 < words.toInt32 then
    wordLoop (storeWord mem dst (loadWord mem src)) (dst + 4) (src + 4) (words - 1)
  else mem
termination_by words.toNat
decreasing_by
  rename_i hpos
  rw [toInt32_pos_iff] at hpos
  rw [toNat_pred hpos.1]
  omega

/-- `memcpy` on the memory. -/
def memcpyMem (mem : Bytes) (dst src bytes : UInt32) : Bytes :=
  if HasBits (dst ||| src ||| bytes) 3 then byteLoop mem dst src bytes
  else wordLoop mem dst src (bytes >>> 2)

/-- The address of byte `i` behind `base`. -/
def byteAt (base : UInt32) (i : Nat) : UInt32 := base + UInt32.ofNat i

@[simp] theorem byteAt_zero (base : UInt32) : byteAt base 0 = base := UInt32.add_zero base

theorem byteAt_add (base : UInt32) (m n : Nat) :
    byteAt base (m + n) = byteAt (byteAt base m) n := by
  rw [byteAt, byteAt, byteAt, UInt32.ofNat_add, UInt32.add_assoc]

theorem byteAt_inj (base : UInt32) {i j : Nat} (hi : i < 2 ^ 32) (hj : j < 2 ^ 32) :
    byteAt base i = byteAt base j ↔ i = j := by
  rw [byteAt, byteAt, UInt32.add_right_inj, ← UInt32.toNat_inj, UInt32.toNat_ofNat_of_lt' hi,
    UInt32.toNat_ofNat_of_lt' hj]

/-- The byte loop copies as many bytes as its count, which it reads as signed. -/
theorem byteLoop_eq {n : Nat} (hn : n < 2 ^ 31) (mem : Bytes) (dst src : UInt32) {bytes : UInt32}
    (hbytes : bytes.toNat = n) :
    byteLoop mem dst src bytes = copySeq (byteAt dst) (byteAt src) mem n := by
  induction n generalizing mem dst src bytes with
  | zero =>
    rw [byteLoop, if_neg]
    · rfl
    · rw [toInt32_pos_iff]
      omega
  | succ n ih =>
    have hprev : (bytes - 1).toNat = n := by
      rw [toNat_pred (by omega)]
      omega
    rw [byteLoop, if_pos ((toInt32_pos_iff bytes).mpr (by omega)), ih (by omega) _ _ _ hprev,
      Nat.add_comm n, copySeq_add]
    simp only [copySeq, byteAt_add, byteAt_zero]
    rfl

theorem byteLoop_of_ge (mem : Bytes) (dst src : UInt32) {bytes : UInt32}
    (h : 2 ^ 31 ≤ bytes.toNat) : byteLoop mem dst src bytes = mem := by
  rw [byteLoop, if_neg]
  rw [toInt32_pos_iff]
  omega

/-- Loading a word and storing it copies four bytes at once. -/
theorem storeWord_loadWord (mem : Bytes) (dst src : UInt32) :
    storeWord mem dst (loadWord mem src) = copyAtOnce (byteAt dst) (byteAt src) mem 4 := by
  simp only [copyAtOnce, byteAt_zero]
  rfl

/-- Two words that are a multiple of four apart are the same word or have no byte in common, so
that four bytes at once are four bytes one by one. -/
theorem copySeq_word (mem : Bytes) {dst src : UInt32} (hdst : dst.toNat % 4 = 0)
    (hsrc : src.toNat % 4 = 0) :
    copySeq (byteAt dst) (byteAt src) mem 4 = copyAtOnce (byteAt dst) (byteAt src) mem 4 := by
  refine copySeq_eq_atOnce fun j hj i hi heq => ?_
  have hj4 : (UInt32.ofNat j).toNat = j := UInt32.toNat_ofNat_of_lt' (by rw [UInt32.size]; omega)
  have hi4 : (UInt32.ofNat i).toNat = i := UInt32.toNat_ofNat_of_lt' (by rw [UInt32.size]; omega)
  have hnat := congrArg UInt32.toNat heq
  rw [byteAt, byteAt, UInt32.toNat_add, UInt32.toNat_add, hj4, hi4] at hnat
  omega

/-- The word loop copies the bytes of its words one by one. -/
theorem wordLoop_eq {n : Nat} (hn : n < 2 ^ 30) (mem : Bytes) {dst src words : UInt32}
    (hdst : dst.toNat % 4 = 0) (hsrc : src.toNat % 4 = 0) (hwords : words.toNat = n) :
    wordLoop mem dst src words = copySeq (byteAt dst) (byteAt src) mem (4 * n) := by
  induction n generalizing mem dst src words with
  | zero =>
    rw [wordLoop, if_neg]
    · rfl
    · rw [toInt32_pos_iff]
      omega
  | succ n ih =>
    have hprev : (words - 1).toNat = n := by
      rw [toNat_pred (by omega)]
      omega
    have hnext : ∀ base : UInt32, base.toNat % 4 = 0 → (base + 4).toNat % 4 = 0 := by
      intro base hbase
      rw [UInt32.toNat_add, show (4 : UInt32).toNat = 4 from rfl]
      omega
    rw [wordLoop, if_pos ((toInt32_pos_iff words).mpr (by omega)),
      ih (by omega) _ (hnext dst hdst) (hnext src hsrc) hprev, storeWord_loadWord,
      ← copySeq_word mem hdst hsrc, Nat.mul_succ, Nat.add_comm (4 * n), copySeq_add]
    simp only [byteAt_add]
    rfl

theorem hasBits_three_iff (x : UInt32) : HasBits x 3 ↔ x.toNat % 4 ≠ 0 := by
  rw [HasBits, ne_eq, ← UInt32.toNat_inj, toNat_and_low (k := 2) rfl, UInt32.toNat_zero]
  rfl

/-- Both paths copy byte after byte, as many as `memcpyCount` says. -/
theorem memcpyMem_eq (mem : Bytes) (dst src bytes : UInt32) :
    memcpyMem mem dst src bytes =
      copySeq (byteAt dst) (byteAt src) mem (memcpyCount dst src bytes) := by
  have hlt := bytes.toNat_lt
  rw [memcpyMem, memcpyCount]
  by_cases hbits : HasBits (dst ||| src ||| bytes) 3
  · rw [if_pos hbits]
    rcases Nat.lt_or_ge bytes.toNat (2 ^ 31) with hsmall | hbig
    · rw [if_neg fun h => absurd h.2 (not_le.mpr hsmall)]
      exact byteLoop_eq hsmall mem dst src rfl
    · rw [if_pos ⟨hbits, hbig⟩]
      exact byteLoop_of_ge mem dst src hbig
  · have hwords : (bytes >>> 2).toNat = bytes.toNat / 2 ^ 2 :=
      toNat_shiftRight (k := 2) rfl (by decide)
    rw [if_neg hbits, if_neg fun h => hbits h.1]
    rw [hasBits_or, hasBits_or] at hbits
    simp only [hasBits_three_iff, ne_eq, not_or, not_not] at hbits
    rw [wordLoop_eq (by omega) mem hbits.1.1 hbits.1.2 hwords]
    congr 1
    omega

/-- The word path is taken when all three arguments are multiples of four. -/
theorem memcpyCount_aligned {dst src bytes : UInt32} (hdst : dst.toNat % 4 = 0)
    (hsrc : src.toNat % 4 = 0) (hbytes : bytes.toNat % 4 = 0) :
    memcpyCount dst src bytes = bytes.toNat := by
  refine if_neg fun h => absurd h.1 ?_
  rw [hasBits_or, hasBits_or]
  simp only [hasBits_three_iff, hdst, hsrc, hbytes, ne_eq, not_true_eq_false, or_self,
    not_false_eq_true]

theorem byteAt_distinct (base : UInt32) {n : Nat} (hn : n < 2 ^ 32) :
    ∀ j < n, ∀ i < j, byteAt base j ≠ byteAt base i := by
  intro j hj i hi heq
  have := (byteAt_inj base (by omega) (by omega)).mp heq
  omega

/-- Where the ranges do not overlap, the memory behind the destination is what `memcpy` makes of the
memory behind the two addresses. -/
theorem memcpyMem_of_disjoint (mem : Bytes) (dst src bytes : UInt32)
    (h : ∀ j < memcpyCount dst src bytes, ∀ i < memcpyCount dst src bytes,
      byteAt src j ≠ byteAt dst i) {i : Nat} (hi : i < 2 ^ 32) :
    memcpyMem mem dst src bytes (byteAt dst i) =
      memcpy dst src bytes (fun j => mem (byteAt src j)) (fun j => mem (byteAt dst j)) i := by
  have hcount := memcpyCount_le dst src bytes
  have hlt := bytes.toNat_lt
  have honce : copySeq (byteAt dst) (byteAt src) mem (memcpyCount dst src bytes) =
      copyAtOnce (byteAt dst) (byteAt src) mem (memcpyCount dst src bytes) :=
    copySeq_eq_atOnce fun j hj i hi => h j hj i (hi.trans hj)
  rw [memcpyMem_eq, memcpy_apply]
  by_cases hin : i < memcpyCount dst src bytes
  · rw [if_pos hin, honce]
    exact copyAtOnce_apply (byteAt_distinct dst (hcount.trans_lt hlt)) hin
  · rw [if_neg hin]
    refine copySeq_of_ne fun j hj heq => hin ?_
    have := (byteAt_inj dst hi (by omega)).mp heq
    omega

/-- The word path leaves the memory that the byte path would leave, if the count is not negative as
a signed number.  For a negative one the byte path copies nothing, and the word path does not
differ where every byte is already where it goes. -/
theorem memcpyMem_eq_byteLoop_iff (mem : Bytes) {dst src bytes : UInt32} (hdst : dst.toNat % 4 = 0)
    (hsrc : src.toNat % 4 = 0) (hbytes : bytes.toNat % 4 = 0) :
    memcpyMem mem dst src bytes = byteLoop mem dst src bytes ↔
      bytes.toNat < 2 ^ 31 ∨ ∀ i < bytes.toNat, mem (byteAt dst i) = mem (byteAt src i) := by
  rw [memcpyMem_eq, memcpyCount_aligned hdst hsrc hbytes]
  rcases Nat.lt_or_ge bytes.toNat (2 ^ 31) with hlt | hge
  · exact ⟨fun _ => .inl hlt, fun _ => (byteLoop_eq hlt mem dst src rfl).symm⟩
  · rw [byteLoop_of_ge mem dst src hge, copySeq_eq_self_iff (byteAt_distinct dst bytes.toNat_lt)]
    exact ⟨.inr, fun h => h.resolve_left (not_lt.mpr hge)⟩

/-- The two paths of `memcpy`, for aligned arguments. -/
theorem memcpy_paths_iff (mem : Bytes) (dst src bytes : UInt32) (hdst : 4 ∣ dst.toNat)
    (hsrc : 4 ∣ src.toNat) (hbytes : 4 ∣ bytes.toNat) :
    memcpyMem mem dst src bytes = byteLoop mem dst src bytes ↔
      bytes.toNat < 2 ^ 31 ∨ ∀ i < bytes.toNat, mem (byteAt dst i) = mem (byteAt src i) :=
  memcpyMem_eq_byteLoop_iff mem (Nat.mod_eq_zero_of_dvd hdst) (Nat.mod_eq_zero_of_dvd hsrc)
    (Nat.mod_eq_zero_of_dvd hbytes)

/-- Eight bytes moved up by four, over themselves. -/
theorem memcpy_paths_overlap :
    memcpyMem (fun a => a.toUInt8) 4 0 8 = byteLoop (fun a => a.toUInt8) 4 0 8 :=
  (memcpy_paths_iff _ 4 0 8 (by decide) (by decide) (by decide)).mpr (.inl (by decide))

/-- With a count of `2 ^ 31`, the word path copies the 1 at address 4 to address 0, and the byte
path copies nothing. -/
theorem memcpy_paths_differ :
    ¬∀ (mem : Bytes) (dst src bytes : UInt32), 4 ∣ dst.toNat → 4 ∣ src.toNat → 4 ∣ bytes.toNat →
      memcpyMem mem dst src bytes = byteLoop mem dst src bytes := by
  intro hall
  have h :=
    hall (fun a => if a = 4 then 1 else 0) 0 4 0x80000000 (by decide) (by decide) (by decide)
  rw [memcpyMem_eq_byteLoop_iff _ (by decide) (by decide) (by decide)] at h
  rcases h with h | h
  · exact absurd h (by decide)
  · exact absurd (h 0 (by decide)) (by decide)

end PrplHypervisor.Kernel
