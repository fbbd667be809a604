import Mathlib.Logic.Function.Basic
import PrplHypervisor.Lib.Words

/-! `memset` and `memcpy` of the C library (`sys/lib/libc.c`).  `memcpy` copies by words when both
addresses and the length are multiples of four, and by bytes otherwise.  The counter of the loops is
compared as a signed number. -/

namespace PrplHypervisor.Kernel

open Lib.Words

theorem toInt32_pos_iff (x : UInt32) : 0 < x.toInt32 ↔ 0 < x.toNat ∧ x.toNat < 2 ^ 31 := by
  have hlt := x.toNat_lt
  have hint : x.toInt32.toInt = x.toBitVec.toInt := rfl
  rw [Int32.lt_iff_toInt_lt, hint, BitVec.toInt_eq_toNat_cond, UInt32.toNat_toBitVec,
    show (0 : Int32).toInt = 0 from rfl]
  split_ifs with hsmall <;> omega

theorem toNat_pred {x : UInt32} (h : 0 < x.toNat) : (x - 1).toNat = x.toNat - 1 := by
  have hone : (1 : UInt32) ≤ x := UInt32.le_iff_toNat_le.mpr h
  rw [UInt32.toNat_sub_of_le _ _ hone, UInt32.toNat_one]

/-- A loop `while ((int) bytes-- > 0)` that copies `width` bytes at a time from the index `place`
on: the indexes that it copies. -/
def copyLoop (width place : Nat) (bytes : UInt32) : List Nat :=
  if 0 < bytes.toInt32 then
    List.range' place width ++ copyLoop width (place + width) (bytes - 1)
  else []
termination_by bytes.toNat
decreasing_by
  rename_i hpos
  rw [toInt32_pos_iff] at hpos
  rw [toNat_pred hpos.1]
  omega

/-- The byte indexes that `memcpy` copies, in order. -/
def memcpyIndexes (dst src bytes : UInt32) : List Nat :=
  if HasBits (dst ||| src ||| bytes) 3 then copyLoop 1 0 bytes
  else copyLoop 4 0 (bytes >>> 2)

/-- What `memcpy` leaves behind the destination address, where `source` and `object` are the memory
behind the two addresses. -/
def memcpy (dst src bytes : UInt32) (source object : Nat → UInt8) : Nat → UInt8 :=
  (memcpyIndexes dst src bytes).foldl (fun mem i => Function.update mem i (source i)) object

/-- The number of bytes that `memcpy` copies. -/
def memcpyCount (dst src bytes : UInt32) : Nat :=
  if HasBits (dst ||| src ||| bytes) 3 ∧ 2 ^ 31 ≤ bytes.toNat then 0 else bytes.toNat

theorem copyLoop_stop {width place : Nat} {bytes : UInt32} (h : bytes = 0 ∨ 2 ^ 31 ≤ bytes.toNat) :
    copyLoop width place bytes = [] := by
  rw [copyLoop, if_neg]
  rw [toInt32_pos_iff]
  rintro ⟨hpos, hlt⟩
  rcases h with rfl | h
  · exact absurd hpos (by decide)
  · omega

/-- A count that is not negative is the number of rounds. -/
theorem copyLoop_eq (width n : Nat) (hn : n < 2 ^ 31) :
    ∀ (place : Nat) (bytes : UInt32), bytes.toNat = n →
      copyLoop width place bytes = List.range' place (width * n) := by
  induction n with
  | zero =>
    intro place bytes hbytes
    rw [copyLoop_stop (Or.inl (UInt32.toNat_inj.mp hbytes))]
    rfl
  | succ n ih =>
    intro place bytes hbytes
    have hprev : (bytes - 1).toNat = n := by
      rw [toNat_pred (by omega)]
      omega
    rw [copyLoop, if_pos ((toInt32_pos_iff bytes).mpr (by omega)),
      ih (by omega) (place + width) (bytes - 1) hprev, List.range'_append_1, Nat.mul_succ,
      Nat.add_comm width]

theorem memcpyIndexes_eq (dst src bytes : UInt32) :
    memcpyIndexes dst src bytes = List.range (memcpyCount dst src bytes) := by
  have hlt := bytes.toNat_lt
  rw [memcpyIndexes, memcpyCount, List.range_eq_range']
  by_cases hbits : HasBits (dst ||| src ||| bytes) 3
  · rw [if_pos hbits]
    by_cases hbig : 2 ^ 31 ≤ bytes.toNat
    · rw [copyLoop_stop (Or.inr hbig), if_pos ⟨hbits, hbig⟩]
      rfl
    · rw [copyLoop_eq 1 bytes.toNat (by omega) 0 bytes rfl, if_neg fun h => hbig h.2, Nat.one_mul]
  · have hbytes : bytes.toNat % 2 ^ 2 = 0 := by
      have hnot : ¬HasBits bytes 3 := fun h => hbits (hasBits_or.mpr (Or.inr h))
      rw [HasBits, not_not] at hnot
      rw [← toNat_and_low (m := 3) (k := 2) rfl, hnot]
      rfl
    have hwords : (bytes >>> 2).toNat = bytes.toNat / 2 ^ 2 :=
      toNat_shiftRight (k := 2) rfl (by decide)
    rw [if_neg hbits, copyLoop_eq 4 (bytes.toNat / 2 ^ 2) (by omega) 0 _ hwords,
      if_neg fun h => hbits h.1]
    congr 1
    omega

theorem mem_memcpyIndexes {dst src bytes : UInt32} {i : Nat} :
    i ∈ memcpyIndexes dst src bytes ↔ i < memcpyCount dst src bytes := by
  rw [memcpyIndexes_eq, List.mem_range]

theorem memcpyCount_of_lt {bytes : UInt32} (dst src : UInt32) (h : bytes.toNat < 2 ^ 31) :
    memcpyCount dst src bytes = bytes.toNat :=
  if_neg fun hbig => absurd hbig.2 (Nat.not_le.mpr h)

theorem memcpyCount_le (dst src bytes : UInt32) : memcpyCount dst src bytes ≤ bytes.toNat := by
  unfold memcpyCount
  split_ifs
  · exact Nat.zero_le _
  · exact le_refl _

theorem memcpy_apply (dst src bytes : UInt32) (source object : Nat → UInt8) (i : Nat) :
    memcpy dst src bytes source object i =
      if i < memcpyCount dst src bytes then source i else object i := by
  rw [memcpy, memcpyIndexes_eq]
  induction memcpyCount dst src bytes with
  | zero => rfl
  | succ n ih =>
    rw [List.range_succ, List.foldl_append, List.foldl_cons, List.foldl_nil, Function.update_apply,
      ih]
    split_ifs <;> first | omega | simp_all

/-- A copy of no bytes leaves the object as it is. -/
theorem memcpy_none {dst src bytes : UInt32} (source object : Nat → UInt8)
    (h : memcpyCount dst src bytes = 0) : memcpy dst src bytes source object = object := by
  funext i
  rw [memcpy_apply, h, if_neg (Nat.not_lt_zero i)]

/-- What `memset` leaves in the memory `mem`, with the address `dst` as an index of it. -/
def memset (dst : Nat) (c : UInt8) (bytes : UInt32) (mem : Nat → UInt8) : Nat → UInt8 :=
  (copyLoop 1 dst bytes).foldl (fun mem i => Function.update mem i c) mem

/-- A length that is negative as a signed number is a length of zero. -/
theorem memset_of_ge (dst : Nat) (c : UInt8) {bytes : UInt32} (h : 2 ^ 31 ≤ bytes.toNat)
    (mem : Nat → UInt8) : memset dst c bytes mem = mem := by
  rw [memset, copyLoop_stop (Or.inr h)]
  rfl

theorem foldl_update (l : List Nat) (c : UInt8) (mem : Nat → UInt8) (i : Nat) :
    l.foldl (fun mem i => Function.update mem i c) mem i = if i ∈ l then c else mem i := by
  induction l generalizing mem with
  | nil => simp
  | cons j l ih =>
    rw [List.foldl_cons, ih, Function.update_apply]
    by_cases hl : i ∈ l
    · rw [if_pos hl, if_pos (List.mem_cons_of_mem j hl)]
    · simp only [hl, List.mem_cons, or_false, if_false]

theorem memset_apply (dst : Nat) (c : UInt8) {bytes : UInt32} (h : bytes.toNat < 2 ^ 31)
    (mem : Nat → UInt8) (i : Nat) :
    memset dst c bytes mem i = if dst ≤ i ∧ i < dst + bytes.toNat then c else mem i := by
  rw [memset, copyLoop_eq 1 bytes.toNat h dst bytes rfl, foldl_update]
  simp only [List.mem_range'_1, Nat.one_mul]

end PrplHypervisor.Kernel
