import PrplHypervisor.Kernel.Malloc
import PrplHypervisor.Kernel.Libc

/-! The bytes that a call of `malloc` or `calloc` gets.  `init_mem` rounds the length of the heap to
four bytes and `HeapInit` rounds it up to eight, so that the last unit may go beyond it.  The number
of units is computed in 32 bits, as is the product of `calloc`, and `memset` takes a length from
2^31 on for a negative one. -/

namespace PrplHypervisor.Kernel

open Lib.Circular Lib.Runs Lib.Words

/-- The length that `init_mem` passes for a heap of `heapSize` bytes. -/
def heapLen (heapSize : UInt32) : UInt32 := (heapSize - 8) &&& 0xFFFFFFFC

/-- `init_mem`.  The heap starts at `(heapStart + 8) & 0xFFFFFFFC`, from where on units and bytes
are counted. -/
def initMem (heapSize : UInt32) (h : Heap) : Heap := heapInit (heapLen heapSize) h

/-- `calloc`, with `content` the bytes of the heap.  It returns what `malloc` does. -/
def calloc (h : Heap) (content : Nat → UInt8) (qty typeSize : UInt32) :
    Option (Option Nat × Heap × (Nat → UInt8)) :=
  (malloc h (qty * typeSize)).map fun (buf, h) =>
    match buf with
    | none => (none, h, content)
    | some buf => (some buf, h, memset (8 * buf) 0 (qty * typeSize) content)

/-- The byte `i` behind the pointer `buf` is in the block that was reserved for it. -/
def Reserved (h : Heap) (buf i : Nat) : Prop :=
  8 * buf + i < 8 * (buf - 1 + (h.mem (buf - 1)).size)

instance (h : Heap) (buf i : Nat) : Decidable (Reserved h buf i) :=
  inferInstanceAs (Decidable (_ < _))

/-- The bytes that `malloc` returns are in the heap of `len` bytes and in their block. -/
def MallocFits (len : UInt32) (h : Heap) (size : UInt32) : Prop :=
  ∀ buf h', malloc h size = some (some buf, h') →
    ∀ i < size.toNat, 8 * buf + i < len.toNat ∧ Reserved h' buf i

/-- The bytes of all elements are in the block that `calloc` returns, and they are zero. -/
def CallocFits (h : Heap) (qty typeSize : UInt32) : Prop :=
  ∀ content buf h' content', calloc h content qty typeSize = some (some buf, h', content') →
    ∀ i < qty.toNat * typeSize.toNat, Reserved h' buf i ∧ content' (8 * buf + i) = 0

/-- No free block has the units for `size` bytes. -/
def NoneFits (h : Heap) (size : UInt32) : Prop :=
  ∀ b, Reachable h b → (h.mem b).size < (nunits size).toNat

/-- The first free block that is large enough ends at the end of the heap. -/
def TakesTop (h : Heap) (size : UInt32) : Prop :=
  ∃ f ∈ h.freep, ∃ p, FirstFit h.mem (nunits size).toNat f p ∧ p + (h.mem p).size = h.sfree.size

/-! ### Units and bytes -/

theorem toNat_nunits (size : UInt32) :
    (nunits size).toNat = (size.toNat + 7) % 2 ^ 32 / 8 + 1 := by
  have hsum : (size + 8 - 1).toNat = (size.toNat + 7) % 2 ^ 32 := by
    rw [UInt32.toNat_sub, UInt32.toNat_add, UInt32.toNat_one, show (8 : UInt32).toNat = 8 from rfl]
    omega
  have hlt : (size.toNat + 7) % 2 ^ 32 / 8 + 1 < 2 ^ 32 := by omega
  rw [nunits, UInt32.toNat_add, UInt32.toNat_div, hsum, UInt32.toNat_one]
  exact Nat.mod_eq_of_lt hlt

/-- The units of a heap of `len` bytes. -/
theorem toNat_nunits_sub_one (len : UInt32) :
    (nunits len - 1).toNat = (len.toNat + 7) % 2 ^ 32 / 8 := by
  have hone : (1 : UInt32) ≤ nunits len := UInt32.le_iff_toNat_le.mpr (nunits_pos len)
  rw [UInt32.toNat_sub_of_le _ _ hone, UInt32.toNat_one, toNat_nunits, Nat.add_sub_cancel]

theorem heapLen_mod (heapSize : UInt32) : (heapLen heapSize).toNat % 4 = 0 := by
  have hround : (heapLen heapSize).toNat = (heapSize - 8).toNat / 2 ^ 2 * 2 ^ 2 :=
    toNat_and_not_low (m := 3) (k := 2) rfl
  rw [hround]
  exact Nat.mul_mod_left _ 4

variable {total : Nat} {h : Heap} {live ring : List Nat}

theorem FirstFit.fits {mem : Nat → MemHeader} {n a p : Nat} (hp : FirstFit mem n a p) :
    n ≤ (mem p).size := hp.choose_spec.2.2

/-- The first block that is large enough is the only one. -/
theorem FirstFit.unique {mem : Nat → MemHeader} {n a p q : Nat} (hp : FirstFit mem n a p)
    (hq : FirstFit mem n a q) : p = q := by
  obtain ⟨l, hpath, hl, hfits⟩ := hp
  obtain ⟨l', hpath', hl', hfits'⟩ := hq
  induction l generalizing a l' with
  | nil =>
    have hnext : link mem a = p := hpath
    cases l' with
    | nil => exact hnext.symm.trans hpath'
    | cons c l' =>
      have hc : c = p := hpath'.1.symm.trans hnext
      exact absurd hfits (not_le.mpr (hc ▸ hl' c List.mem_cons_self))
  | cons b l ih =>
    have hb : (mem b).size < n := hl b List.mem_cons_self
    cases l' with
    | nil =>
      have hbq : b = q := hpath.1.symm.trans hpath'
      exact absurd hfits' (not_le.mpr (hbq ▸ hb))
    | cons c l' =>
      obtain rfl : b = c := hpath.1.symm.trans hpath'.1
      exact ih hpath.2 (fun x hx => hl x (List.mem_cons_of_mem _ hx)) l' hpath'.2
        fun x hx => hl' x (List.mem_cons_of_mem _ hx)

/-- The block that `malloc` returns has the units that it asked for, at the end of the first free
block that is large enough. -/
theorem HeapOk.malloc_block (hok : HeapOk total h live ring) (size : UInt32) :
    (malloc h size = some (none, h) ∧ NoneFits h size) ∨
    ¬NoneFits h size ∧ ∃ f ∈ h.freep, ∃ p ∈ ring, FirstFit h.mem (nunits size).toNat f p ∧
      ∃ b h', malloc h size = some (some (b + 1), h') ∧ (h'.mem b).size = (nunits size).toNat ∧
        b + (nunits size).toNat = p + (h.mem p).size := by
  rcases hok.malloc_cases size with ⟨hcall, hsmall⟩ | ⟨f, hf, q, t, p, hr, hp, hfirst, hcall⟩
  · exact Or.inl ⟨hcall, fun b hb => hsmall b ((hok.reachable_iff b).mp hb)⟩
  have hpath : LinkPath (link h.mem) q t q := (hok.rotate hr).linked
  have hmem : p ∈ ring := hr.mem_iff.mpr (hp ▸ hpath.mem_next List.mem_cons_self)
  have hfits := hfirst.fits
  refine Or.inr ⟨fun hnone => ?_, f, hf, p, hmem, hfirst, ?_⟩
  · exact absurd hfits (not_le.mpr (hnone p ((hok.reachable_iff p).mpr hmem)))
  by_cases hexact : (h.mem p).size = (nunits size).toNat
  · rw [if_pos hexact] at hcall
    exact ⟨p, _, hcall, by rw [setLink_size, hexact], by rw [hexact]⟩
  · rw [if_neg hexact] at hcall
    exact ⟨_, _, hcall, by simp only [Function.update_self], by omega⟩

/-! ### Which calls get their bytes -/

/-- The condition on a call of `malloc`: the number of bytes is not rounded up beyond 2^32, and the
half unit that the heap may have too much at its end is not a part of them. -/
def StaysInHeap (len : UInt32) (h : Heap) (size : UInt32) : Prop :=
  size.toNat ≤ 2 ^ 32 - 8 ∧
    (len.toNat % 8 = 0 ∨ ¬TakesTop h size ∨ size.toNat = 0 ∨
      1 ≤ size.toNat % 8 ∧ size.toNat % 8 ≤ 4)

theorem forall_lt_iff {base size a b : Nat} :
    (∀ i < size, base + i < a ∧ base + i < b) ↔ size = 0 ∨ base + size ≤ a ∧ base + size ≤ b := by
  constructor
  · intro hall
    rcases Nat.eq_zero_or_pos size with hzero | hpos
    · exact Or.inl hzero
    · have hlast := hall (size - 1) (by omega)
      exact Or.inr (by omega)
  · rintro (rfl | hends) i hi
    · exact absurd hi (Nat.not_lt_zero i)
    · omega

theorem HeapOk.takesTop_iff (hok : HeapOk total h live ring) {size : UInt32} {f p : Nat}
    (hf : f ∈ h.freep) (hfirst : FirstFit h.mem (nunits size).toNat f p) :
    TakesTop h size ↔ p + (h.mem p).size = total := by
  have htotal : h.sfree.size = total := by rw [hok.sfree]
  constructor
  · rintro ⟨f', hf', q, hfirst', hend⟩
    obtain rfl := Option.mem_unique hf hf'
    rw [hfirst.unique hfirst', hend, htotal]
  · exact fun hend => ⟨f, hf, p, hfirst, hend.trans htotal.symm⟩

theorem HeapOk.mallocFits_iff {len : UInt32} (hok : HeapOk (nunits len - 1).toNat h live ring)
    (hlen : len.toNat % 4 = 0) (size : UInt32) :
    MallocFits len h size ↔ NoneFits h size ∨ StaysInHeap len h size := by
  rcases hok.malloc_block size with
    ⟨hcall, hnone⟩ | ⟨hsome, f, hf, p, hp, hfirst, b, h', hcall, hunits, hend⟩
  · refine iff_of_true (fun buf h' hc => ?_) (Or.inl hnone)
    simp only [hcall, Option.some.injEq, Prod.mk.injEq, reduceCtorEq, false_and] at hc
  have honly : MallocFits len h size ↔
      ∀ i < size.toNat, 8 * (b + 1) + i < len.toNat ∧
        8 * (b + 1) + i < 8 * (b + (nunits size).toNat) := by
    constructor
    · intro hall
      simpa only [Reserved, Nat.add_sub_cancel, hunits] using hall (b + 1) h' hcall
    · intro hall buf h'' hc
      rw [hcall] at hc
      obtain ⟨rfl, rfl⟩ := by simpa only [Option.some.injEq, Prod.mk.injEq] using hc
      simpa only [Reserved, Nat.add_sub_cancel, hunits] using hall
  have hwithin := hok.within p (List.mem_append_left _ hp)
  have hlt := size.toNat_lt
  have hlt' := len.toNat_lt
  rw [honly, forall_lt_iff, or_iff_right hsome, StaysInHeap, hok.takesTop_iff hf hfirst, ← hend]
  rw [← hend] at hwithin
  rw [toNat_nunits] at hwithin ⊢
  rw [toNat_nunits_sub_one] at hwithin ⊢
  omega

theorem HeapOk.callocFits_iff (hok : HeapOk total h live ring) (qty typeSize : UInt32) :
    CallocFits h qty typeSize ↔
      NoneFits h (qty * typeSize) ∨ qty.toNat * typeSize.toNat < 2 ^ 31 := by
  have hproduct : (qty * typeSize).toNat = qty.toNat * typeSize.toNat % 2 ^ 32 :=
    UInt32.toNat_mul qty typeSize
  rcases hok.malloc_block (qty * typeSize) with
    ⟨hcall, hnone⟩ | ⟨hsome, f, hf, p, hp, hfirst, b, h', hcall, hunits, hend⟩
  · refine iff_of_true (fun content buf h' content' hc => ?_) (Or.inl hnone)
    simp only [calloc, hcall, Option.map_some, Option.some.injEq, Prod.mk.injEq, reduceCtorEq,
      false_and] at hc
  have honly : CallocFits h qty typeSize ↔
      ∀ content : Nat → UInt8, ∀ i < qty.toNat * typeSize.toNat,
        8 * (b + 1) + i < 8 * (b + (nunits (qty * typeSize)).toNat) ∧
          memset (8 * (b + 1)) 0 (qty * typeSize) content (8 * (b + 1) + i) = 0 := by
    have hcalloc : ∀ content, calloc h content qty typeSize =
        some (some (b + 1), h', memset (8 * (b + 1)) 0 (qty * typeSize) content) := by
      intro content
      rw [calloc, hcall]
      rfl
    constructor
    · intro hall content
      have := hall content (b + 1) h' _ (hcalloc content)
      simpa only [Reserved, Nat.add_sub_cancel, hunits] using this
    · intro hall content buf h'' content' hc
      rw [hcalloc content] at hc
      obtain ⟨rfl, rfl, rfl⟩ := by simpa only [Option.some.injEq, Prod.mk.injEq] using hc
      simpa only [Reserved, Nat.add_sub_cancel, hunits] using hall content
  rw [honly, or_iff_right hsome, toNat_nunits]
  constructor
  · -- bytes that are not all in the block, or that stay as they are
    intro hall
    by_contra hbig
    by_cases hneg : 2 ^ 31 ≤ (qty * typeSize).toNat
    · have hzero := (hall (fun _ => 1) 0 (by omega)).2
      rw [memset_of_ge _ _ hneg] at hzero
      exact absurd hzero (by decide)
    · have hlast := (hall (fun _ => 0) (qty.toNat * typeSize.toNat - 1) (by omega)).1
      omega
  · intro hsmall content i hi
    rw [Nat.mod_eq_of_lt (by omega)] at hproduct
    refine ⟨by omega, ?_⟩
    rw [memset_apply _ _ (by omega), if_pos (by omega)]

/-- From the first `init_mem` on, after every run in which no call takes all of the only free block
or joins a block to it from below, a call of `malloc` returns `NULL` or all of its bytes exactly
when it meets the condition, and one of `calloc` when its bytes are fewer than 2^31. -/
theorem heap_bytes_iff (heapSize : UInt32) (h : Heap) (hfirst : h.freep = none)
    (es : List HeapEvent) (hkeeps : Guarded heapStep KeepsFreeBlock ⟨initMem heapSize h, []⟩ es) :
    ∃ s, run heapStep ⟨initMem heapSize h, []⟩ es = some s ∧
      (∀ size, MallocFits (heapLen heapSize) s.heap size ↔
        NoneFits s.heap size ∨ StaysInHeap (heapLen heapSize) s.heap size) ∧
      ∀ qty typeSize, CallocFits s.heap qty typeSize ↔
        NoneFits s.heap (qty * typeSize) ∨ qty.toNat * typeSize.toNat < 2 ^ 31 := by
  obtain ⟨s, hrun, ring, hok⟩ := run_guarded
    (P := fun s => ∃ ring, HeapOk (nunits (heapLen heapSize) - 1).toNat s.heap s.live ring)
    (fun s e ⟨ring, hok⟩ he => hok.step e he) ⟨[0], heapInit_first _ h hfirst⟩ hkeeps
  exact ⟨s, hrun, hok.mallocFits_iff (heapLen_mod heapSize), hok.callocFits_iff⟩

theorem heap_bytes_kilobyte :
    ∃ s, run heapStep ⟨initMem 1032 .cleared, []⟩ [.malloc 100, .malloc 24, .free 1] = some s ∧
      (∀ size, MallocFits (heapLen 1032) s.heap size ↔
        NoneFits s.heap size ∨ StaysInHeap (heapLen 1032) s.heap size) ∧
      ∀ qty typeSize, CallocFits s.heap qty typeSize ↔
        NoneFits s.heap (qty * typeSize) ∨ qty.toNat * typeSize.toNat < 2 ^ 31 :=
  heap_bytes_iff 1032 .cleared rfl _ (by decide +kernel)

/-- A heap of 132 bytes has 17 units: the upper half of an allocation of 8 bytes is beyond its end.
A request of 2^32 - 1 bytes gets a block without any, and so do 2^29 elements of 8 bytes. -/
theorem malloc_beyond_heap :
    ∃ s, run heapStep ⟨initMem 140 .cleared, []⟩ [] = some s ∧
      ¬MallocFits (heapLen 140) s.heap 8 ∧ ¬MallocFits (heapLen 140) s.heap 0xFFFFFFFF ∧
      ¬CallocFits s.heap 0x20000000 8 := by
  refine ⟨_, rfl, fun hfits => ?_, fun hfits => ?_, fun hfits => ?_⟩
  · have hlast := (hfits 16 _ rfl 7 (by decide)).1
    exact absurd hlast (by decide)
  · have hblock := (hfits 17 _ rfl 0 (by decide)).2
    exact absurd hblock (by decide)
  · have hblock := (hfits (fun _ => 0) 17 _ _ rfl 0 (by decide)).1
    exact absurd hblock (by decide)

end PrplHypervisor.Kernel
