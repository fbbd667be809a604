import PrplHypervisor.Lib.LinkedList
import PrplHypervisor.Lib.Runs
import PrplHypervisor.Lib.Words

/-! The heap of a bare-metal guest (`bare-metal-apps/lib/malloc.c`).  The blocks are linked in the
order of their addresses.  `malloc` sweeps over them once: it joins the free blocks between two used
ones and takes the first that is large enough.  The sweep is to end at a marker at the end of the
heap, but `init_mem` writes the marker over the first block, with `sizeof` of a pointer for the size
of the heap. -/

namespace PrplHypervisor.Guest

open Lib.LinkedList Lib.Runs Lib.Words

/-- The words of the memory of a guest, by their addresses. -/
abbrev Words := UInt32 → UInt32

/-! A `struct mem_block` has two words: the link, and the size with the mark of a used block. -/

def next (mem : Words) (p : UInt32) : UInt32 := mem p

def blockSize (mem : Words) (p : UInt32) : UInt32 := mem (p + 4)

def isUsed (mem : Words) (p : UInt32) : Bool := blockSize mem p &&& 1 ≠ 0

def setBlock (mem : Words) (p link size : UInt32) : Words :=
  Function.update (Function.update mem (p + 4) size) p link

def align4 (x : UInt32) : UInt32 := ((x + 3) >>> 2) <<< 2

/-- The memory and the static variables of the allocator. -/
structure GuestHeap where
  mem : Words
  krnlFree : UInt32
  krnlHeap : UInt32

/-- `init_mem`, with the symbols of the linker.  The end marker is 4 bytes below the first block,
with its second word over the link of that block. -/
def initMem (heapStart heapSize : UInt32) (mem : Words) : GuestHeap :=
  let krnlHeap := (heapStart + 8) &&& 0xFFFFFFFC
  let len := align4 ((heapSize - 8) &&& 0xFFFFFFFC)
  let p := krnlHeap
  let q := krnlHeap + 4 - 8
  let mem := setBlock mem p q (len - 8 - 8)
  let mem := setBlock mem q 0 0
  { mem := mem, krnlFree := blockSize mem p, krnlHeap := krnlHeap }

/-- `free`. -/
def free (h : GuestHeap) (ptr : UInt32) : GuestHeap :=
  let p := ptr - 8
  let size := blockSize h.mem p &&& ~~~1
  { h with
    mem := Function.update h.mem (p + 4) size
    krnlFree := h.krnlFree + (size + 8) }

/-- The loop over the used blocks, which takes `q` along. -/
def skipUsed (mem : Words) (fuel : Nat) (p q : UInt32) : Option (UInt32 × UInt32) :=
  whileLoop (fun s => isUsed mem s.1) (fun s => (next mem s.1, next mem s.1)) fuel (p, q)

/-- The loop over the free blocks. -/
def skipFree (mem : Words) (fuel : Nat) (p : UInt32) : Option UInt32 :=
  whileLoop (fun p => !isUsed mem p && next mem p ≠ 0) (next mem) fuel p

/-- The outer loop of `malloc`: the block to take, or `none` where it returns 0.  The loops are
given a number of passes, the outer one `n`. -/
def sweep (size : UInt32) (fuel : Nat) :
    Nat → Words → UInt32 → UInt32 → Option (Words × Option UInt32)
  | 0, _, _, _ => none
  | n + 1, mem, p, q =>
    if next mem p = 0 then some (mem, some p)
    else do
      let (p, q) ← skipUsed mem fuel p q
      let p ← skipFree mem fuel p
      let mem := if p ≠ 0 then setBlock mem q p (p - q - 8) else mem
      if next mem p = 0 ∧ blockSize mem q < size + 8 then return (mem, none)
      if size + 8 ≤ blockSize mem q then return (mem, some q)
      sweep size fuel n mem p q

/-- What `malloc` does with the block that it takes: it splits the rest off. -/
def split (mem : Words) (p size : UInt32) : Words :=
  let psize := (blockSize mem p &&& ~~~1) - size - 8
  let r := next mem p
  let mem := setBlock mem p (p + size + 8) (size ||| 1)
  setBlock mem (next mem p) r psize

/-- `malloc`. -/
def malloc (fuel : Nat) (h : GuestHeap) (size : UInt32) : Option (UInt32 × GuestHeap) := do
  let size := align4 size
  match ← sweep size fuel fuel h.mem h.krnlHeap h.krnlHeap with
  | (mem, none) => return (0, { h with mem := mem })
  | (mem, some p) =>
    return (p + 8, { h with mem := split mem p size, krnlFree := h.krnlFree - (size + 8) })

/-! ### Runs -/

/-- The symbols of the linker script for the heap, which starts at a word and has the stack
above. -/
structure HeapArea where
  start : UInt32
  size : UInt32
  aligned : 4 ∣ start.toNat
  below : start.toNat + size.toNat + 16 ≤ 2 ^ 32

def HeapArea.finish (a : HeapArea) : Nat := a.start.toNat + a.size.toNat

/-- The heap with the live pointers and the sizes that they were requested with. -/
structure GuestRun where
  heap : GuestHeap
  live : List (UInt32 × UInt32)

/-- A call of `malloc`, one of `free` for a live pointer, or a store of the guest to a word of a
live block. -/
inductive GuestEvent
  | malloc (size : UInt32)
  | free (i : Nat)
  | store (i : Nat) (offset value : UInt32)

def guestStep (fuel : Nat) (s : GuestRun) : GuestEvent → Option GuestRun
  | .malloc size =>
    (malloc fuel s.heap size).map fun r =>
      { heap := r.2, live := if r.1 = (0 : UInt32) then s.live else (r.1, size) :: s.live }
  | .free i =>
    match s.live[i]? with
    | none => some s
    | some b => some { heap := free s.heap b.1, live := s.live.eraseIdx i }
  | .store i offset value =>
    match s.live[i]? with
    | none => some s
    | some b =>
      if 4 ∣ offset.toNat ∧ offset < b.2 then
        some { s with heap := { s.heap with
          mem := Function.update s.heap.mem (b.1 + offset) value } }
      else some s

/-- The blocks `l` and the last one `t`, whose link does not go on. -/
structure IsChain (mem : Words) (h : UInt32) (l : List UInt32) (t : UInt32) : Prop where
  segment : Segment (next mem) h l t
  rising : Rising (next mem) UInt32.toNat 8 l
  back : (next mem t).toNat < t.toNat

/-- The size of a block for a request of `size` bytes. -/
def blockBytes (size : UInt32) : Nat := (size.toNat + 3) / 4 * 4

/-- Where the end marker belongs. -/
def HeapArea.endMarker (a : HeapArea) : Nat :=
  a.start.toNat + 8 + ((a.size - 8) &&& 0xFFFFFFFC).toNat - 8

/-- Adjacent free blocks have room for a request and its header.  The last block goes up to the end
marker. -/
def RunFits (a : HeapArea) (h : GuestHeap) (size : UInt32) : Prop :=
  ∃ l t, IsChain h.mem h.krnlHeap l t ∧ ∃ before f run behind,
    l ++ [t] = before ++ f :: run ++ behind ∧ (∀ b ∈ f :: run, isUsed h.mem b = false) ∧
    f.toNat + 8 + (blockBytes size + 8) ≤ behind.head?.elim a.endMarker UInt32.toNat

/-- The pointer `r` for `size` bytes is in the heap and apart from the live blocks. -/
structure InHeap (a : HeapArea) (s : GuestRun) (r size : UInt32) : Prop where
  low : a.start ≤ r
  high : r.toNat + size.toNat ≤ a.finish
  disjoint : ∀ b ∈ s.live, r.toNat + size.toNat ≤ b.1.toNat ∨ b.1.toNat + b.2.toNat ≤ r.toNat

/-- `malloc` returns, with 0 or with memory, and with 0 only for a request that fits nowhere. -/
def MallocSafe (a : HeapArea) (fuel : Nat) (s : GuestRun) : GuestEvent → Prop
  | .malloc size => ∃ r h, malloc fuel s.heap size = some (r, h) ∧
      (r = 0 ∨ InHeap a s r size) ∧ (r = 0 → ¬RunFits a s.heap size)
  | _ => True

def guestStart (a : HeapArea) (mem : Words) : GuestRun where
  heap := initMem a.start a.size mem
  live := []

end PrplHypervisor.Guest
