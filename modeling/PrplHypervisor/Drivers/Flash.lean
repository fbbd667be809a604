import Mathlib.Algebra.Order.Ring.Int
import Mathlib.Data.List.Forall2
import PrplHypervisor.Drivers.GuestWindow
import PrplHypervisor.Drivers.MessageQueue
import PrplHypervisor.Lib.NorFlash
import PrplHypervisor.Lib.Runs
import PrplHypervisor.Lib.Words

/-! The driver of the flash memory (`pic32mz-puf-flash.c`): 1 KB of one page, which all VMs read and
write with hypercalls.  A call writes it by erasing the page and programming 64 quads, and a call
that returns answers 1024 whatever the controller reports.  A call whose buffer cannot be accessed
word by word does not return.  Over any run, with calls that are cut off in the middle, what is read
is what the last call to write has left there. -/

namespace PrplHypervisor.Drivers

open Arch Kernel Lib.NorFlash Lib.Runs

/-! ### The controller -/

/-- The registers of the NVM controller, the words of the flash memory at their physical addresses,
and whether the processor takes interrupts.  `nvmkey` has the keys that were written, the last one
first. -/
structure Nvm where
  nvmcon : UInt32
  nvmaddr : UInt32
  nvmdata : Nat → UInt32
  nvmkey : List UInt32
  flash : UInt32 → UInt32
  ie : Bool

/-- How an operation ends: its error bits, and the words that it leaves when it fails. -/
structure NvmAnswer where
  error : UInt32
  left : Option (UInt32 → UInt32)

/-- Programming clears bits. -/
def flashCell : Cell UInt32 where
  erased := 0xffffffff
  program old new := old &&& new
  program_erased _ := UInt32.neg_one_and

/-- The 16 KB page of an address. -/
def inPage (address a : UInt32) : Bool := a.toNat / 0x4000 = address.toNat / 0x4000

def inQuad (address a : UInt32) : Bool := a.toNat / 16 = address.toNat / 16

/-- What `NVMOP` selects, when `WREN` is set and the keys were written. -/
def Nvm.operation (n : Nvm) : Option (Op UInt32 UInt32) :=
  if n.nvmcon &&& 0x4000 = 0 ∨ n.nvmkey.take 2 ≠ [0x556699aa, 0xaa996655] then none
  else if n.nvmcon &&& 0xf = 4 then some (.erase (inPage n.nvmaddr))
  else if n.nvmcon &&& 0xf = 2 then
    some (.program (inQuad n.nvmaddr) fun a => n.nvmdata (a.toNat / 4 % 4))
  else none

/-- The controller from the time `WR` is set until it clears the bit. -/
def Nvm.start (n : Nvm) (answer : NvmAnswer) : Nvm :=
  { n with
    nvmcon := n.nvmcon &&& ~~~0x8000 ||| answer.error
    nvmkey := []
    flash :=
      match n.operation with
      | some op => exec flashCell op answer.left n.flash
      | none => n.flash }

/-! ### The driver -/

def pageFlash : UInt32 := 0xbd1fc000

def nvmUnlock (nvmop : UInt32) (answer : NvmAnswer) (n : Nvm) : UInt32 × Nvm :=
  let status := n.ie
  let n := { n with
    ie := false
    nvmcon := nvmop
    nvmkey := 0x556699aa :: 0xaa996655 :: 0 :: n.nvmkey }
  let n := { n with nvmcon := n.nvmcon ||| 0x8000 }.start answer
  let n := { n with
    ie := status
    nvmcon := n.nvmcon &&& ~~~0x4000 }
  (n.nvmcon &&& 0x3000, n)

def nvmErasePage (address : UInt32) (answer : NvmAnswer) (n : Nvm) : UInt32 × Nvm :=
  nvmUnlock 0x4004 answer { n with nvmaddr := address &&& 0x1fffffff }

def nvmWriteQuad (address : UInt32) (data : Nat → UInt32) (answer : NvmAnswer) (n : Nvm) :
    UInt32 × Nvm :=
  nvmUnlock 0x4002 answer { n with
    nvmaddr := address &&& 0x1fffffff
    nvmdata := data }

/-- `pageFlash + i` -/
def wordAddress (i : Nat) : UInt32 := pageFlash + UInt32.ofNat (4 * i)

/-- `buffer` is what it writes to the buffer of the guest. -/
def flashRead1Kbuffer (n : Nvm) : UInt32 × (Nat → UInt32) :=
  (1024, fun i => n.flash (wordAddress i &&& 0x1fffffff))

/-- The loop of `flash_write1Kbuffer`, up to its `k`-th quad.  `answers` are those of the operations
in their order, the erasure included. -/
def writeQuads (buffer : Nat → UInt32) (answers : Nat → NvmAnswer) (n : Nvm) : Nat → Nvm
  | 0 => n
  | k + 1 =>
    (nvmWriteQuad (wordAddress (4 * k)) (fun j => buffer (4 * k + j)) (answers (k + 1))
      (writeQuads buffer answers n k)).2

def flashWrite1Kbuffer (buffer : Nat → UInt32) (answers : Nat → NvmAnswer) (n : Nvm) :
    UInt32 × Nvm :=
  (1024, writeQuads buffer answers (nvmErasePage pageFlash (answers 0) n).2 64)

/-! ### Runs -/

/-- The hypervisor, the controller, what the calls of `flash_read` got, and what `v0` was after each
call. -/
structure FlashSystem where
  hv : Hv
  nvm : Nvm
  received : List (Nat → UInt32)
  returned : List UInt32

/-- `write` and `read` are hypercalls of the VCPU in execution that return.  `cut` is a call to
write that has begun `ops` operations when the power fails, or when a word of its buffer raises an
exception, which halts the hypervisor until a reset; then `hv` boots.  `other` is what else the
hypervisor does. -/
inductive FlashEvent
  | write (buffer : Nat → UInt32) (answers : Nat → NvmAnswer)
  | read
  | cut (buffer : Nat → UInt32) (answers : Nat → NvmAnswer) (ops : Nat) (hv : Hv)
  | other (hv : Hv)

/-- The operations of a call to write that have begun. -/
def writeOps (buffer : Nat → UInt32) (answers : Nat → NvmAnswer) (n : Nvm) : Nat → Nvm
  | 0 => n
  | k + 1 => writeQuads buffer answers (nvmErasePage pageFlash (answers 0) n).2 k

/-- The controller after a reset. -/
def Nvm.reset (n : Nvm) : Nvm := ⟨0, 0, fun _ => 0, [], n.flash, false⟩

/-- `((uint32_t *)buffer)[i]` can be accessed for each word of the buffer of the VCPU in
execution. -/
def BufferWords (p : Platform) (ram : Nat → Bool) (hv : Hv) : Prop :=
  ∀ v ∈ hv.executing, ∀ i < 256,
    (guestWindow hv v (moveFromPreviousGuestGPR p hv.cpu REG_A0) 1024 CACHEABLE).Has ram 4 (4 * i)

instance (p : Platform) (ram : Nat → Bool) (hv : Hv) : Decidable (BufferWords p ram hv) :=
  inferInstanceAs (Decidable (∀ v ∈ hv.executing, ∀ i < 256, Window.Has _ ram 4 (4 * i)))

def flashStep (p : Platform) (ram : Nat → Bool) (s : FlashSystem) : FlashEvent → Option FlashSystem
  | .write buffer answers =>
    if BufferWords p ram s.hv then
      let (ret, nvm) := flashWrite1Kbuffer buffer answers s.nvm
      (flashWrite p ret s.hv).toOption.map fun hv =>
        ⟨hv, nvm, s.received, s.returned ++ [moveFromPreviousGuestGPR p hv.cpu REG_V0]⟩
    else none
  | .read =>
    if BufferWords p ram s.hv then
      let (ret, buffer) := flashRead1Kbuffer s.nvm
      (flashRead p ret s.hv).toOption.map fun hv =>
        ⟨hv, s.nvm, s.received ++ [buffer],
          s.returned ++ [moveFromPreviousGuestGPR p hv.cpu REG_V0]⟩
    else none
  | .cut buffer answers ops hv =>
    if ops ≤ 65 then some { s with
      hv := hv
      nvm := (writeOps buffer answers s.nvm ops).reset } else none
  | .other hv => some { s with hv := hv }

/-- What the driver is for: 256 words that last, of which some are unknown. -/
structure FlashStore where
  word : Nat → Option UInt32
  received : List (Nat → Option UInt32)

/-- The words after `ops` operations of a call to write: the erasure first, without which nothing is
known, then the quads, each on its own. -/
def FlashStore.written (s : FlashStore) (buffer : Nat → UInt32) (answers : Nat → NvmAnswer)
    (ops : Nat)
    (i : Nat) : Option UInt32 :=
  if ops = 0 then s.word i
  else if (answers 0).left.isSome then none
  else if i / 4 + 1 < ops then
    if (answers (i / 4 + 1)).left.isSome then none else some (buffer i)
  else some 0xffffffff

def storeStep (s : FlashStore) : FlashEvent → Option FlashStore
  | .write buffer answers => some { s with word := s.written buffer answers 65 }
  | .read => some { s with received := s.received ++ [s.word] }
  | .cut buffer answers ops _ => some { s with word := s.written buffer answers ops }
  | .other _ => some s

/-- The words that are known are the ones that are read. -/
def Shows (words : Nat → UInt32) (known : Nat → Option UInt32) : Prop :=
  ∀ i < 256, ∀ x, known i = some x → words i = x

variable {n : Nvm} {buffer : Nat → UInt32} {answers : Nat → NvmAnswer} {i k : Nat}

/-! ### One call -/

/-- The physical address of a word of the page. -/
theorem toNat_wordAddress (hi : i < 4096) :
    (wordAddress i &&& 0x1fffffff).toNat = 0x1d1fc000 + 4 * i := by
  rw [Lib.Words.toNat_and_low (k := 29) rfl, wordAddress, UInt32.toNat_add, UInt32.toNat_ofNat',
    show pageFlash.toNat = 0xbd1fc000 from rfl]
  omega

/-- The controller when `WR` is set. -/
def Nvm.unlocked (n : Nvm) (nvmop : UInt32) : Nvm :=
  { n with
    ie := false
    nvmcon := nvmop ||| 0x8000
    nvmkey := 0x556699aa :: 0xaa996655 :: 0 :: n.nvmkey }

theorem nvmUnlock_flash {nvmop : UInt32} {op : Op UInt32 UInt32} (answer : NvmAnswer)
    (h : (n.unlocked nvmop).operation = some op) :
    (nvmUnlock nvmop answer n).2.flash = exec flashCell op answer.left n.flash := by
  have hstart :
      ((n.unlocked nvmop).start answer).flash = exec flashCell op answer.left n.flash := by
    rw [Nvm.start, h]
    rfl
  exact hstart

theorem Nvm.operation_unlocked {nvmop : UInt32} (hwren : (nvmop ||| 0x8000) &&& 0x4000 ≠ 0) :
    (n.unlocked nvmop).operation =
      if (nvmop ||| 0x8000) &&& 0xf = 4 then some (.erase (inPage n.nvmaddr))
      else if (nvmop ||| 0x8000) &&& 0xf = 2 then
        some (.program (inQuad n.nvmaddr) fun a => n.nvmdata (a.toNat / 4 % 4))
      else none :=
  if_neg fun h => h.elim hwren fun hkey => hkey rfl

theorem Nvm.operation_unlocked_erase (n : Nvm) :
    (n.unlocked 0x4004).operation = some (.erase (inPage n.nvmaddr)) := by
  rw [operation_unlocked (by decide), if_pos (by decide)]

theorem Nvm.operation_unlocked_program (n : Nvm) :
    (n.unlocked 0x4002).operation =
      some (.program (inQuad n.nvmaddr) fun a => n.nvmdata (a.toNat / 4 % 4)) := by
  rw [operation_unlocked (by decide), if_neg (by decide), if_pos (by decide)]

theorem nvmErasePage_flash (address : UInt32) (answer : NvmAnswer) (n : Nvm) :
    (nvmErasePage address answer n).2.flash =
      exec flashCell (.erase (inPage (address &&& 0x1fffffff))) answer.left n.flash :=
  nvmUnlock_flash answer (Nvm.operation_unlocked_erase _)

theorem nvmWriteQuad_flash (address : UInt32) (data : Nat → UInt32) (answer : NvmAnswer) (n : Nvm) :
    (nvmWriteQuad address data answer n).2.flash =
      exec flashCell (.program (inQuad (address &&& 0x1fffffff)) fun a => data (a.toNat / 4 % 4))
        answer.left n.flash :=
  nvmUnlock_flash answer (Nvm.operation_unlocked_program _)

/-- The operation that programs the `k`-th quad. -/
def quadOp (buffer : Nat → UInt32) (k : Nat) : Op UInt32 UInt32 :=
  .program (inQuad (wordAddress (4 * k) &&& 0x1fffffff)) fun a => buffer (4 * k + a.toNat / 4 % 4)

theorem writeQuads_flash (buffer : Nat → UInt32) (answers : Nat → NvmAnswer) (n : Nvm) (k : Nat) :
    (writeQuads buffer answers n k).flash =
      execAll flashCell (quadOp buffer) (fun k => (answers (k + 1)).left) n.flash k := by
  induction k with
  | zero => rfl
  | succ k ih => rw [writeQuads, nvmWriteQuad_flash, ih, execAll, quadOp]

/-- A word belongs to the quad of its index. -/
theorem quadOp_area_iff (buffer : Nat → UInt32) (hi : i < 256) (hk : k < 64) :
    (quadOp buffer k).area (wordAddress i &&& 0x1fffffff) = true ↔ k = i / 4 := by
  rw [quadOp, Op.area, inQuad, decide_eq_true_iff, toNat_wordAddress (by omega),
    toNat_wordAddress (by omega)]
  omega

theorem nvmErasePage_word (hi : i < 256) (answer : NvmAnswer) (n : Nvm)
    (hdone : answer.left = none) :
    (nvmErasePage pageFlash answer n).2.flash (wordAddress i &&& 0x1fffffff) = 0xffffffff := by
  rw [nvmErasePage_flash, hdone]
  apply exec_erase
  rw [inPage, decide_eq_true_iff, toNat_wordAddress (by omega),
    show (pageFlash &&& 0x1fffffff).toNat = 0x1d1fc000 by decide]
  omega

/-- The words of the quads that are programmed are those of the buffer, and the others are
erased. -/
theorem writeQuads_word (buffer : Nat → UInt32) (answers : Nat → NvmAnswer) (hi : i < 256)
    (hk : k ≤ 64) (herased : n.flash (wordAddress i &&& 0x1fffffff) = 0xffffffff) :
    (k ≤ i / 4 →
      (writeQuads buffer answers n k).flash (wordAddress i &&& 0x1fffffff) = 0xffffffff) ∧
    (i / 4 < k → (answers (i / 4 + 1)).left = none →
      (writeQuads buffer answers n k).flash (wordAddress i &&& 0x1fffffff) = buffer i) := by
  have hothers : ∀ j < k, j ≠ i / 4 →
      (quadOp buffer j).area (wordAddress i &&& 0x1fffffff) = false := fun j hj hne =>
    Bool.eq_false_iff.mpr fun h => hne ((quadOp_area_iff buffer hi (by omega)).mp h)
  rw [writeQuads_flash]
  refine ⟨fun hle => ?_, fun hlt hdone => ?_⟩
  · exact (execAll_outside fun j hj => hothers j hj (by omega)).trans herased
  · have hindex : 4 * (i / 4) + (wordAddress i &&& 0x1fffffff).toNat / 4 % 4 = i := by
      rw [toNat_wordAddress (by omega)]
      omega
    rw [execAll_program hlt rfl ((quadOp_area_iff buffer hi (by omega)).mpr rfl) hothers
      hdone herased, hindex]

/-- What a call to write leaves in the page, however far it gets. -/
theorem shows_writeOps {s : FlashStore} {ops : Nat} (hops : ops ≤ 65)
    (h : Shows (flashRead1Kbuffer n).2 s.word) :
    Shows (flashRead1Kbuffer (writeOps buffer answers n ops)).2 (s.written buffer answers ops) := by
  intro i hi x hx
  cases ops with
  | zero => exact h i hi x hx
  | succ k =>
    rw [FlashStore.written, if_neg k.succ_ne_zero] at hx
    split at hx
    · cases hx
    rename_i hpage
    have herased := nvmErasePage_word hi (answers 0) n (Option.not_isSome_iff_eq_none.mp hpage)
    obtain ⟨hlater, hdone⟩ := writeQuads_word buffer answers hi
      (Nat.le_of_succ_le_succ hops) herased
    split at hx
    · split at hx
      · cases hx
      · rename_i hlt hquad
        exact (hdone (Nat.lt_of_succ_lt_succ hlt) (Option.not_isSome_iff_eq_none.mp hquad)).trans
          (Option.some.inj hx)
    · exact (hlater (by omega)).trans (Option.some.inj hx)

/-! ### Runs of calls -/

variable {p : Platform} {ram : Nat → Bool} {s t : FlashSystem} {u : FlashStore}

/-- A call that returns answers 1024. -/
theorem flashTransfer_v0 {hv hv' : Hv} (h : (flashTransfer p 1024 hv).toOption = some hv') :
    moveFromPreviousGuestGPR p hv'.cpu REG_V0 = 1024 := by
  unfold flashTransfer at h
  cases hmap : mapGuestBuffer hv (moveFromPreviousGuestGPR p hv.cpu REG_A0) 1024 CACHEABLE with
  | error f =>
    rw [hmap] at h
    cases h
  | ok mapped =>
    rw [hmap] at h
    cases h
    exact moveFrom_moveTo p _ _ _

/-- What the store knows is in the page, and was read; every call answered 1024. -/
structure FlashRefines (s : FlashSystem) (u : FlashStore) : Prop where
  word : Shows (flashRead1Kbuffer s.nvm).2 u.word
  received : List.Forall₂ Shows s.received u.received
  returned : ∀ x ∈ s.returned, x = 1024

theorem flashStep_refines {e : FlashEvent} (h : FlashRefines s u)
    (hstep : flashStep p ram s e = some t) :
    ∃ v, storeStep u e = some v ∧ FlashRefines t v := by
  have hreturned : ∀ {x}, x = 1024 → ∀ y ∈ s.returned ++ [x], y = 1024 := by
    intro x hx y hy
    rcases List.mem_append.mp hy with hy | hy
    · exact h.returned y hy
    · exact (List.mem_singleton.mp hy).trans hx
  cases e with
  | write buffer answers =>
    obtain ⟨-, hstep⟩ := Option.ite_none_right_eq_some.mp hstep
    obtain ⟨hv, hcall, rfl⟩ := Option.map_eq_some_iff.mp hstep
    refine ⟨_, rfl, shows_writeOps (Nat.le_refl 65) h.word, h.received, hreturned ?_⟩
    exact flashTransfer_v0 hcall
  | read =>
    obtain ⟨-, hstep⟩ := Option.ite_none_right_eq_some.mp hstep
    obtain ⟨hv, hcall, rfl⟩ := Option.map_eq_some_iff.mp hstep
    refine ⟨_, rfl, h.word, ?_, hreturned ?_⟩
    · exact List.rel_append h.received (List.Forall₂.cons h.word .nil)
    · exact flashTransfer_v0 hcall
  | cut buffer answers ops hv =>
    obtain ⟨hops, heq⟩ := Option.ite_none_right_eq_some.mp hstep
    obtain rfl := Option.some.inj heq
    exact ⟨_, rfl, shows_writeOps hops h.word, h.received, h.returned⟩
  | other hv =>
    obtain rfl := Option.some.inj hstep
    exact ⟨_, rfl, h.word, h.received, h.returned⟩

/-- Before the first call. -/
def flashStart (hv : Hv) (nvm : Nvm) : FlashSystem := ⟨hv, nvm, [], []⟩

def storeStart : FlashStore := ⟨fun _ => none, []⟩

/-- The calls of all VMs, with power failures between and inside of them, are those of one store of
256 words that loses what a failed or interrupted operation leaves unknown, and nothing else.  The
answer of a call does not tell. -/
theorem flash_refines (p : Platform) (ram : Nat → Bool) (hv : Hv) (nvm : Nvm) (es : List FlashEvent)
    (hrun : run (flashStep p ram) (flashStart hv nvm) es = some t) :
    ∃ u, run storeStep storeStart es = some u ∧ List.Forall₂ Shows t.received u.received ∧
      Shows (flashRead1Kbuffer t.nvm).2 u.word ∧ ∀ x ∈ t.returned, x = 1024 := by
  have hstart : FlashRefines (flashStart hv nvm) storeStart :=
    ⟨(fun _ _ _ hx => nomatch hx), .nil, fun _ hx => absurd hx List.not_mem_nil⟩
  obtain ⟨u, hu, hword, hreceived, hreturned⟩ :=
    run_refines (fun _ _ _ _ => flashStep_refines) hstart hrun
  exact ⟨u, hu, hreceived, hword, hreturned⟩

/-- The RAM of the first VM, and the VM in execution with a buffer at its beginning. -/
def pingRam (pa : Nat) : Bool := 0x8000 ≤ pa ∧ pa < 0x10000

def flashCaller : Hv :=
  hypercall .pic32mz (initializeMachines .pic32mz .cleared pingPong) 0 [(REG_A0, 0x80000000)]

/-- A call to write, power that fails after the erasure and two quads of the next one, and a call to
read. -/
def tornWrite : List FlashEvent :=
  let done : NvmAnswer := ⟨0, none⟩
  [.write (fun _ => 7) fun _ => done, .cut (fun _ => 9) (fun _ => done) 3 flashCaller, .read]

theorem flash_refines_tornWrite : ∃ t u,
    run (flashStep .pic32mz pingRam)
      (flashStart flashCaller ⟨0, 0, fun _ => 0, [], fun _ => 0, true⟩)
        tornWrite = some t ∧
      run storeStep storeStart tornWrite = some u ∧ List.Forall₂ Shows t.received u.received := by
  obtain ⟨t, hrun⟩ : ∃ t, run (flashStep .pic32mz pingRam)
      (flashStart flashCaller ⟨0, 0, fun _ => 0, [], fun _ => 0, true⟩) tornWrite = some t :=
    Option.isSome_iff_exists.mp (by decide +kernel)
  obtain ⟨u, hu, hreceived, -⟩ := flash_refines .pic32mz _ _ _ _ hrun
  exact ⟨t, u, hrun, hu, hreceived⟩

/-- A call that begins to change the page. -/
def FlashEvent.Erases : FlashEvent → Prop
  | .write .. => True
  | .cut _ _ ops _ => ops ≠ 0
  | _ => False

/-- The page has the words of a buffer, and so had the calls to read since `received`. -/
structure KeepsPage (buffer : Nat → UInt32) (received : List (Nat → UInt32)) (s : FlashSystem) :
    Prop where
  page : ∀ i < 256, (flashRead1Kbuffer s.nvm).2 i = buffer i
  reads : ∃ reads, s.received = received ++ reads ∧ ∀ words ∈ reads, ∀ i < 256, words i = buffer i

theorem flashStep_stored {e : FlashEvent} {received : List (Nat → UInt32)}
    (hstep : flashStep p ram s e = some t) (h : KeepsPage buffer received s) (he : ¬e.Erases) :
    KeepsPage buffer received t := by
  cases e with
  | write => exact absurd trivial he
  | read =>
    obtain ⟨-, hstep⟩ := Option.ite_none_right_eq_some.mp hstep
    obtain ⟨hv, -, rfl⟩ := Option.map_eq_some_iff.mp hstep
    obtain ⟨reads, hreceived, hreads⟩ := h.reads
    refine ⟨h.page, reads ++ [(flashRead1Kbuffer s.nvm).2], ?_, fun words hwords => ?_⟩
    · rw [← List.append_assoc, ← hreceived]
      rfl
    · rcases List.mem_append.mp hwords with hwords | hwords
      · exact hreads words hwords
      · exact List.mem_singleton.mp hwords ▸ h.page
  | cut data answers ops hv =>
    obtain ⟨-, heq⟩ := Option.ite_none_right_eq_some.mp hstep
    obtain rfl := Option.some.inj heq
    obtain rfl : ops = 0 := not_not.mp he
    exact ⟨h.page, h.reads⟩
  | other hv =>
    obtain rfl := Option.some.inj hstep
    exact ⟨h.page, h.reads⟩

/-- A call to write that no operation fails in is what every VM reads until the next one begins,
whatever power failures come between. -/
theorem flash_durable (p : Platform) (ram : Nat → Bool) (s : FlashSystem) (buffer : Nat → UInt32)
    (answers : Nat → NvmAnswer) (later : List FlashEvent)
    (hrun : run (flashStep p ram) s (.write buffer answers :: later) = some t)
    (hdone : ∀ k ≤ 64, (answers k).left = none) (hlater : ∀ e ∈ later, ¬e.Erases) :
    ∃ reads, t.received = s.received ++ reads ∧ ∀ words ∈ reads, ∀ i < 256, words i = buffer i := by
  obtain ⟨a, hwrite, hrest⟩ := exists_of_run_cons hrun
  obtain ⟨-, hwrite⟩ := Option.ite_none_right_eq_some.mp hwrite
  obtain ⟨hv, -, rfl⟩ := Option.map_eq_some_iff.mp hwrite
  have hpage : ∀ i < 256, (flashRead1Kbuffer (flashWrite1Kbuffer buffer answers s.nvm).2).2 i =
      buffer i := fun i hi =>
    (writeQuads_word buffer answers hi (Nat.le_refl 64)
      (nvmErasePage_word hi _ _ (hdone 0 (by omega)))).2
      (by omega) (hdone _ (by omega))
  have hstep : ∀ u e v, True → flashStep p ram u e = some v → True ∧
      (KeepsPage buffer s.received u → ¬e.Erases → KeepsPage buffer s.received v) :=
    fun _ _ _ _ hstep => ⟨trivial, flashStep_stored hstep⟩
  have hstart : KeepsPage buffer s.received
      ⟨hv, (flashWrite1Kbuffer buffer answers s.nvm).2, s.received,
        s.returned ++ [moveFromPreviousGuestGPR p hv.cpu REG_V0]⟩ :=
    ⟨hpage, [], (List.append_nil _).symm, fun _ h => absurd h List.not_mem_nil⟩
  exact (run_keeps hstep trivial hstart hlater hrest).reads

theorem flash_durable_reboot : ∃ t, run (flashStep .pic32mz pingRam)
      (flashStart flashCaller ⟨0, 0, fun _ => 0, [], fun _ => 0, true⟩)
      [.write UInt32.ofNat fun _ => ⟨0, none⟩, .cut (fun _ => 9) (fun _ => ⟨0, none⟩) 0 flashCaller,
        .read] = some t ∧
    ∃ reads, t.received = [] ++ reads ∧ ∀ words ∈ reads, ∀ i < 256, words i = UInt32.ofNat i := by
  obtain ⟨t, hrun⟩ : ∃ t, run (flashStep .pic32mz pingRam)
      (flashStart flashCaller ⟨0, 0, fun _ => 0, [], fun _ => 0, true⟩)
      [.write UInt32.ofNat fun _ => ⟨0, none⟩, .cut (fun _ => 9) (fun _ => ⟨0, none⟩) 0 flashCaller,
        .read] = some t := Option.isSome_iff_exists.mp (by decide +kernel)
  refine ⟨t, hrun, flash_durable .pic32mz _ _ _ _ _ hrun (fun _ _ => rfl) fun e he => ?_⟩
  rcases List.mem_cons.mp he with rfl | he
  · exact fun h => h rfl
  · exact List.mem_singleton.mp he ▸ id

end PrplHypervisor.Drivers
