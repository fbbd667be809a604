import PrplHypervisor.Arch.Cpu
import PrplHypervisor.Lib.Runs

/-! Interrupt handlers (`interrupts.c` of each platform), and the vectors that run them: the stubs
of `boot.S`, where the linker script places them (`pic32mz.ld`), and `__interrupt_handler` on
Baikal-T1.  A handler is registered in a table of pointers.  On PIC32MZ the next free entry is
taken, and the driver is told the address of a vector; on Baikal-T1 the driver names the entry. -/

namespace PrplHypervisor.Arch

open Lib.Runs

/-- `interrupt_handlers`.  `none` is a null pointer. -/
abbrev Handlers (Handler : Type*) := Nat → Option Handler

def MAX_NUM_INTERRUPTS : Platform → Nat
  | .pic32mz => 10
  | .baikalT1 => 64

def VECTOR_1_OFFSET : UInt32 := 0x220

/-- The arguments of `register_interrupt`, the number on Baikal-T1 alone. -/
structure Registration (Handler : Type*) where
  handler : Option Handler
  interruptNumber : UInt32

variable {Handler : Type*}

/-- What `register_interrupt` reports for an entry of the table. -/
def reported : Platform → Nat → UInt32
  | .pic32mz, i => VECTOR_1_OFFSET + UInt32.ofNat i * 32
  | .baikalT1, i => UInt32.ofNat i

/-- The loop of `register_interrupt` on PIC32MZ, from the entry `i` on with `n` entries left. -/
def registerFrom (handler : Option Handler) (handlers : Handlers Handler) (i : Nat) :
    Nat → UInt32 × Handlers Handler
  | 0 => (0, handlers)
  | n + 1 =>
    if (handlers i).isNone then
      (VECTOR_1_OFFSET + UInt32.ofNat i * 32, Function.update handlers i handler)
    else registerFrom handler handlers (i + 1) n

def registerInterrupt (p : Platform) (r : Registration Handler) (handlers : Handlers Handler) :
    UInt32 × Handlers Handler :=
  match p with
  | .pic32mz => registerFrom r.handler handlers 0 (MAX_NUM_INTERRUPTS .pic32mz)
  | .baikalT1 =>
    -- interrupt 0 is the general exception handler
    if 0 < r.interruptNumber ∧ r.interruptNumber < 64 then
      if (handlers r.interruptNumber.toNat).isNone then
        (r.interruptNumber, Function.update handlers r.interruptNumber.toNat r.handler)
      else (0, handlers)
    else (0, handlers)

/-- The table before the first registration. -/
def initialHandlers (generalExceptionHandler : Handler) : Platform → Handlers Handler
  | .pic32mz => fun _ => none
  | .baikalT1 => Function.update (fun _ => none) 0 (some generalExceptionHandler)

/-! ### Vectors -/

/-- The sections of `boot.S` on PIC32MZ that have a place in the linker script.  `vector i` is
`.vector_i`. -/
inductive VectorSection
  | exception
  | vector0
  | vector (i : Nat)
  | entry
  deriving DecidableEq, Repr

/-- The entry of `interrupt_handlers` that a stub loads, as `lw $k1, 4 * (i - 1)($k1)`, and jumps
to. -/
def VectorSection.loads : VectorSection → Option Nat
  | .vector i => some (i - 1)
  | _ => none

/-- The offsets from EBase at which `pic32mz.ld` places the sections. -/
def textSections : List (Nat × VectorSection) :=
  [(0, .exception), (0x200, .vector0), (0x220, .vector 1), (0x240, .vector 2), (0x260, .vector 3),
    (0x280, .vector 4), (0x300, .vector 5), (0x320, .vector 6), (0x1000, .entry)]

/-- What the linker leaves between two sections, which the script does not say: zero words, which
are executed as no operation up to the next section, or something else. -/
inductive Gap
  | nops
  | other
  deriving DecidableEq, Repr

/-- The section whose code runs from an offset on.  No stub is longer than the 32 bytes of a vector,
so an offset that is a multiple of 32 is not inside one. -/
def sectionAt (gap : Gap) (offset : UInt32) : Option VectorSection :=
  match gap with
  | .nops => (textSections.find? fun s => offset.toNat ≤ s.1).map Prod.snd
  | .other => (textSections.find? fun s => s.1 = offset.toNat).map Prod.snd

/-- The argument that the stub `.vector_hwint_n` of Baikal-T1 passes to `__interrupt_handler`. -/
def hwintArgument (n : UInt32) : UInt32 := if n = 39 then 37 else n

/-- `__interrupt_handler`: the handler that it calls, or `none` when there is a warning instead. -/
def interruptHandler (handlers : Handlers Handler) (interruptNumber : UInt32) : Option Handler :=
  handlers interruptNumber.toNat

/-- The handler that an interrupt at a vector runs: the one at an offset from EBase on PIC32MZ, the
one of an interrupt number on Baikal-T1. -/
def takeInterrupt (p : Platform) (gap : Gap) (handlers : Handlers Handler) (vector : UInt32) :
    Option Handler :=
  match p with
  | .pic32mz => ((sectionAt gap vector).bind VectorSection.loads).bind handlers
  | .baikalT1 => if vector < 64 then interruptHandler handlers (hwintArgument vector) else none

/-- The entry of the table that the code at a vector loads. -/
def entryAt (p : Platform) (gap : Gap) (vector : UInt32) : Option Nat :=
  match p with
  | .pic32mz => (sectionAt gap vector).bind VectorSection.loads
  | .baikalT1 => if vector < 64 then some (hwintArgument vector).toNat else none

theorem takeInterrupt_eq (p : Platform) (gap : Gap) (handlers : Handlers Handler)
    (vector : UInt32) :
    takeInterrupt p gap handlers vector = (entryAt p gap vector).bind handlers := by
  cases p with
  | pic32mz => rfl
  | baikalT1 =>
    unfold takeInterrupt entryAt
    by_cases hlt : vector < 64
    · simp only [if_pos hlt]
      rfl
    · simp only [if_neg hlt]
      rfl

/-- The entry that is loaded at the vector which is reported for the entry `slot`.  On PIC32MZ the
stubs of four entries are in place, and those of two more stand where the vectors of later entries
should; on Baikal-T1 one stub has the number of another. -/
def loadedEntry : Platform → Gap → Nat → Option Nat
  | .pic32mz, .other, slot =>
    if slot < 4 then some slot else if slot = 7 then some 4 else if slot = 8 then some 5 else none
  | .pic32mz, .nops, slot =>
    if slot < 5 then some slot else if slot < 8 then some 4 else if slot = 8 then some 5 else none
  | .baikalT1, _, slot => some (if slot = 39 then 37 else slot)

theorem entryAt_reported (p : Platform) (gap : Gap) :
    ∀ slot < MAX_NUM_INTERRUPTS p, entryAt p gap (reported p slot) = loadedEntry p gap slot := by
  cases p <;> cases gap <;> decide

/-! ### Registration -/

/-- The entry that a registration takes from the table. -/
def Takes (p : Platform) (handlers : Handlers Handler) (r : Registration Handler) (slot : Nat) :
    Prop :=
  slot < MAX_NUM_INTERRUPTS p ∧ handlers slot = none ∧
    match p with
    | .pic32mz => ∀ i < slot, handlers i ≠ none
    | .baikalT1 => 0 < slot ∧ slot = r.interruptNumber.toNat

/-- The entry that a registration takes is determined. -/
theorem Takes.unique {p : Platform} {handlers : Handlers Handler} {r : Registration Handler}
    {slot slot' : Nat} (h : Takes p handlers r slot) (h' : Takes p handlers r slot') :
    slot = slot' := by
  cases p with
  | pic32mz =>
    obtain ⟨-, hfree, hbefore⟩ := h
    obtain ⟨-, hfree', hbefore'⟩ := h'
    rcases Nat.lt_trichotomy slot slot' with hlt | heq | hlt
    · exact absurd hfree (hbefore' slot hlt)
    · exact heq
    · exact absurd hfree' (hbefore slot' hlt)
  | baikalT1 => exact h.2.2.2.trans h'.2.2.2.symm

theorem registerFrom_cases (handler : Option Handler) (handlers : Handlers Handler) (n : Nat) :
    ∀ i, (∃ slot, i ≤ slot ∧ slot < i + n ∧ handlers slot = none ∧
        (∀ j, i ≤ j → j < slot → handlers j ≠ none) ∧
        registerFrom handler handlers i n =
          (reported .pic32mz slot, Function.update handlers slot handler)) ∨
      ((∀ j, i ≤ j → j < i + n → handlers j ≠ none) ∧
        registerFrom handler handlers i n = (0, handlers)) := by
  induction n with
  | zero => exact fun i => Or.inr ⟨fun j hle hlt => absurd hlt (Nat.not_lt.mpr hle), rfl⟩
  | succ n ih =>
    intro i
    rw [registerFrom]
    by_cases hfree : handlers i = none
    · rw [if_pos (Option.isNone_iff_eq_none.mpr hfree)]
      refine Or.inl ⟨i, Nat.le_refl i, by omega, hfree, fun j hle hlt => ?_, rfl⟩
      exact absurd hlt (Nat.not_lt.mpr hle)
    · rw [if_neg (mt Option.isNone_iff_eq_none.mp hfree)]
      have hextend : ∀ {j}, i ≤ j → (i + 1 ≤ j → handlers j ≠ none) → handlers j ≠ none := by
        intro j hle hrest
        rcases Nat.eq_or_lt_of_le hle with rfl | hlt
        · exact hfree
        · exact hrest hlt
      rcases ih (i + 1) with ⟨slot, hle, hlt, hnone, hbefore, hcall⟩ | ⟨hfull, hcall⟩
      · refine Or.inl ⟨slot, by omega, by omega, hnone, fun j hj hjlt => ?_, hcall⟩
        exact hextend hj fun hj => hbefore j hj hjlt
      · refine Or.inr ⟨fun j hj hjlt => ?_, hcall⟩
        exact hextend hj fun hj => hfull j hj (by omega)

/-- A registration fills the entry that it takes, or fails. -/
theorem registerInterrupt_cases (p : Platform) (r : Registration Handler)
    (handlers : Handlers Handler) :
    (∃ slot, Takes p handlers r slot ∧ registerInterrupt p r handlers =
      (reported p slot, Function.update handlers slot r.handler)) ∨
    ((∀ slot, ¬Takes p handlers r slot) ∧ registerInterrupt p r handlers = (0, handlers)) := by
  cases p with
  | pic32mz =>
    rcases registerFrom_cases r.handler handlers (MAX_NUM_INTERRUPTS .pic32mz) 0 with
      ⟨slot, -, hlt, hnone, hbefore, hcall⟩ | ⟨hfull, hcall⟩
    · refine Or.inl ⟨slot, ⟨?_, hnone, fun i hi => hbefore i (Nat.zero_le i) hi⟩, hcall⟩
      rwa [Nat.zero_add] at hlt
    · refine Or.inr ⟨fun slot htakes => ?_, hcall⟩
      exact hfull slot (Nat.zero_le slot) (by rw [Nat.zero_add]; exact htakes.1) htakes.2.1
  | baikalT1 =>
    by_cases hrange : 0 < r.interruptNumber ∧ r.interruptNumber < 64
    · have hpos : 0 < r.interruptNumber.toNat := UInt32.lt_iff_toNat_lt.mp hrange.1
      have hlt : r.interruptNumber.toNat < 64 := UInt32.lt_iff_toNat_lt.mp hrange.2
      by_cases hfree : handlers r.interruptNumber.toNat = none
      · refine Or.inl ⟨r.interruptNumber.toNat, ⟨hlt, hfree, hpos, rfl⟩, ?_⟩
        rw [registerInterrupt, if_pos hrange, if_pos (Option.isNone_iff_eq_none.mpr hfree),
          reported, UInt32.ofNat_toNat]
      · refine Or.inr ⟨fun slot htakes => hfree (htakes.2.2.2 ▸ htakes.2.1), ?_⟩
        rw [registerInterrupt, if_pos hrange, if_neg (mt Option.isNone_iff_eq_none.mp hfree)]
    · refine Or.inr ⟨?_, ?_⟩
      · rintro slot ⟨hlt, -, hpos, rfl⟩
        exact hrange ⟨UInt32.lt_iff_toNat_lt.mpr hpos, UInt32.lt_iff_toNat_lt.mpr hlt⟩
      · rw [registerInterrupt, if_neg hrange]

theorem reported_ne_zero {p : Platform} {handlers : Handlers Handler} {r : Registration Handler}
    {slot : Nat} (h : Takes p handlers r slot) : reported p slot ≠ 0 := by
  cases p with
  | pic32mz =>
    have hall : ∀ slot < MAX_NUM_INTERRUPTS .pic32mz, reported .pic32mz slot ≠ 0 := by decide
    exact hall slot h.1
  | baikalT1 =>
    have hall : ∀ slot < MAX_NUM_INTERRUPTS .baikalT1, 0 < slot → reported .baikalT1 slot ≠ 0 := by
      decide
    exact hall slot h.1 h.2.2.1

/-- A registration that takes no entry is the one that returns 0, and leaves the table as it is. -/
theorem registerInterrupt_eq_zero (p : Platform) (r : Registration Handler)
    (handlers : Handlers Handler) :
    (registerInterrupt p r handlers).1 = 0 ↔ ∀ slot, ¬Takes p handlers r slot := by
  rcases registerInterrupt_cases p r handlers with ⟨slot, htakes, hcall⟩ | ⟨hnone, hcall⟩
  · rw [hcall]
    exact iff_of_false (reported_ne_zero htakes) fun hnone => hnone slot htakes
  · rw [hcall]
    exact iff_of_true rfl hnone

/-! ### Runs -/

/-- The table with the registrations that were reported as successful: what was reported, and the
handler. -/
structure Interrupts (Handler : Type*) where
  handlers : Handlers Handler
  granted : List (UInt32 × Option Handler)

def registerStep (p : Platform) (s : Interrupts Handler) (r : Registration Handler) :
    Option (Interrupts Handler) :=
  let (vector, handlers) := registerInterrupt p r s.handlers
  some {
    handlers := handlers
    granted := if vector = 0 then s.granted else s.granted ++ [(vector, r.handler)] }

/-- The vectors that were reported run the handlers they were reported for. -/
def Agrees (p : Platform) (gap : Gap) (s : Interrupts Handler) : Prop :=
  ∀ g ∈ s.granted, ∃ h, g.2 = some h ∧ takeInterrupt p gap s.handlers g.1 = some h

/-- The registration takes no entry, or one for a handler that the code at its vector runs: it loads
this entry, or one that has the same handler. -/
def HasVector (p : Platform) (gap : Gap) (s : Interrupts Handler) (r : Registration Handler) :
    Prop :=
  ∀ slot, Takes p s.handlers r slot → ∃ h, r.handler = some h ∧
    ∃ j, loadedEntry p gap slot = some j ∧ (j = slot ∨ s.handlers j = some h)

variable {p : Platform} {gap : Gap} {s : Interrupts Handler} {r : Registration Handler}

/-- A table that keeps its entries keeps what a vector runs. -/
theorem takeInterrupt_mono {handlers handlers' : Handlers Handler}
    (hkeep : ∀ i h, handlers i = some h → handlers' i = some h) {vector : UInt32} {h : Handler}
    (htake : takeInterrupt p gap handlers vector = some h) :
    takeInterrupt p gap handlers' vector = some h := by
  rw [takeInterrupt_eq] at htake ⊢
  obtain ⟨i, hentry, hi⟩ := Option.bind_eq_some_iff.mp htake
  exact Option.bind_eq_some_iff.mpr ⟨i, hentry, hkeep i h hi⟩

/-- What a vector runs once a handler is registered. -/
theorem takeInterrupt_update_iff (handlers : Handlers Handler) (slot : Nat) (h : Handler)
    (hslot : slot < MAX_NUM_INTERRUPTS p) :
    takeInterrupt p gap (Function.update handlers slot (some h)) (reported p slot) = some h ↔
      ∃ j, loadedEntry p gap slot = some j ∧ (j = slot ∨ handlers j = some h) := by
  rw [takeInterrupt_eq, Option.bind_eq_some_iff, entryAt_reported p gap slot hslot]
  refine exists_congr fun j => and_congr_right fun _ => ?_
  rw [Function.update_apply]
  by_cases hj : j = slot
  · rw [if_pos hj]
    exact iff_of_true rfl (Or.inl hj)
  · rw [if_neg hj]
    exact (or_iff_right hj).symm

theorem Takes.keeps {handlers : Handlers Handler} {slot : Nat} (htakes : Takes p handlers r slot)
    (handler : Option Handler) (i : Nat) (h : Handler) (hi : handlers i = some h) :
    Function.update handlers slot handler i = some h := by
  have hne : i ≠ slot := by
    rintro rfl
    rw [htakes.2.1] at hi
    cases hi
  rw [Function.update_of_ne hne]
  exact hi

/-- From a state in which the vectors agree, they agree after a registration that has a vector. -/
theorem registerStep_agrees (hs : Agrees p gap s) (r : Registration Handler) :
    ∃ t, registerStep p s r = some t ∧ (Agrees p gap t ↔ HasVector p gap s r) := by
  rcases registerInterrupt_cases p r s.handlers with ⟨slot, htakes, hcall⟩ | ⟨hnone, hcall⟩
  · refine ⟨{
      handlers := Function.update s.handlers slot r.handler
      granted := s.granted ++ [(reported p slot, r.handler)] }, ?_, ?_⟩
    · rw [registerStep, hcall]
      simp only [if_neg (reported_ne_zero htakes)]
    constructor
    · intro hagrees slot' htakes'
      obtain rfl : slot' = slot := htakes'.unique htakes
      obtain ⟨h, hhandler, htake⟩ := hagrees (reported p slot', r.handler)
        (List.mem_append_right _ List.mem_cons_self)
      have hhandler : r.handler = some h := hhandler
      rw [hhandler] at htake
      exact ⟨h, hhandler, (takeInterrupt_update_iff s.handlers slot' h htakes.1).mp htake⟩
    · intro hvector
      obtain ⟨h, hhandler, hentry⟩ := hvector slot htakes
      intro g hg
      rcases List.mem_append.mp hg with hold | hnew
      · obtain ⟨h', hg', htake⟩ := hs g hold
        exact ⟨h', hg', takeInterrupt_mono (htakes.keeps r.handler) htake⟩
      · obtain rfl := List.mem_singleton.mp hnew
        refine ⟨h, hhandler, ?_⟩
        show takeInterrupt p gap (Function.update s.handlers slot r.handler) _ = _
        rw [hhandler]
        exact (takeInterrupt_update_iff s.handlers slot h htakes.1).mpr hentry
  · refine ⟨s, ?_, iff_of_true hs fun slot htakes => absurd htakes (hnone slot)⟩
    rw [registerStep, hcall]
    rfl

/-- No handler is registered yet but that of exceptions. -/
def interruptsStart (p : Platform) (generalExceptionHandler : Handler) : Interrupts Handler where
  handlers := initialHandlers generalExceptionHandler p
  granted := []

/-- A registration returns 0 exactly when the table has no entry for it, and then changes nothing;
and all along a sequence of registrations, each reported vector runs the handler it was reported for
exactly when each registration that takes an entry has a vector for it. -/
theorem registration_agrees_iff (p : Platform) (gap : Gap) (generalExceptionHandler : Handler)
    (rs : List (Registration Handler)) :
    (∀ (r : Registration Handler) (handlers : Handlers Handler),
      ((registerInterrupt p r handlers).1 = 0 ↔ ∀ slot, ¬Takes p handlers r slot) ∧
      ((registerInterrupt p r handlers).1 = 0 → (registerInterrupt p r handlers).2 = handlers)) ∧
    (Always (registerStep p) (Agrees p gap) (interruptsStart p generalExceptionHandler) rs ↔
      Guarded (registerStep p) (HasVector p gap)
        (interruptsStart p generalExceptionHandler) rs) := by
  constructor
  · intro r handlers
    refine ⟨registerInterrupt_eq_zero p r handlers, fun hzero => ?_⟩
    rcases registerInterrupt_cases p r handlers with ⟨slot, htakes, hcall⟩ | ⟨hnone, hcall⟩
    · exact absurd htakes ((registerInterrupt_eq_zero p r handlers).mp hzero slot)
    · rw [hcall]
  · have hstart : Agrees p gap (interruptsStart p generalExceptionHandler) :=
      fun g hg => absurd hg List.not_mem_nil
    refine always_guarded_iff (I := fun _ => True) (fun s r _ hs => ?_) trivial hstart
    obtain ⟨t, hstep, hiff⟩ := registerStep_agrees hs r
    exact ⟨t, hstep, trivial, hiff⟩

/-- Six drivers register on PIC32MZ: the sixth vector is in the gap before the fifth stub.  On
Baikal-T1 the interrupt 39 runs the handler of 37. -/
theorem vectors_disagree :
    (∃ s : Interrupts Nat, run (registerStep .pic32mz) (interruptsStart .pic32mz 0)
        [⟨some 1, 0⟩, ⟨some 2, 0⟩, ⟨some 3, 0⟩, ⟨some 4, 0⟩, ⟨some 5, 0⟩, ⟨some 6, 0⟩] = some s ∧
      (0x2C0, some 6) ∈ s.granted ∧ takeInterrupt .pic32mz .nops s.handlers 0x2C0 = some 5 ∧
      takeInterrupt .pic32mz .other s.handlers 0x2C0 = none) ∧
    (∃ s : Interrupts Nat, run (registerStep .baikalT1) (interruptsStart .baikalT1 0)
        [⟨some 1, 37⟩, ⟨some 2, 39⟩] = some s ∧
      (39, some 2) ∈ s.granted ∧ takeInterrupt .baikalT1 .other s.handlers 39 = some 1) := by
  constructor
  · exact ⟨_, rfl, by decide, by decide, by decide⟩
  · exact ⟨_, rfl, by decide, by decide⟩

end PrplHypervisor.Arch
