import PrplHypervisor.Arch.Emulation
import PrplHypervisor.Drivers.CallFits
import PrplHypervisor.Lib.Interleaving

/-! The exits of the guests (`sys/kernel/exception.c`) in runs of the whole hypervisor: timer ticks,
interrupts of the devices, guests that execute, and their exceptions.  A hypercall is performed on
the memory of the hypervisor too, and stops it when an access is not where it belongs.  Each VCPU
has a machine of its own, which only its own software changes; an exit moves the PC to the next
instruction and writes the registers of its answer. -/

namespace PrplHypervisor.Drivers

open Arch Kernel Lib.Runs Lib.Interleaving Lib.Partial

def CAUSE_EXECCODE : UInt32 := (0x1F : UInt32) <<< 2
def CAUSE_EXECCODE_SHIFT : UInt32 := 2
def GUEST_EXIT_EXCEPTION : UInt32 := 0x1b
def GUEST_INSTRUCTION_EMULATION : UInt32 := 0
def GUEST_HYPERCALL : UInt32 := 2

/-- `getCauseCode`, from the Cause register. -/
def getCauseCode (cause : UInt32) : UInt32 := (cause &&& CAUSE_EXECCODE) >>> CAUSE_EXECCODE_SHIFT

/-- `getGCauseCode`, from GuestCTL0Ext. -/
def getGCauseCode (guestctl0ext : UInt32) : UInt32 :=
  (guestctl0ext &&& CAUSE_EXECCODE) >>> CAUSE_EXECCODE_SHIFT

/-- What a build fixes, and what its drivers have set up. -/
structure Build where
  platform : Platform
  quantum : UInt32
  interval : UInt32
  prid : UInt32
  memory : MemoryMap
  drivers : Installed

/-- The registers that the processor sets on an exception, the state of the drivers, and what the
devices answer to it. -/
structure Trap where
  cause : UInt32
  guestctl0ext : UInt32
  badinstr : UInt32
  devices : Devices
  answers : Answers

/-- `instruction_emulation`; the one of PIC32MZ only warns. -/
def emulateInstruction (p : Platform) (prid badinstr : UInt32) (cpu : Cpu) : Cpu :=
  match p with
  | .pic32mz => cpu
  | .baikalT1 => (instructionEmulation prid badinstr cpu).2

/-- The hypercall of an exit. -/
def trapHypercall (b : Build) (trap : Trap) (s : System) : Except Stopped System :=
  performHypercall b.platform b.memory b.drivers trap.devices trap.answers trap.badinstr s

/-- The `switch` of `guest_exit_exception`. -/
def serveExit (b : Build) (trap : Trap) (s : System) : Except Stopped System :=
  let guestcause := getGCauseCode trap.guestctl0ext
  if guestcause = GUEST_INSTRUCTION_EMULATION then
    .ok (s.setHv { s.hv with cpu := emulateInstruction b.platform b.prid trap.badinstr s.hv.cpu })
  else if guestcause = GUEST_HYPERCALL then trapHypercall b trap s
  else .ok s

/-- The instruction behind the one at `epc` is the next one of the VCPU. -/
def skipInstruction (hv : Hv) (v : VcpuPtr) (epc : UInt32) : Hv :=
  let hv := hv.setVcpu v { hv.vcpus v with pc := epc + 4 }
  { hv with cpu := setEPC hv.cpu (hv.vcpus v).pc }

def guestExitException (b : Build) (trap : Trap) (s : System) : Except Stopped System := do
  let epc := getEPC s.hv.cpu
  let s ← serveExit b trap s
  match s.hv.executing with
  | none => throw (.fault .nullPointer)
  | some v =>
    let hv := skipInstruction s.hv v epc
    if (hv.vcpus v).state = .blocked then
      return s.setHv (← (runScheduler b.platform b.quantum hv).mapError .fault)
    else return s.setHv hv

def generalExceptionHandler (b : Build) (trap : Trap) (s : System) : Except Stopped System :=
  let causeCode := getCauseCode trap.cause
  if causeCode = GUEST_EXIT_EXCEPTION then guestExitException b trap s
  else
    match s.hv.executing with
    | none => .error (.fault .nullPointer)
    | some v => .error (.critical causeCode (getEPC s.hv.cpu) (s.hv.vcpus v).id)

/-! ### Runs of the hypervisor -/

/-- A timer tick; a driver's fast interrupt for `target`; a device that is done for `v`; lines that
change, and the interrupt that they raise; what `usb_polling` and the interrupts of the USB device
leave in the data of its driver; the guest in execution, with the registers that it leaves; and an
exception. -/
inductive SystemEvent
  | timer (now : UInt32)
  | deliver (target : VcpuPtr)
  | unblock (v : VcpuPtr)
  | lines (ifs : UInt32 → UInt32)
  | injection
  | usbDevice (transfer : TransferState) (descriptorData : Nat → UInt8)
  | guest (cp0 : Nat → Nat → UInt32) (pc : UInt32) (gpr : Nat → UInt32)
  | exception (trap : Trap)

/-- The interrupt handler of the timer; the one of Baikal-T1 only calls the scheduler. -/
def timerInterrupt (b : Build) (now : UInt32) (s : Virtual) : Except Fault Virtual :=
  match b.platform with
  | .pic32mz => timerInterruptHandler b.quantum b.interval now s
  | .baikalT1 => s.setHv <$> runScheduler .baikalT1 b.quantum s.hv

/-- The processor with the registers that a guest has written. -/
def guestRegisters (p : Platform) (cpu : Cpu) (cp0 : Nat → Nat → UInt32) (pc : UInt32)
    (gpr : Nat → UInt32) : Cpu :=
  match p with
  | .pic32mz => { cpu with
      guestCp0 := cp0
      epc := pc
      shadowGpr := Function.update cpu.shadowGpr (getPreviousShadowSet cpu) gpr }
  | .baikalT1 => { cpu with guestCp0 := cp0, epc := pc, gprFrame := gpr }

/-- The guest in execution writes its registers. -/
def guestRuns (p : Platform) (hv : Hv) (cp0 : Nat → Nat → UInt32) (pc : UInt32)
    (gpr : Nat → UInt32) : Hv :=
  match hv.executing with
  | none => hv
  | some _ => { hv with cpu := guestRegisters p hv.cpu cp0 pc gpr }

def systemStep (b : Build) (s : System) : SystemEvent → Option System
  | .timer now => (timerInterrupt b now s.toVirtual).toOption.map fun t => { s with toVirtual := t }
  | .deliver target => some (s.setHv (fastInterruptDelivery s.hv target))
  | .unblock v => some (s.setHv (setState s.hv v .running))
  | .lines ifs => some { s with redirect := { s.redirect with ifs := ifs } }
  | .injection => some { s with redirect := interruptInjection s.redirect }
  | .usbDevice transfer descriptorData => some { s with
      objects := { s.objects with transfer := transfer, descriptorData := descriptorData } }
  | .guest cp0 pc gpr => some (s.setHv (guestRuns b.platform s.hv cp0 pc gpr))
  | .exception trap => (generalExceptionHandler b trap s).toOption

/-- The accesses of the hypercall of an exit, if it is for one, are kept. -/
def ExitKept (b : Build) (trap : Trap) (s : System) : Prop :=
  getGCauseCode trap.guestctl0ext = GUEST_HYPERCALL →
    CallKept b.platform b.memory b.drivers trap.devices trap.answers trap.badinstr s

/-- Guests execute in guest mode only, and all that they are stopped for is an exit, with a
hypercall that keeps to its memory. -/
def GuestExit (b : Build) (s : System) : SystemEvent → Prop
  | .exception trap => getCauseCode trap.cause = GUEST_EXIT_EXCEPTION ∧ s.hv.executing ≠ none ∧
      ExitKept b trap s
  | _ => True

/-! ### The actions of the machines -/

/-- What the software of a VCPU does: it runs, and leaves its machine as it likes, or it exits and
gets an answer in some registers. -/
inductive Action
  | runs (after : Machine)
  | exit (answer : List (Fin 34 × UInt32))

def act (m : Machine) : Action → Machine
  | .runs after => after
  | .exit answer =>
    { m with pc := m.pc + 4, gpr := fun j => (answer.lookup j).getD (m.gpr j) }

/-- The registers in which an exit is answered: V0 and A0 of a hypercall, and the target of an
emulated `mfc0`. -/
def answered (p : Platform) (trap : Trap) : List (Fin 34) :=
  let guestcause := getGCauseCode trap.guestctl0ext
  if guestcause = GUEST_HYPERCALL then [2, 4]
  else if guestcause = GUEST_INSTRUCTION_EMULATION then
    match p, decode trap.badinstr with
    | .baikalT1, some (.mfc0 rt _ _) => [Fin.ofNat 34 rt]
    | _, _ => []
  else []

/-- The VCPU that acts in a step, and what it does. -/
def actor (b : Build) (s : System) : SystemEvent → Option (VcpuPtr × Action)
  | .guest cp0 pc gpr => s.hv.executing.map fun v => (v, .runs {
      pc := pc
      cp0 := restoredRegisters.map fun r => cp0 r.2.1 r.2.2
      gpr := fun j => gpr j })
  | .exception trap =>
    match s.hv.executing, serveExit b trap s with
    | some v, .ok t => some (v, .exit ((answered b.platform trap).map fun j =>
        (j, moveFromPreviousGuestGPR b.platform t.hv.cpu j)))
    | _, _ => none
  | _ => none

variable {b : Build} {trap : Trap} {caller v : VcpuPtr} {hv hv' : Hv} {n : Nat} {p : Platform}

/-! ### Serving an exit -/

/-- What serving an exit of `caller` changes: besides the kernel's words of the VCPUs, the registers
of the answer. -/
structure ServedExit (p : Platform) (answer : List (Fin 34)) (before after : Hv) : Prop where
  readyList : after.readyList = before.readyList
  executing : after.executing = before.executing
  vcpu : ∀ v, ∃ critical state guestclt2 messages, after.vcpus v = { before.vcpus v with
    critical := critical, state := state, guestclt2 := guestclt2, messages := messages }
  epc : getEPC after.cpu = getEPC before.cpu
  srsctl : after.cpu.srsctl = before.cpu.srsctl
  cp0 : ∀ r ∈ restoredRegisters, mfgc0 after.cpu r.2.1 r.2.2 = mfgc0 before.cpu r.2.1 r.2.2
  shadowGpr : ∀ set, set ≠ getPreviousShadowSet before.cpu →
    after.cpu.shadowGpr set = before.cpu.shadowGpr set
  gpr : ∀ j : Fin 34, j ∉ answer →
    moveFromPreviousGuestGPR p after.cpu j = moveFromPreviousGuestGPR p before.cpu j

theorem ServedExit.refl (p : Platform) (answer : List (Fin 34)) (hv : Hv) :
    ServedExit p answer hv hv :=
  ⟨rfl, rfl, fun _ => ⟨_, _, _, _, rfl⟩, rfl, rfl, fun _ _ => rfl, fun _ _ => rfl, fun _ _ => rfl⟩

/-- A hypercall answers in V0 and A0. -/
theorem CallFrame.served (h : CallFrame caller hv hv') (p : Platform) :
    ServedExit p [2, 4] hv hv' where
  readyList := h.readyList
  executing := h.executing
  vcpu := h.vcpu
  epc := h.cpu.epc
  srsctl := h.cpu.srsctl
  cp0 := fun r _ => congrFun (congrFun h.cpu.guestCp0 _) _
  shadowGpr := fun set hset => funext fun reg => h.cpu.shadowGpr set reg fun heq => absurd heq hset
  gpr := by
    intro j hj
    have hregs : (j : Nat) ≠ REG_V0 ∧ (j : Nat) ≠ REG_A0 := by
      constructor
      · exact fun heq => hj (List.mem_cons.mpr (Or.inl (Fin.ext heq)))
      · exact fun heq => hj (List.mem_cons_of_mem _ (List.mem_singleton.mpr (Fin.ext heq)))
    cases p with
    | pic32mz =>
      have hset : getPreviousShadowSet hv'.cpu = getPreviousShadowSet hv.cpu := by
        rw [getPreviousShadowSet, h.cpu.srsctl]
        rfl
      simp only [moveFromPreviousGuestGPR, hset]
      exact h.cpu.shadowGpr _ _ fun _ => hregs
    | baikalT1 => exact h.cpu.gprFrame _ hregs.1 hregs.2

/-- The watch registers are not carried over. -/
theorem restored_not_watch :
    ∀ r ∈ restoredRegisters, r.2.1 ≠ CP0_WATCHLO ∧ r.2.1 ≠ CP0_WATCHHI := by
  decide

/-- A write to a watch register leaves the registers that are carried over. -/
theorem writeWatch_restored {cpu after : Cpu} {rd sel : Nat} {value : UInt32}
    (h : writeWatch cpu rd sel value = some after) :
    (∃ cp0, after = { cpu with guestCp0 := cp0 }) ∧
      ∀ r ∈ restoredRegisters, mfgc0 after r.2.1 r.2.2 = mfgc0 cpu r.2.1 r.2.2 := by
  unfold writeWatch at h
  split_ifs at h with hwatch h0 h1
  · obtain rfl := Option.some.inj h
    refine ⟨⟨_, rfl⟩, fun r hr => ?_⟩
    have hregister := restored_not_watch r hr
    refine if_neg fun heq => ?_
    rcases hwatch with hwatch | hwatch
    · exact hregister.1 (heq.1.trans hwatch)
    · exact hregister.2 (heq.1.trans hwatch)
  · obtain rfl := Option.some.inj h
    exact ⟨⟨_, rfl⟩, fun _ _ => rfl⟩

/-- The emulation writes the register of an `mfc0`, or a watch register. -/
theorem emulateInstruction_served (prid : UInt32) (p : Platform)
    (hcause : getGCauseCode trap.guestctl0ext = GUEST_INSTRUCTION_EMULATION) (hv : Hv) :
    ServedExit p (answered p trap) hv
      { hv with cpu := emulateInstruction p prid trap.badinstr hv.cpu } := by
  cases p with
  | pic32mz => exact ServedExit.refl _ _ hv
  | baikalT1 =>
    have hnot : ¬getGCauseCode trap.guestctl0ext = GUEST_HYPERCALL := by
      rw [hcause]
      decide
    simp only [emulateInstruction, instructionEmulation_eq, answered, if_neg hnot, if_pos hcause]
    cases hdecode : decode trap.badinstr with
    | none => exact ServedExit.refl _ _ hv
    | some m =>
      cases m with
      | mfc0 rt rd sel =>
        dsimp only
        cases hshown : shownRegister prid hv.cpu rd sel with
        | none => exact ServedExit.refl _ _ hv
        | some value =>
          refine ⟨rfl, rfl, fun _ => ⟨_, _, _, _, rfl⟩, rfl, rfl, fun _ _ => rfl, fun _ _ => rfl,
            ?_⟩
          intro j hj
          have hne : (j : Nat) ≠ rt := by
            rintro rfl
            exact hj (List.mem_singleton.mpr (by simp))
          exact moveFrom_moveTo_of_ne .baikalT1 hv.cpu hne value
      | mtc0 rt rd sel =>
        dsimp only
        cases hwrite : writeWatch hv.cpu rd sel (hv.cpu.gprFrame rd) with
        | none => exact ServedExit.refl _ _ hv
        | some after =>
          obtain ⟨⟨cp0, rfl⟩, hrestored⟩ := writeWatch_restored hwrite
          exact ⟨rfl, rfl, fun _ => ⟨_, _, _, _, rfl⟩, rfl, rfl, hrestored, fun _ _ => rfl,
            fun _ _ => rfl⟩

/-- What an exit does to the rings is what its hypercall does. -/
structure ExitServed (b : Build) (trap : Trap) (before after : System) : Prop where
  exit : ServedExit b.platform (answered b.platform trap) before.hv after.hv
  rings : RingStep b.drivers.vmconfP.length before.hv after.hv

/-- Every exit is served, if its accesses are kept. -/
theorem serveExit_served {s : System} (hready : Ready s.hv b.drivers.vmconfP.length)
    (halloc : AllocationsSucceed b.drivers.vmconfP.length) (hexec : s.hv.executing = some caller)
    (hcaller : caller < b.drivers.vmconfP.length) (hkept : ExitKept b trap s) :
    ∃ t, serveExit b trap s = .ok t ∧ ExitServed b trap s t := by
  unfold serveExit
  dsimp only
  split_ifs with hemulate hcall
  · exact ⟨_, rfl, emulateInstruction_served b.prid b.platform hemulate s.hv, .same fun _ => rfl⟩
  · obtain ⟨t, hok⟩ := (hkept hcall).performed hready halloc hexec hcaller
    obtain ⟨hframe, -, hrings⟩ := performHypercall_framed hready halloc hexec hcaller hok
    refine ⟨t, hok, ?_, hrings⟩
    simp only [answered, if_pos hcall]
    exact hframe.served b.platform
  · exact ⟨s, rfl, ServedExit.refl _ _ s.hv, .same fun _ => rfl⟩

/-! ### The machines -/

theorem lookup_map_pair {α β : Type*} [DecidableEq α] (f : α → β) (l : List α) (a : α) :
    (l.map fun x => (x, f x)).lookup a = if a ∈ l then some (f a) else none := by
  induction l with
  | nil => rfl
  | cons x l ih =>
    rw [List.map_cons, List.lookup_cons, ih]
    by_cases ha : a = x
    · subst ha
      simp
    · simp [beq_false_of_ne ha, ha]

/-- What an exit makes of the machine that is in the processor. -/
theorem ServedExit.liveMachine {answer : List (Fin 34)} (h : ServedExit p answer hv hv') (cpu : Cpu)
    (hcpu : cpu = setEPC hv'.cpu (getEPC hv.cpu + 4)) :
    liveMachine p cpu = act (liveMachine p hv.cpu)
      (.exit (answer.map fun j => (j, moveFromPreviousGuestGPR p hv'.cpu j))) := by
  subst hcpu
  have hcp0 : restoredRegisters.map (fun r => mfgc0 hv'.cpu r.2.1 r.2.2) =
      restoredRegisters.map fun r => mfgc0 hv.cpu r.2.1 r.2.2 :=
    List.map_congr_left h.cp0
  have hgpr : ∀ j : Fin 34, moveFromPreviousGuestGPR p
      (setEPC hv'.cpu (getEPC hv.cpu + 4)) j = moveFromPreviousGuestGPR p hv'.cpu j := by
    intro j
    cases p <;> rfl
  simp only [Kernel.liveMachine, act, mfgc0_setEPC, hcp0, hgpr, lookup_map_pair, Machine.mk.injEq,
    true_and]
  refine ⟨rfl, funext fun j => ?_⟩
  split_ifs with hj
  · rfl
  · exact h.gpr j hj

theorem ServedExit.separate {answer : List (Fin 34)} (h : ServedExit p answer hv hv')
    (hsep : Separate p n hv) (caller : VcpuPtr) (epc : UInt32) :
    Separate p n (skipInstruction hv' caller epc) := by
  have hcontext : ∀ v, ∃ pc guestclt2, ((skipInstruction hv' caller epc).vcpus v).toVcpuContext =
      { (hv.vcpus v).toVcpuContext with pc := pc, guestclt2 := guestclt2 } := by
    intro v
    obtain ⟨_, _, guestclt2, _, heq⟩ := h.vcpu v
    simp only [skipInstruction, Hv.setVcpu_apply]
    split_ifs with hcall
    · subst hcall
      rw [heq]
      exact ⟨epc + 4, guestclt2, rfl⟩
    · rw [heq]
      exact ⟨(hv.vcpus v).pc, guestclt2, rfl⟩
  have hset : ∀ v, ((skipInstruction hv' caller epc).vcpus v).gprshadowset =
      (hv.vcpus v).gprshadowset := by
    intro v
    obtain ⟨_, _, heq⟩ := hcontext v
    rw [heq]
  constructor
  · intro v hv
    obtain ⟨_, _, heq⟩ := hcontext v
    rw [heq]
    exact hsep.place v hv
  · intro hp v hv w hw heq
    rw [hset v, hset w] at heq
    exact hsep.apart hp v hv w hw heq
  · intro v hexec
    obtain ⟨hlt, hinit, hselects⟩ := hsep.executing v (h.executing ▸ hexec)
    obtain ⟨_, _, heq⟩ := hcontext v
    rw [heq]
    exact ⟨hlt, hinit, hselects.congr h.srsctl rfl⟩

/-- An exit is an action of its VCPU and leaves the machines of the others as they are. -/
theorem ServedExit.machineOf {answer : List (Fin 34)} (h : ServedExit p answer hv hv')
    (hsep : Separate p n hv) (hexec : hv.executing = some caller) (hv₀ : v < n) :
    machineOf p (skipInstruction hv' caller (getEPC hv.cpu)) v =
      actAt act v (some (caller, .exit (answer.map fun j =>
        (j, moveFromPreviousGuestGPR p hv'.cpu j)))) (machineOf p hv v) := by
  have hexec' : (skipInstruction hv' caller (getEPC hv.cpu)).executing = some caller :=
    h.executing.trans hexec
  have hcpu : (skipInstruction hv' caller (getEPC hv.cpu)).cpu =
      setEPC hv'.cpu (getEPC hv.cpu + 4) := by
    simp only [skipInstruction, Hv.setVcpu_self, Hv.setVcpu_cpu]
  by_cases hcall : caller = v
  · subst hcall
    rw [actAt_self, machineOf_live hexec', machineOf_live hexec]
    exact h.liveMachine _ hcpu
  · have hother : some caller ≠ some v := fun heq => hcall (Option.some.inj heq)
    rw [actAt_of_ne act hcall, machineOf_saved (hexec'.symm ▸ hother),
      machineOf_saved (hexec.symm ▸ hother)]
    obtain ⟨_, _, guestclt2, _, heq⟩ := h.vcpu v
    have hvcpu : (skipInstruction hv' caller (getEPC hv.cpu)).vcpus v = hv'.vcpus v :=
      Hv.setVcpu_of_ne hv' _ (Ne.symm hcall)
    rw [hvcpu, heq, hcpu]
    cases p with
    | baikalT1 => rfl
    | pic32mz =>
      have hshadow := h.shadowGpr _ (hsep.set_ne hexec hv₀ hcall)
      simp only [savedMachine, Machine.mk.injEq, true_and]
      funext j
      exact congrFun hshadow j

/-! ### Steps that disturb no machine -/

/-- Only virtual interrupts and urgency change, and a VCPU may become able to run. -/
structure Undisturbed (before after : Hv) : Prop where
  readyList : after.readyList = before.readyList
  executing : after.executing = before.executing
  cpu : ∃ guestctl2, after.cpu = { before.cpu with guestctl2 := guestctl2 }
  vcpu : ∀ v, ∃ critical state guestclt2, after.vcpus v = { before.vcpus v with
    critical := critical, state := state, guestclt2 := guestclt2 }
  running : ∀ v, (before.vcpus v).state = .running → (after.vcpus v).state = .running

namespace Undisturbed

theorem refl (hv : Hv) : Undisturbed hv hv :=
  ⟨rfl, rfl, ⟨_, rfl⟩, fun _ => ⟨_, _, _, rfl⟩, fun _ h => h⟩

theorem trans {hv'' : Hv} (h : Undisturbed hv hv') (h' : Undisturbed hv' hv'') :
    Undisturbed hv hv'' where
  readyList := h'.readyList.trans h.readyList
  executing := h'.executing.trans h.executing
  cpu := by
    obtain ⟨_, heq⟩ := h.cpu
    obtain ⟨guestctl2, heq'⟩ := h'.cpu
    exact ⟨guestctl2, by rw [heq', heq]⟩
  vcpu := by
    intro v
    obtain ⟨_, _, _, heq⟩ := h.vcpu v
    obtain ⟨critical, state, guestclt2, heq'⟩ := h'.vcpu v
    exact ⟨critical, state, guestclt2, by rw [heq', heq]⟩
  running := fun v hrun => h'.running v (h.running v hrun)

theorem ready (h : Undisturbed hv hv') (hready : Ready hv n) : Ready hv' n := by
  obtain ⟨l, hl, hholds⟩ := hready.list
  refine ⟨⟨l, hl, h.readyList ▸ hholds⟩, fun v hv => ?_, fun v hv => ?_⟩
  · obtain ⟨_, _, _, heq⟩ := h.vcpu v
    rw [heq, hready.ids v hv]
  · obtain ⟨_, _, _, heq⟩ := h.vcpu v
    rw [heq, hready.vmIds v hv]

theorem keepsMachines (h : Undisturbed hv hv') (hsep : Separate p n hv) :
    KeepsMachines p n hv hv' := by
  obtain ⟨_, hcpu⟩ := h.cpu
  refine KeepsMachines.same hsep h.executing ?_ ?_ ?_ fun v => ?_
  · rw [hcpu]
    cases p <;> rfl
  · rw [hcpu]
  · rw [hcpu]
  · obtain ⟨_, _, guestclt2, heq⟩ := h.vcpu v
    exact ⟨guestclt2, by rw [heq]⟩

theorem setGuestCTL2 (hv : Hv) (guestctl2 : UInt32) :
    Undisturbed hv { hv with cpu := setGuestCTL2 hv.cpu guestctl2 } :=
  ⟨rfl, rfl, ⟨guestctl2, rfl⟩, fun _ => ⟨_, _, _, rfl⟩, fun _ h => h⟩

theorem fastInterruptDelivery (hv : Hv) (target : VcpuPtr) :
    Undisturbed hv (fastInterruptDelivery hv target) := by
  refine ⟨fastInterruptDelivery_readyList hv target, fastInterruptDelivery_executing hv target,
    ⟨hv.cpu.guestctl2, by rw [fastInterruptDelivery_cpu]⟩, fun v => ?_, fun v hrun => ?_⟩
  · obtain ⟨critical, heq⟩ := fastInterruptDelivery_vcpu hv target v
    exact ⟨critical, _, _, heq⟩
  · obtain ⟨critical, heq⟩ := fastInterruptDelivery_vcpu hv target v
    rw [heq]
    exact hrun

theorem setWord (hv : Hv) (v : VcpuPtr) (guestclt2 : UInt32) :
    Undisturbed hv (hv.setVcpu v { hv.vcpus v with guestclt2 := guestclt2 }) := by
  refine ⟨rfl, rfl, ⟨hv.cpu.guestctl2, rfl⟩, fun w => ?_, fun w hrun => ?_⟩
  · rw [Hv.setVcpu_apply]
    split_ifs with hw
    · exact ⟨_, _, guestclt2, by rw [hw]⟩
    · exact ⟨_, _, _, rfl⟩
  · rw [Hv.setVcpu_apply]
    split_ifs with hw
    · rw [← hw]
      exact hrun
    · exact hrun

theorem unblock (hv : Hv) (v : VcpuPtr) : Undisturbed hv (setState hv v .running) := by
  refine ⟨rfl, rfl, ⟨hv.cpu.guestctl2, rfl⟩, fun w => ?_, fun w hrun => ?_⟩
  · obtain ⟨state, heq⟩ := setState_vcpu hv v w .running
    exact ⟨_, state, _, heq⟩
  · simp only [setState, Hv.setVcpu_apply]
    split_ifs
    · rfl
    · exact hrun

theorem injectEntry (s : Redirect) (m : InterruptMapping) :
    Undisturbed s.hv (injectEntry s m).hv := by
  unfold Drivers.injectEntry
  dsimp only
  split_ifs
  · exact refl s.hv
  · exact setGuestCTL2 s.hv _
  · exact (setWord s.hv m.vcpu _).trans (fastInterruptDelivery _ m.vcpu)
  · exact refl s.hv

theorem interruptInjection (s : Redirect) : Undisturbed s.hv (interruptInjection s).hv := by
  unfold Drivers.interruptInjection
  generalize s.interruptMappingList = l
  induction l generalizing s with
  | nil => exact refl s.hv
  | cons m l ih => exact (injectEntry s m).trans (ih (Drivers.injectEntry s m))

end Undisturbed

/-! ### One step -/

/-- What holds of the hypervisor between two events: its lists, rings and registers are in order,
and the VCPU in execution is not blocked. -/
structure Sound (b : Build) (s : System) : Prop where
  ready : Ready s.hv b.drivers.vmconfP.length
  rings : RingsHold b.drivers.vmconfP.length s.hv
  separate : Separate b.platform b.drivers.vmconfP.length s.hv
  running : ∀ v, s.hv.executing = some v → (s.hv.vcpus v).state = .running

/-- A step keeps the hypervisor in order, and does to each machine what the software of its VCPU
does in it. -/
structure Acts (b : Build) (s : System) (e : SystemEvent) (t : System) : Prop where
  sound : Sound b t
  machine : ∀ v < b.drivers.vmconfP.length,
    machineOf b.platform t.hv v = actAt act v (actor b s e) (machineOf b.platform s.hv v)

variable {s t : System} {e : SystemEvent}

theorem Undisturbed.rings (h : Undisturbed hv hv') (hrings : RingsHold n hv) : RingsHold n hv' :=
  hrings.same fun w => by
    obtain ⟨_, _, _, heq⟩ := h.vcpu w
    rw [heq]

theorem Sound.undisturbed (h : Sound b s) (hact : actor b s e = none)
    (hstep : Undisturbed s.hv t.hv) : Acts b s e t := by
  have hkeeps := hstep.keepsMachines h.separate
  refine ⟨⟨hstep.ready h.ready, hstep.rings h.rings, hkeeps.separate, fun v hexec => ?_⟩,
    fun v hv => ?_⟩
  · exact hstep.running v (h.running v (hstep.executing ▸ hexec))
  · rw [hact, actAt_none]
    exact hkeeps.machine v hv

/-- A call of the scheduler, and what disturbs no machine after it. -/
theorem Sound.scheduled {hv₁ : Hv} (hready : Ready hv b.drivers.vmconfP.length)
    (hrings : RingsHold b.drivers.vmconfP.length hv)
    (hsep : Separate b.platform b.drivers.vmconfP.length hv)
    (hrun : runScheduler b.platform b.quantum hv = .ok hv₁) (hstep : Undisturbed hv₁ t.hv) :
    Sound b t ∧ ∀ v < b.drivers.vmconfP.length,
      machineOf b.platform t.hv v = machineOf b.platform hv v := by
  obtain ⟨hv₂, hrun₂, hready₂, hkeeps, hrunning⟩ :=
    KeepsMachines.runScheduler hsep hready b.quantum
  obtain rfl := Except.ok.inj (hrun.symm.trans hrun₂)
  have hafter := hstep.keepsMachines hkeeps.separate
  have htick : step b.platform b.quantum hv .tick = some hv₁ := by
    rw [step, hrun]
    rfl
  have hrings₁ : RingsHold b.drivers.vmconfP.length hv₁ := hrings.same (step_messages hready htick)
  refine ⟨⟨hstep.ready hready₂, hstep.rings hrings₁, hafter.separate, fun v hexec => ?_⟩,
    fun v hv => ?_⟩
  · exact hstep.running v (hrunning v (hstep.executing ▸ hexec))
  · exact (hafter.machine v hv).trans (hkeeps.machine v hv)

theorem timerInterruptHandler_undisturbed {quantum : UInt32} {s : Virtual}
    (hrun : runScheduler .pic32mz quantum s.hv = .ok hv') (interval now : UInt32) :
    ∃ t, timerInterruptHandler quantum interval now s = .ok t ∧ Undisturbed hv' t.hv := by
  have hacknowledged : runScheduler .pic32mz quantum
      ({ s with redirect := s.redirect.ifsClr 0 } : Virtual).hv = .ok hv' := hrun
  unfold timerInterruptHandler
  simp only [hacknowledged, bind, Except.bind, pure, Except.pure]
  generalize (if now ≥ s.past then now - s.past else 0xffffffff - (s.past - now)) = diffTime
  split_ifs
  · exact ⟨_, rfl, Undisturbed.setGuestCTL2 hv' _⟩
  · exact ⟨_, rfl, Undisturbed.refl hv'⟩

theorem Sound.timer (h : Sound b s) (now : UInt32) :
    ∃ t, timerInterrupt b now s.toVirtual = .ok t ∧
      Acts b s (.timer now) { s with toVirtual := t } := by
  obtain ⟨hv', hrun, -⟩ := h.ready.runScheduler b.platform b.quantum
  have hcases : ∃ t, timerInterrupt b now s.toVirtual = .ok t ∧ Undisturbed hv' t.hv := by
    unfold timerInterrupt
    cases hp : b.platform with
    | baikalT1 =>
      rw [hp] at hrun
      exact ⟨s.toVirtual.setHv hv', by simp only [hrun]; rfl, Undisturbed.refl hv'⟩
    | pic32mz =>
      rw [hp] at hrun
      exact timerInterruptHandler_undisturbed hrun b.interval now
  obtain ⟨t, hok, hstep⟩ := hcases
  have hafter :=
    Sound.scheduled (t := { s with toVirtual := t }) h.ready h.rings h.separate hrun hstep
  exact ⟨t, hok, hafter.1, hafter.2⟩

theorem guestRegisters_srsctl (p : Platform) (cpu : Cpu) (cp0 : Nat → Nat → UInt32) (pc : UInt32)
    (gpr : Nat → UInt32) : (guestRegisters p cpu cp0 pc gpr).srsctl = cpu.srsctl := by
  cases p <;> rfl

theorem liveMachine_guestRegisters (p : Platform) (cpu : Cpu) (cp0 : Nat → Nat → UInt32)
    (pc : UInt32) (gpr : Nat → UInt32) : liveMachine p (guestRegisters p cpu cp0 pc gpr) =
      { pc := pc, cp0 := restoredRegisters.map fun r => cp0 r.2.1 r.2.2,
        gpr := fun j => gpr j } := by
  cases p with
  | baikalT1 => rfl
  | pic32mz =>
    simp only [liveMachine, moveFromPreviousGuestGPR, Machine.mk.injEq]
    refine ⟨rfl, rfl, funext fun j => ?_⟩
    exact congrFun (Function.update_self (getPreviousShadowSet cpu) gpr cpu.shadowGpr) j

theorem savedMachine_guestRegisters {cpu : Cpu} {c : VcpuContext}
    (hset : p = .pic32mz → c.gprshadowset ≠ getPreviousShadowSet cpu)
    (cp0 : Nat → Nat → UInt32) (pc : UInt32) (gpr : Nat → UInt32) :
    savedMachine p (guestRegisters p cpu cp0 pc gpr) c = savedMachine p cpu c := by
  cases p with
  | baikalT1 => rfl
  | pic32mz =>
    simp only [savedMachine, guestRegisters, Function.update_of_ne (hset rfl)]

/-- The guest in execution changes its own machine alone. -/
theorem Sound.guest (h : Sound b s) (cp0 : Nat → Nat → UInt32) (pc : UInt32) (gpr : Nat → UInt32) :
    Acts b s (.guest cp0 pc gpr) (s.setHv (guestRuns b.platform s.hv cp0 pc gpr)) := by
  cases hexec : s.hv.executing with
  | none =>
    have hidle : guestRuns b.platform s.hv cp0 pc gpr = s.hv := by simp only [guestRuns, hexec]
    apply Sound.undisturbed h (by simp only [actor, hexec, Option.map_none])
    rw [hidle]
    exact Undisturbed.refl s.hv
  | some w =>
    have hruns : guestRuns b.platform s.hv cp0 pc gpr =
        { s.hv with cpu := guestRegisters b.platform s.hv.cpu cp0 pc gpr } := by
      simp only [guestRuns, hexec]
    have hexecuting : (guestRuns b.platform s.hv cp0 pc gpr).executing = s.hv.executing := by
      rw [hruns]
    rw [hruns] at hexecuting ⊢
    refine ⟨⟨⟨h.ready.list, h.ready.ids, h.ready.vmIds⟩, h.rings,
      ⟨h.separate.place, h.separate.apart, ?_⟩, h.running⟩, fun v hv => ?_⟩
    · intro v hv
      obtain ⟨hlt, hinit, hselects⟩ := h.separate.executing v hv
      exact ⟨hlt, hinit, hselects.congr (guestRegisters_srsctl ..) rfl⟩
    · have hact : actor b s (.guest cp0 pc gpr) = some (w, .runs {
          pc := pc, cp0 := restoredRegisters.map fun r => cp0 r.2.1 r.2.2,
          gpr := fun j => gpr j }) := by
        simp only [actor, hexec, Option.map_some]
      rw [hact]
      by_cases hvw : w = v
      · subst hvw
        rw [actAt_self]
        exact (machineOf_live (hexecuting.trans hexec)).trans (liveMachine_guestRegisters ..)
      · have hother : s.hv.executing ≠ some v :=
          fun heq => hvw (Option.some.inj (hexec.symm.trans heq))
        rw [actAt_of_ne act hvw, machineOf_saved hother]
        refine (machineOf_saved (hexecuting ▸ hother)).trans
          (savedMachine_guestRegisters ?_ cp0 pc gpr)
        exact fun hp => (hp ▸ h.separate).set_ne hexec hv hvw

theorem ServedExit.ready {answer : List (Fin 34)} (h : ServedExit p answer hv hv')
    (hready : Ready hv n)
    (caller : VcpuPtr) (epc : UInt32) : Ready (skipInstruction hv' caller epc) n := by
  have hvcpu : ∀ v, ((skipInstruction hv' caller epc).vcpus v).id = (hv.vcpus v).id ∧
      ((skipInstruction hv' caller epc).vcpus v).vm = (hv.vcpus v).vm := by
    intro v
    obtain ⟨_, _, _, _, heq⟩ := h.vcpu v
    simp only [skipInstruction, Hv.setVcpu_apply]
    split_ifs with hcall
    · subst hcall
      rw [heq]
      exact ⟨rfl, rfl⟩
    · rw [heq]
      exact ⟨rfl, rfl⟩
  obtain ⟨l, hl, hholds⟩ := hready.list
  refine ⟨⟨l, hl, h.readyList ▸ hholds⟩, fun v hv => ?_, fun v hv => ?_⟩
  · rw [(hvcpu v).1, hready.ids v hv]
  · rw [(hvcpu v).2, hready.vmIds v hv]

theorem skipInstruction_messages (hv : Hv) (caller w : VcpuPtr) (epc : UInt32) :
    ((skipInstruction hv caller epc).vcpus w).messages = (hv.vcpus w).messages := by
  simp only [skipInstruction, Hv.setVcpu_apply]
  split_ifs with heq
  · rw [heq]
  · rfl

/-- An exit returns, as an action of the VCPU in execution; a VCPU that it blocks gives way to
another one. -/
theorem Sound.exit (h : Sound b s) (halloc : AllocationsSucceed b.drivers.vmconfP.length)
    (hexec : s.hv.executing = some caller) (hkept : ExitKept b trap s) :
    ∃ t, guestExitException b trap s = .ok t ∧ Acts b s (.exception trap) t := by
  obtain ⟨hcaller, -⟩ := h.separate.executing caller hexec
  obtain ⟨u, hserve, hserved, hringStep⟩ := serveExit_served h.ready halloc hexec hcaller hkept
  have hexec' : u.hv.executing = some caller := hserved.executing.trans hexec
  have hact : actor b s (.exception trap) = some (caller, .exit ((answered b.platform trap).map
      fun j => (j, moveFromPreviousGuestGPR b.platform u.hv.cpu j))) := by
    simp only [actor, hexec, hserve]
  set hv₁ := skipInstruction u.hv caller (getEPC s.hv.cpu) with hhv₁
  have hready := hserved.ready h.ready caller (getEPC s.hv.cpu)
  have hrings : RingsHold b.drivers.vmconfP.length hv₁ := by
    rw [hhv₁]
    exact (hringStep.holds h.rings).same fun w => skipInstruction_messages u.hv caller w _
  have hsep := hserved.separate h.separate caller (getEPC s.hv.cpu)
  have hmachine : ∀ v < b.drivers.vmconfP.length, machineOf b.platform hv₁ v =
      actAt act v (actor b s (.exception trap)) (machineOf b.platform s.hv v) := by
    intro v hv
    rw [hact]
    exact hserved.machineOf h.separate hexec hv
  unfold guestExitException
  simp only [hserve, hexec', bind, Except.bind, ← hhv₁]
  split_ifs with hblocked
  · obtain ⟨hv₂, hrun, -⟩ := hready.runScheduler b.platform b.quantum
    have hafter := Sound.scheduled (t := u.setHv hv₂) hready hrings hsep hrun (Undisturbed.refl hv₂)
    refine ⟨u.setHv hv₂, ?_, hafter.1, fun v hv => (hafter.2 v hv).trans (hmachine v hv)⟩
    rw [hrun]
    rfl
  · refine ⟨u.setHv hv₁, rfl, ⟨hready, hrings, hsep, fun v hexec₁ => ?_⟩, hmachine⟩
    obtain rfl := Option.some.inj (hexec'.symm.trans hexec₁)
    cases hstate : (hv₁.vcpus caller).state with
    | running => exact hstate
    | blocked => exact absurd hstate hblocked

/-- Without a VCPU in execution the handler stores the PC through a null pointer. -/
theorem guestExitException_executing (h : guestExitException b trap s = .ok t) :
    s.hv.executing ≠ none := by
  intro hnone
  obtain ⟨u, hserve, h⟩ := bind_ok.mp h
  have hnone' : u.hv.executing = none := by
    unfold serveExit at hserve
    dsimp only at hserve
    split_ifs at hserve
    · cases hserve
      exact hnone
    · obtain ⟨answers', hcall⟩ := performHypercall_execution hserve
      exact hypercallExecution_none hnone hcall
    · cases hserve
      exact hnone
  simp only [hnone'] at h
  cases h

/-- The hypercall of an exit that returns has kept to its memory. -/
theorem guestExitException_kept (h : guestExitException b trap s = .ok t) : ExitKept b trap s := by
  intro hcause
  obtain ⟨u, hserve, -⟩ := bind_ok.mp h
  have hnot : ¬getGCauseCode trap.guestctl0ext = GUEST_INSTRUCTION_EMULATION := by
    rw [hcause]
    decide
  unfold serveExit at hserve
  dsimp only at hserve
  rw [if_neg hnot, if_pos hcause] at hserve
  exact callKept_of_performed hserve

/-- The step lemma, one case for each event. -/
theorem Sound.step (h : Sound b s) (halloc : AllocationsSucceed b.drivers.vmconfP.length)
    (e : SystemEvent) (hguard : GuestExit b s e) :
    ∃ t, systemStep b s e = some t ∧ Acts b s e t := by
  cases e with
  | timer now =>
    obtain ⟨t, hok, hacts⟩ := h.timer now
    exact ⟨_, by rw [systemStep, hok]; rfl, hacts⟩
  | deliver target =>
    exact ⟨_, rfl, Sound.undisturbed h rfl (Undisturbed.fastInterruptDelivery s.hv target)⟩
  | unblock v => exact ⟨_, rfl, Sound.undisturbed h rfl (Undisturbed.unblock s.hv v)⟩
  | lines ifs => exact ⟨_, rfl, Sound.undisturbed h rfl (Undisturbed.refl s.hv)⟩
  | injection => exact ⟨_, rfl, Sound.undisturbed h rfl (Undisturbed.interruptInjection s.redirect)⟩
  | usbDevice transfer descriptorData =>
    exact ⟨_, rfl, Sound.undisturbed h rfl (Undisturbed.refl s.hv)⟩
  | guest cp0 pc gpr => exact ⟨_, rfl, h.guest cp0 pc gpr⟩
  | exception trap =>
    obtain ⟨hcause, hexec, hkept⟩ := hguard
    obtain ⟨caller, hcaller⟩ := Option.ne_none_iff_exists'.mp hexec
    obtain ⟨t, hok, hacts⟩ := h.exit halloc hcaller hkept
    refine ⟨t, ?_, hacts⟩
    simp only [systemStep, generalExceptionHandler, if_pos hcause, hok]
    rfl

/-! ### Runs -/

/-- The hypervisor when its first timer interrupt comes: the VMs are created and the drivers have
been initialized. -/
structure Boots (b : Build) (power : Power) (vmconf : List VmConf) (s : System) : Prop where
  allocations : AllocationsSucceed vmconf.length
  sets : EnoughSets b.platform power.cpu vmconf.length
  machines : s.hv = initializeMachines b.platform power vmconf
  devices : virtualIoInit s.hv vmconf.length = .ok b.drivers.vmconfP

variable {power : Power} {vmconf : List VmConf} {s₀ : System} {es : List SystemEvent}

theorem Boots.vmconfP (h : Boots b power vmconf s₀) : b.drivers.vmconfP = vmconf := by
  have hdevices := h.devices
  rw [h.machines, virtualIoInit_eq b.platform power vmconf h.allocations] at hdevices
  exact (Except.ok.inj hdevices).symm

theorem Boots.sound (h : Boots b power vmconf s₀) : Sound b s₀ := by
  have hbooted := initializeMachines_booted b.platform power vmconf
  refine ⟨?_, ?_, ?_, fun v hexec => ?_⟩
  · rw [h.vmconfP, h.machines]
    exact hbooted.isReady
  · rw [h.vmconfP, h.machines]
    exact fun v hv => (copyStart_ready b.platform power vmconf s₀.objects).holds hv
  · rw [h.vmconfP, h.machines]
    exact initializeMachines_separate h.allocations h.sets
  · rw [h.machines] at hexec
    exact absurd (hbooted.executing.symm.trans hexec) (Option.some_ne_none v).symm

theorem Boots.step (h : Boots b power vmconf s₀) (hs : Sound b s) (hguard : GuestExit b s e) :
    ∃ t, systemStep b s e = some t ∧ Acts b s e t :=
  hs.step (h.vmconfP ▸ h.allocations) e hguard

/-- Only an exit of a VCPU in execution, with a hypercall that keeps to its memory, is returned
from. -/
theorem guestExit_of_step (h : systemStep b s e = some t) : GuestExit b s e := by
  cases e with
  | exception trap =>
    have hok : generalExceptionHandler b trap s = .ok t := by
      cases hresult : generalExceptionHandler b trap s with
      | error f =>
        simp only [systemStep, hresult] at h
        cases h
      | ok u =>
        simp only [systemStep, hresult] at h
        rw [Option.some.inj h]
    unfold generalExceptionHandler at hok
    dsimp only at hok
    split_ifs at hok with hcause
    · exact ⟨hcause, guestExitException_executing hok, guestExitException_kept hok⟩
    · split at hok <;> cases hok
  | _ => trivial

theorem Boots.reached (h : Boots b power vmconf s₀) {t : System}
    (hrun : run (systemStep b) s₀ es = some t) : Sound b t := by
  refine run_invariant (P := Sound b) (fun s e t hs hstep => ?_) h.sound hrun
  obtain ⟨u, hu, hacts⟩ := h.step hs (guestExit_of_step hstep)
  obtain rfl := Option.some.inj (hu.symm.trans hstep)
  exact hacts.sound

instance (b : Build) (s : System) (e : SystemEvent) : Decidable (GuestExit b s e) :=
  match e with
  | .exception _ => inferInstanceAs (Decidable (_ ∧ _ ∧ (_ → CallKept _ _ _ _ _ _ _)))
  | .timer _ | .deliver _ | .unblock _ | .lines _ | .injection | .usbDevice .. | .guest .. =>
    isTrue trivial

/-- Two VMs on a PIC32MZ with seven shadow sets, and the inter-VM and UART drivers. -/
def pingPongBuild : Build where
  platform := .pic32mz
  quantum := 1
  interval := 1000
  prid := 0
  memory := ⟨fun _ => 0x80004000, fun pa => 0x8000 ≤ pa ∧ pa < 0x18000⟩
  drivers := ⟨driversInitialization ⟨false, false⟩ [.uart, .interVmComm], pingPong⟩

def sevenSets : Power :=
  { Power.cleared with cpu := { Cpu.cleared with srsctl := (7 : UInt32) <<< 26 } }

def pingPongStart : System where
  redirect := { redirectStart sevenSets pingPong (fun _ => 0) (fun _ => 0) with
    interruptMappingList := [] }
  past := 0
  objects := .cleared

theorem pingPong_boots : Boots pingPongBuild sevenSets pingPong pingPongStart where
  allocations := by decide
  sets := by decide
  machines := rfl
  devices := virtualIoInit_eq .pic32mz sevenSets pingPong (by decide)

/-- No USB device and no frames. -/
def quietDevices : Devices where
  usb := usbStart
  readings := ⟨0, 0, false, false, 0, fun _ => 0, false⟩
  ethernet := ⟨fun _ => ⟨0, 0, fun _ => 0⟩, fun _ => ⟨0, fun _ => 0, 0, 0, fun _ => 0⟩, 0, 0, []⟩

def hypercallTrap (badinstr : UInt32) : Trap where
  cause := GUEST_EXIT_EXCEPTION <<< 2
  guestctl0ext := GUEST_HYPERCALL <<< 2
  badinstr := badinstr
  devices := quietDevices
  answers := ⟨fun _ => 0, fun _ => 0, 0, 0, 0, 0, true, 0⟩

/-- The first VM runs and asks whether the VM 2 is up; the second VM runs and sends the first one 64
bytes; the first one runs and receives them. -/
def pingPongEvents : List SystemEvent :=
  [.timer 0, .guest (fun _ _ => 0) 0x9d001010 (fun r => if r = REG_A0 then 2 else 0),
    .exception (hypercallTrap 0x42001828), .timer 1000,
    .guest (fun _ _ => 0) 0x9d001020
      (fun r => if r = REG_A0 then 1 else if r = REG_A1 then 0x80000100 else 64),
    .exception (hypercallTrap 0x42001028), .timer 2000,
    .guest (fun _ _ => 0) 0x9d001010 (fun _ => 0x80000200), .exception (hypercallTrap 0x42000828)]

/-- Between two events of a run the VCPU in execution is not blocked: what waits for a device runs
no code. -/
theorem blocked_not_executing (h : Boots b power vmconf s₀) (es : List SystemEvent) :
    Always (systemStep b) (fun s => ∀ v, s.hv.executing = some v → (s.hv.vcpus v).state = .running)
      s₀ es := by
  rw [always_iff]
  exact fun pre post t _ hrun => (h.reached hrun).running

theorem blocked_not_executing_pingPong :
    Always (systemStep pingPongBuild)
      (fun s => ∀ v, s.hv.executing = some v → (s.hv.vcpus v).state = .running) pingPongStart
      pingPongEvents :=
  blocked_not_executing pingPong_boots pingPongEvents

end PrplHypervisor.Drivers
