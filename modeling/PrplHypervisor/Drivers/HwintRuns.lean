import PrplHypervisor.Arch.Hwint
import PrplHypervisor.Drivers.Exits

/-! The hypervisor on Baikal-T1, where the processor takes an interrupt or an exception through the
stub of its number and `vector_hwint`, and `__interrupt_handler` selects the function by the number
that it finds in `a0`.  The runs of the processor are those of the hypervisor alone, and its
registers are those of the VCPU in execution. -/

namespace PrplHypervisor.Drivers

open Arch Kernel Lib.Mips Lib.Runs

/-- The functions in the table. -/
inductive TableFunction
  | generalExceptionHandler
  | timerInterruptHandler
  deriving DecidableEq, Repr

/-- `interrupt_handlers` once `start_timer` has registered the handler of the timer.  No driver of
Baikal-T1 but the test of its UART registers another one. -/
def interruptHandlers : Arch.Handlers TableFunction :=
  (registerInterrupt .baikalT1 ⟨some .timerInterruptHandler, 4⟩
    (initialHandlers .generalExceptionHandler .baikalT1)).2

/-- What the processor has in its registers when it is interrupted, and what the devices answer. -/
structure Signals where
  now : UInt32
  trap : Trap

/-- The event that a function of the table serves. -/
def TableFunction.event (i : Signals) : TableFunction → SystemEvent
  | .generalExceptionHandler => .exception i.trap
  | .timerInterruptHandler => .timer i.now

/-- `__interrupt_handler`.  An interrupt without a function in the table is only warned of. -/
def interruptHandlerStep (b : Build) (i : Signals) (number : UInt32) (s : System) : Option System :=
  match interruptHandler interruptHandlers number with
  | some f => systemStep b s (f.event i)
  | none => some s

/-- The words of a frame, or the registers of the processor, are those of the VCPU in execution.
The first word of the frame is not used. -/
def LiveWords (hv : Hv) (words : Nat → UInt32) : Prop :=
  hv.executing ≠ none → ∀ j, 0 < j → j < 34 → words j = hv.cpu.gprFrame j

/-- The functions of the table and the warning as they are compiled, each from its call to its
return, and the addresses that `boot.S` names.  A function does to the frame what it does to the
guest's registers in the source, and keeps the stack pointer.  (The calling convention would let it
use the first four words of the frame, where it finds `at`, `v0` and `v1`, for its own
arguments.) -/
structure Compiled (b : Build) where
  gp : UInt32
  handler : UInt32
  link : Nat → UInt32
  body : TableFunction → Signals → System → Lib.Mips.Machine → Option Lib.Mips.Machine
  warning : Lib.Mips.Machine → Option Lib.Mips.Machine
  body_returns : ∀ {f i s t c}, systemStep b s (f.event i) = some t → c.get .sp = frameBase →
    LiveWords s.hv (frameWord c.mem) →
    ∃ c', body f i s c = some c' ∧ c'.get .sp = frameBase ∧ LiveWords t.hv (frameWord c'.mem)
  warning_returns : ∀ {c}, c.get .sp = frameBase → ∃ c', warning c = some c' ∧
    c'.get .sp = frameBase ∧ ∀ j, 0 < j → j < 34 → frameWord c'.mem j = frameWord c.mem j

variable {b : Build}

/-- `__interrupt_handler` as the processor runs it, with its argument in `a0`. -/
def Compiled.interruptHandler (h : Compiled b) (i : Signals) (s : System)
    (c : Lib.Mips.Machine) : Option Lib.Mips.Machine :=
  match Arch.interruptHandler interruptHandlers (c.get .a0) with
  | some f => h.body f i s c
  | none => h.warning c

/-- The code that an interrupt runs. -/
def Compiled.vector (h : Compiled b) (n : Fin 64) : List Instr :=
  vectorHwint (UInt32.ofNat n) h.gp h.handler

/-- The processor at the call of `__interrupt_handler`. -/
def Compiled.calling (h : Compiled b) (c : Lib.Mips.Machine) : State :=
  ⟨c, .call h.handler 50, .call h.handler 50⟩

/-- Guest code, and an interrupt of some number. -/
inductive BareEvent
  | guest (cp0 : Nat → Nat → UInt32) (pc : UInt32) (gpr : Nat → UInt32)
  | interrupt (n : Fin 64) (i : Signals)

/-- What the hypervisor serves: exceptions have the number 0, the timer has the number 4. -/
def BareEvent.served : BareEvent → Option SystemEvent
  | .guest cp0 pc gpr => some (.guest cp0 pc gpr)
  | .interrupt n i =>
    if n = 0 then some (.exception i.trap) else if n = 4 then some (.timer i.now) else none

/-- The processor, and the state of the hypervisor. -/
structure Bare where
  machine : Lib.Mips.Machine
  state : System

/-- Guest code leaves the registers as it likes.  An interrupt runs the code of its vector up to the
call of `__interrupt_handler`, which serves the number that is in `a0` then, and from the call to
`eret`. -/
inductive BareStep (h : Compiled b) : Bare → BareEvent → Bare → Prop
  | guest {m m' s t cp0 pc gpr} (hstep : systemStep b s (.guest cp0 pc gpr) = some t)
      (hleft : ∀ j, 0 < j → j < 34 → registers m' j = gpr j) :
      BareStep h ⟨m, s⟩ (.guest cp0 pc gpr) ⟨m', t⟩
  | interrupt {m c m' s t n i}
      (hcall : Reaches (h.vector n) h.link (fun _ _ => none) (.before m 0) (h.calling c))
      (hstep : interruptHandlerStep b i (c.get .a0) s = some t)
      (hreturn : Reaches (h.vector n) h.link (fun _ => h.interruptHandler i s) (h.calling c)
        ⟨m', .left, .left⟩) :
      BareStep h ⟨m, s⟩ (.interrupt n i) ⟨m', t⟩

inductive BareRun (h : Compiled b) : Bare → List BareEvent → Bare → Prop
  | nil (x : Bare) : BareRun h x [] x
  | cons {x y z e es} (hstep : BareStep h x e y) (hrun : BareRun h y es z) :
      BareRun h x (e :: es) z

variable {h : Compiled b} {s t : System} {e : BareEvent} {i : Signals}
  {m m' c : Lib.Mips.Machine} {x y : Bare} {es : List BareEvent} {n : Fin 64}

/-! ### One step -/

/-- The stub of each number passes one that selects the function of its event. -/
theorem interruptHandler_hwintArgument (n : Fin 64) :
    Arch.interruptHandler interruptHandlers (hwintArgument (UInt32.ofNat n)) =
      if n = 0 then some .generalExceptionHandler
      else if n = 4 then some .timerInterruptHandler else none := by
  decide +revert

/-- What the hypervisor does on an interrupt is what it does on the event that this serves. -/
theorem interruptHandlerStep_hwintArgument (n : Fin 64) (i : Signals) (s : System) :
    interruptHandlerStep b i (hwintArgument (UInt32.ofNat n)) s =
      run (systemStep b) s (BareEvent.interrupt n i).served.toList := by
  have hrun : ∀ e : SystemEvent, run (systemStep b) s [e] = systemStep b s e :=
    fun e => Option.bind_fun_some _
  simp only [interruptHandlerStep, BareEvent.served, interruptHandler_hwintArgument]
  split_ifs
  · exact (hrun (.exception i.trap)).symm
  · exact (hrun (.timer i.now)).symm
  · rfl

theorem Compiled.interruptHandler_returns (h : Compiled b)
    (hstep : interruptHandlerStep b i (c.get .a0) s = some t) (hsp : c.get .sp = frameBase)
    (hlive : LiveWords s.hv (frameWord c.mem)) :
    ∃ c', h.interruptHandler i s c = some c' ∧ c'.get .sp = frameBase ∧
      LiveWords t.hv (frameWord c'.mem) := by
  unfold Compiled.interruptHandler
  unfold interruptHandlerStep at hstep
  cases hfunction : Arch.interruptHandler interruptHandlers (c.get .a0) with
  | some f =>
    rw [hfunction] at hstep
    exact h.body_returns hstep hsp hlive
  | none =>
    rw [hfunction] at hstep
    obtain rfl := Option.some.inj hstep
    obtain ⟨c', hwarning, hsp', hsame⟩ := h.warning_returns hsp
    refine ⟨c', hwarning, hsp', fun hexec j hpos hj => ?_⟩
    rw [hsame j hpos hj]
    exact hlive hexec j hpos hj

/-- The call of `__interrupt_handler`, with the number of the stub and the registers of the
guest. -/
theorem Compiled.reaches_calling (h : Compiled b) (n : Fin 64)
    (hlive : LiveWords s.hv (registers m)) :
    ∃ c, Reaches (h.vector n) h.link (fun _ _ => none) (.before m 0) (h.calling c) ∧
      c.get .a0 = hwintArgument (UInt32.ofNat n) ∧ c.get .sp = frameBase ∧
      LiveWords s.hv (frameWord c.mem) := by
  obtain ⟨c, hcall, hnumber, hsp, hmem⟩ := reaches_call_hwint (UInt32.ofNat n) h.gp h.handler h.link
    (fun _ _ => none) m
  refine ⟨c, hcall, hnumber, hsp, fun hexec j hpos hj => ?_⟩
  rw [hmem, frameWord_writes m _ hpos hj]
  exact hlive hexec j hpos hj

/-- From the call, an interrupt is served and returned from, with the registers of the VCPU that
executes then. -/
theorem Compiled.reaches_left (h : Compiled b) (n : Fin 64)
    (hstep : interruptHandlerStep b i (c.get .a0) s = some t) (hsp : c.get .sp = frameBase)
    (hlive : LiveWords s.hv (frameWord c.mem)) :
    ∃ m', Reaches (h.vector n) h.link (fun _ => h.interruptHandler i s) (h.calling c)
        ⟨m', .left, .left⟩ ∧ LiveWords t.hv (registers m') := by
  obtain ⟨c', hfunction, hsp', hframe⟩ := h.interruptHandler_returns hstep hsp hlive
  obtain ⟨m', hleft, hregisters, -⟩ := reaches_left_hwint (UInt32.ofNat n) h.gp h.handler h.link
    (fun _ => h.interruptHandler i s) hsp'
  refine ⟨m', (reaches_return hfunction).trans hleft, fun hexec j hpos hj => ?_⟩
  rw [hregisters j hpos hj]
  exact hframe hexec j hpos hj

theorem live_guest (hb : b.platform = .baikalT1) {cp0 : Nat → Nat → UInt32} {pc : UInt32}
    {gpr : Nat → UInt32} (hstep : systemStep b s (.guest cp0 pc gpr) = some t)
    (hleft : ∀ j, 0 < j → j < 34 → registers m' j = gpr j) : LiveWords t.hv (registers m') := by
  obtain rfl := Option.some.inj hstep
  intro hexec j hpos hj
  rw [hleft j hpos hj]
  show gpr j = (guestRuns b.platform s.hv cp0 pc gpr).cpu.gprFrame j
  unfold guestRuns
  cases hnone : s.hv.executing with
  | none =>
    refine absurd ?_ hexec
    show (guestRuns b.platform s.hv cp0 pc gpr).executing = none
    simp only [guestRuns, hnone]
  | some v => rw [hb]; rfl

/-- A step of the processor is one of the hypervisor, or none for an interrupt that is only warned
of. -/
theorem BareStep.live (hb : b.platform = .baikalT1) (hstep : BareStep h x e y)
    (hlive : LiveWords x.state.hv (registers x.machine)) :
    run (systemStep b) x.state e.served.toList = some y.state ∧
      LiveWords y.state.hv (registers y.machine) := by
  cases hstep with
  | guest hstep hleft => exact ⟨run_cons_of_step hstep rfl, live_guest hb hstep hleft⟩
  | @interrupt m c m' s t n i hcall hstep hreturn =>
    obtain ⟨c₁, hcalling, hnumber, hsp, hframe⟩ := h.reaches_calling n hlive
    obtain rfl : c = c₁ := congrArg State.machine (hcall.stuck_unique hcalling rfl rfl)
    obtain ⟨m₁, hleft, hafter⟩ := h.reaches_left n hstep hsp hframe
    rw [hnumber, interruptHandlerStep_hwintArgument] at hstep
    exact ⟨hstep, hreturn.left_unique hleft ▸ hafter⟩

/-- A processor with the registers that a guest has written. -/
def machineWith (m : Lib.Mips.Machine) (gpr : Nat → UInt32) : Lib.Mips.Machine :=
  { m with
    gpr := fun r => gpr r
    hi := gpr 32
    lo := gpr 33 }

theorem registers_machineWith (m : Lib.Mips.Machine) (gpr : Nat → UInt32) {j : Nat} (hpos : 0 < j)
    (hj : j < 34) : registers (machineWith m gpr) j = gpr j := by
  unfold registers
  split
  case isTrue hlt =>
    rw [Machine.get_of_ne _ (Fin.ne_of_val_ne hpos.ne')]
    rfl
  case isFalse hge =>
    obtain rfl | rfl : j = 32 ∨ j = 33 := by omega
    all_goals rfl

/-- The processor can do what the hypervisor does. -/
theorem BareStep.exists (hb : b.platform = .baikalT1) (h : Compiled b) (e : BareEvent)
    (hrun : run (systemStep b) s e.served.toList = some t) (hlive : LiveWords s.hv (registers m)) :
    ∃ m', BareStep h ⟨m, s⟩ e ⟨m', t⟩ ∧ LiveWords t.hv (registers m') := by
  cases e with
  | guest cp0 pc gpr =>
    have hleft : ∀ j, 0 < j → j < 34 → registers (machineWith m gpr) j = gpr j :=
      fun j => registers_machineWith m gpr
    exact ⟨machineWith m gpr, .guest hrun hleft, live_guest hb hrun hleft⟩
  | interrupt n i =>
    obtain ⟨c, hcalling, hnumber, hsp, hframe⟩ := h.reaches_calling n hlive
    rw [← interruptHandlerStep_hwintArgument, ← hnumber] at hrun
    obtain ⟨m', hleft, hafter⟩ := h.reaches_left n hrun hsp hframe
    exact ⟨m', .interrupt hcalling hrun hleft, hafter⟩

/-! ### Runs -/

/-- The events that the hypervisor serves in a run of the processor. -/
def servedEvents (es : List BareEvent) : List SystemEvent := es.flatMap fun e => e.served.toList

theorem servedEvents_cons (e : BareEvent) (es : List BareEvent) :
    servedEvents (e :: es) = e.served.toList ++ servedEvents es := List.flatMap_cons

theorem BareRun.live (hb : b.platform = .baikalT1) (hrun : BareRun h x es y)
    (hlive : LiveWords x.state.hv (registers x.machine)) :
    run (systemStep b) x.state (servedEvents es) = some y.state ∧
      LiveWords y.state.hv (registers y.machine) := by
  induction hrun with
  | nil x => exact ⟨rfl, hlive⟩
  | cons hstep _ ih =>
    obtain ⟨hfirst, hnext⟩ := hstep.live hb hlive
    obtain ⟨hrest, hlast⟩ := ih hnext
    refine ⟨?_, hlast⟩
    rw [servedEvents_cons, run_append, hfirst]
    exact hrest

theorem BareRun.exists (hb : b.platform = .baikalT1) (h : Compiled b)
    (hlive : LiveWords s.hv (registers m))
    (hrun : run (systemStep b) s (servedEvents es) = some t) :
    ∃ m', BareRun h ⟨m, s⟩ es ⟨m', t⟩ := by
  induction es generalizing s m with
  | nil =>
    obtain rfl := Option.some.inj hrun
    exact ⟨m, .nil _⟩
  | cons e es ih =>
    rw [servedEvents_cons, run_append] at hrun
    obtain ⟨u, hu, hrest⟩ := Option.bind_eq_some_iff.mp hrun
    obtain ⟨m₁, hfirst, hnext⟩ := BareStep.exists hb h e hu hlive
    obtain ⟨m', hlast⟩ := ih hnext hrest
    exact ⟨m', .cons hfirst hlast⟩

variable {power : Power} {vmconf : List VmConf} {s₀ : System}

/-- The runs of the processor are those of the hypervisor on the exceptions and the timer ticks that
the numbers of the interrupts stand for, and in each of them the processor has the registers of the
VCPU in execution. -/
theorem hwint_refines (hboots : Boots b power vmconf s₀) (hb : b.platform = .baikalT1)
    (h : Compiled b) (m₀ : Lib.Mips.Machine) (es : List BareEvent) (t : System) :
    ((∃ m, BareRun h ⟨m₀, s₀⟩ es ⟨m, t⟩) ↔
        run (systemStep b) s₀ (servedEvents es) = some t) ∧
      ∀ m, BareRun h ⟨m₀, s₀⟩ es ⟨m, t⟩ → ∀ v, t.hv.executing = some v → ∀ j : Fin 34, j ≠ 0 →
        registers m j = (machineOf b.platform t.hv v).gpr j := by
  have hstart : LiveWords s₀.hv (registers m₀) := by
    intro hexec
    rw [hboots.machines] at hexec
    exact absurd (initializeMachines_booted b.platform power vmconf).executing hexec
  refine ⟨⟨fun ⟨m, hrun⟩ => (hrun.live hb hstart).1, BareRun.exists hb h hstart⟩, ?_⟩
  intro m hrun v hexec j hj
  have hlive := (hrun.live hb hstart).2
  rw [machineOf_live hexec, hb]
  exact hlive (hexec ▸ Option.some_ne_none v) j (Fin.pos_of_ne_zero hj) j.isLt

/-! ### A build -/

/-- Two VMs on Baikal-T1, with the inter-VM and UART drivers. -/
def baikalBuild : Build where
  platform := .baikalT1
  quantum := 1
  interval := 1000
  prid := 0
  memory := pingPongBuild.memory
  drivers := ⟨driversInitialization ⟨false, false⟩ [.uart, .interVmComm], pingPong⟩

def baikalStart : System where
  redirect := ⟨initializeMachines .baikalT1 .cleared pingPong, fun _ => 0, fun _ => 0, []⟩
  past := 0
  objects := .cleared

theorem baikal_boots : Boots baikalBuild .cleared pingPong baikalStart where
  allocations := by decide
  sets := by decide
  machines := rfl
  devices := virtualIoInit_eq .baikalT1 .cleared pingPong (by decide)

/-- The frame with other registers. -/
def withFrame (gpr : Nat → UInt32) (mem : UInt32 → UInt32) (a : UInt32) : UInt32 :=
  if frameBase < a ∧ a < stackEnd then gpr ((a - frameBase).toNat / 4) else mem a

theorem frameWord_withFrame (gpr : Nat → UInt32) (mem : UInt32 → UInt32) {j : Nat} (hpos : 0 < j)
    (hj : j < 34) : frameWord (withFrame gpr mem) j = gpr j := by
  have hplace : ∀ j < 34, 0 < j → (frameBase < frameBase + UInt32.ofNat (4 * j) ∧
      frameBase + UInt32.ofNat (4 * j) < stackEnd) ∧
      (frameBase + UInt32.ofNat (4 * j) - frameBase).toNat / 4 = j := by
    decide
  obtain ⟨hinside, hindex⟩ := hplace j hj hpos
  rw [frameWord, withFrame, if_pos hinside, hindex]

/-- Functions that do to the frame what the hypervisor does. -/
def baikalCompiled : Compiled baikalBuild where
  gp := 0x80009000
  handler := 0x80004000
  link i := 0x80003000 + UInt32.ofNat (4 * i)
  body f i s c :=
    (systemStep baikalBuild s (f.event i)).map fun t =>
      { c with mem := withFrame t.hv.cpu.gprFrame c.mem }
  warning c := some c
  body_returns := by
    intro f i s t c hstep hsp _
    refine ⟨{ c with mem := withFrame t.hv.cpu.gprFrame c.mem }, by rw [hstep]; rfl, hsp, ?_⟩
    exact fun _ j hpos hj => frameWord_withFrame _ _ hpos hj
  warning_returns := fun hsp => ⟨_, rfl, hsp, fun _ _ _ => rfl⟩

def zeroMachine : Lib.Mips.Machine := ⟨fun _ => 0, 0, 0, fun _ => 0, fun _ => 0⟩

/-- The first VM runs, asks whether the VM 2 is up, and is interrupted by a line that no driver
serves and by the tick that starts the second one, which runs too. -/
def twoTicks : List BareEvent :=
  [.interrupt 4 ⟨0, hypercallTrap 0⟩,
    .guest (fun _ _ => 0) 0x80001010 (fun r => if r = REG_A0 then 2 else UInt32.ofNat (r + 7)),
    .interrupt 0 ⟨0, hypercallTrap 0x42001828⟩, .interrupt 39 ⟨0, hypercallTrap 0⟩,
    .interrupt 4 ⟨1000, hypercallTrap 0⟩,
    .guest (fun _ _ => 0) 0x80001020 (fun r => UInt32.ofNat (2 * r)),
    .interrupt 4 ⟨2000, hypercallTrap 0⟩]

theorem hwint_refines_twoTicks : ∃ t m,
    BareRun baikalCompiled ⟨zeroMachine, baikalStart⟩ twoTicks ⟨m, t⟩ ∧
      t.hv.executing = some 0 ∧
      ∀ j : Fin 34, j ≠ 0 → registers m j = (machineOf .baikalT1 t.hv 0).gpr j := by
  have hruns : (run (systemStep baikalBuild) baikalStart (servedEvents twoTicks)).map
      (fun t => t.hv.executing) = some (some 0) := by
    decide +kernel
  obtain ⟨t, hrun, hexec⟩ := Option.map_eq_some_iff.mp hruns
  have hrefines := hwint_refines baikal_boots rfl baikalCompiled zeroMachine twoTicks t
  obtain ⟨m, hbare⟩ := hrefines.1.mpr hrun
  exact ⟨t, m, hbare, hexec, hrefines.2 m hbare 0 hexec⟩

end PrplHypervisor.Drivers
