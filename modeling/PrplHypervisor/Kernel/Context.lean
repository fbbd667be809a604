import PrplHypervisor.Kernel.State

/-! The context switch (`arch/mips/common/vcpu.c`).  It saves the registers of the executing VCPU
in its structure and loads those of the next one; the scheduler's fields, the VM and the message
ring of every VCPU stay as they are. -/

namespace PrplHypervisor.Kernel

open Arch

def GUEST_TIMER_INT : Platform → UInt32
  | .pic32mz => 1
  | .baikalT1 => 0x20

def GUEST_INTERVM_INT : UInt32 := 2

/-- The guest CP0 registers, as register and select, in the order of `cp0_registers`. -/
def savedRegisters : List (Nat × Nat) :=
  [(4, 0), (6, 0), (8, 0), (11, 0), (12, 0), (12, 1), (12, 2), (12, 3), (13, 0), (14, 0), (14, 2),
    (15, 1), (16, 0), (17, 0), (16, 3), (30, 0)]

/-- The guest CP0 registers that `contextRestore` writes, with their index in `cp0_registers`. -/
def restoredRegisters : List (Nat × Nat × Nat) :=
  [(0, 4, 0), (1, 6, 0), (2, 8, 0), (4, 12, 0), (5, 12, 1), (6, 12, 2), (7, 12, 3), (8, 13, 0),
    (9, 14, 0), (10, 14, 2), (11, 15, 1), (12, 16, 0), (13, 17, 0), (14, 16, 3), (15, 30, 0)]

/-- What `contextSave` stores for an initialized VCPU. -/
def saveContext (p : Platform) (cpu : Cpu) (c : VcpuContext) : VcpuContext :=
  { c with
    cp0Registers := fun i =>
      match savedRegisters[i]? with
      | some (reg, sel) => mfgc0 cpu reg sel
      | none => c.cp0Registers i
    guestclt2 := c.guestclt2 ||| getGuestCTL2 cpu
    pc := getEPC cpu
    gpr := c.gpr.map (gprContextSave p cpu) }

/-- `contextSave`: nothing is executing, or the executing VCPU was never started, or its context
is stored. -/
def contextSave (p : Platform) (hv : Hv) : Hv :=
  match hv.executing with
  | none => hv
  | some v =>
    let vcputosave := hv.vcpus v
    if vcputosave.init = 0 then
      hv.setVcpu v { vcputosave with
        toVcpuContext := saveContext p hv.cpu vcputosave.toVcpuContext }
    else hv

def configIdleCpu (cpu : Cpu) (cpuIdle : UInt32) : Cpu :=
  setEPC (clearGuestMode (setGuestID cpu 0)) cpuIdle

/-- The processor after `contextRestore` for the VCPU `vcpu`. -/
def restoreCpu (p : Platform) (cpu : Cpu) (vcpu : Vcpu) : Cpu :=
  let cpu :=
    if vcpu.gprshadowset ≠ 0 then
      setLowestGShadow (setPreviousShadowSet cpu vcpu.gprshadowset) vcpu.gprshadowset
    else cpu
  let cpu := setGuestMode (setGuestID cpu vcpu.id)
  let cpu := restoredRegisters.foldl
    (fun cpu r => mtgc0 cpu r.2.1 r.2.2 (vcpu.cp0Registers r.1)) cpu
  let cpu := setEPC (setGuestCTL2 cpu vcpu.guestclt2) vcpu.pc
  match vcpu.gpr with
  | some gpr => gprContextRestore p cpu gpr
  | none => cpu

/-- `contextRestore`: the VCPU is marked as initialized and its timer interrupt, which is now in
GuestCTL2, is cleared. -/
def contextRestore (p : Platform) (hv : Hv) : Hv :=
  match hv.executing with
  | none => { hv with cpu := configIdleCpu hv.cpu hv.cpuIdle }
  | some v =>
    let vcpu := hv.vcpus v
    { hv.setVcpu v { vcpu with
        init := 0
        guestclt2 := vcpu.guestclt2 &&& ~~~(GUEST_TIMER_INT p <<< GUESTCLT2_GRIPL_SHIFT) } with
      cpu := restoreCpu p hv.cpu vcpu }

/-- The switch that `run_scheduler` makes to the VCPU `aux`, or to no VCPU. -/
def contextSwitch (p : Platform) (hv : Hv) (aux : Option VcpuPtr) : Hv :=
  if aux ≠ hv.executing then contextRestore p { contextSave p hv with executing := aux } else hv

/-! ### What a context switch leaves alone -/

/-- A state change that touches only contexts, the processor and the executing VCPU. -/
structure SameKernel (before after : Hv) : Prop where
  sched : ∀ v, (after.vcpus v).toVcpuSched = (before.vcpus v).toVcpuSched
  vm : ∀ v, (after.vcpus v).vm = (before.vcpus v).vm
  messages : ∀ v, (after.vcpus v).messages = (before.vcpus v).messages
  readyList : after.readyList = before.readyList
  pending : after.pending = before.pending
  tickCount : after.tickCount = before.tickCount

theorem SameKernel.refl (hv : Hv) : SameKernel hv hv :=
  ⟨fun _ => rfl, fun _ => rfl, fun _ => rfl, rfl, rfl, rfl⟩

theorem SameKernel.trans {a b c : Hv} (hab : SameKernel a b) (hbc : SameKernel b c) :
    SameKernel a c :=
  ⟨fun v => (hbc.sched v).trans (hab.sched v), fun v => (hbc.vm v).trans (hab.vm v),
    fun v => (hbc.messages v).trans (hab.messages v), hbc.readyList.trans hab.readyList,
    hbc.pending.trans hab.pending, hbc.tickCount.trans hab.tickCount⟩

theorem SameKernel.setContext (hv : Hv) (v : VcpuPtr) (c : VcpuContext) :
    SameKernel hv (hv.setVcpu v { hv.vcpus v with toVcpuContext := c }) := by
  refine ⟨fun w => ?_, fun w => ?_, fun w => ?_, rfl, rfl, rfl⟩ <;>
  · rw [Hv.setVcpu_apply]
    split
    · subst w; rfl
    · rfl

theorem contextSave_same (p : Platform) (hv : Hv) : SameKernel hv (contextSave p hv) := by
  unfold contextSave
  cases hv.executing with
  | none => exact SameKernel.refl hv
  | some v =>
    simp only
    split
    · exact SameKernel.setContext hv v _
    · exact SameKernel.refl hv

@[simp] theorem contextSave_executing (p : Platform) (hv : Hv) :
    (contextSave p hv).executing = hv.executing := by
  unfold contextSave
  split
  · rfl
  · simp only
    split <;> rfl

@[simp] theorem contextRestore_executing (p : Platform) (hv : Hv) :
    (contextRestore p hv).executing = hv.executing := by
  unfold contextRestore
  split <;> rfl

@[simp] theorem contextSave_cpu (p : Platform) (hv : Hv) : (contextSave p hv).cpu = hv.cpu := by
  unfold contextSave
  split
  · rfl
  · dsimp only
    split_ifs <;> rfl

theorem contextSave_of_init {p : Platform} {hv : Hv} {v : VcpuPtr}
    (hexec : hv.executing = some v) (hinit : (hv.vcpus v).init = 0) :
    contextSave p hv = hv.setVcpu v { hv.vcpus v with
      toVcpuContext := saveContext p hv.cpu (hv.vcpus v).toVcpuContext } := by
  simp only [contextSave, hexec, hinit, if_true]

theorem contextSave_of_ne {p : Platform} {hv : Hv} {w : VcpuPtr} (h : hv.executing ≠ some w) :
    (contextSave p hv).vcpus w = hv.vcpus w := by
  unfold contextSave
  cases hexec : hv.executing with
  | none => rfl
  | some v =>
    dsimp only
    have hwv : w ≠ v := fun heq => h (heq ▸ hexec)
    split_ifs
    · exact Hv.setVcpu_of_ne hv _ hwv
    · rfl

theorem contextRestore_same (p : Platform) (hv : Hv) : SameKernel hv (contextRestore p hv) := by
  unfold contextRestore
  cases hv.executing with
  | none => exact ⟨fun _ => rfl, fun _ => rfl, fun _ => rfl, rfl, rfl, rfl⟩
  | some v =>
    have h := SameKernel.setContext hv v { (hv.vcpus v).toVcpuContext with
      init := 0
      guestclt2 := (hv.vcpus v).guestclt2 &&& ~~~(GUEST_TIMER_INT p <<< GUESTCLT2_GRIPL_SHIFT) }
    exact ⟨h.sched, h.vm, h.messages, h.readyList, h.pending, h.tickCount⟩

theorem contextSwitch_same (p : Platform) (hv : Hv) (aux : Option VcpuPtr) :
    SameKernel hv (contextSwitch p hv aux) := by
  unfold contextSwitch
  split
  · have hsave := contextSave_same p hv
    have hset : SameKernel hv { contextSave p hv with executing := aux } :=
      ⟨hsave.sched, hsave.vm, hsave.messages, hsave.readyList, hsave.pending, hsave.tickCount⟩
    exact hset.trans (contextRestore_same p _)
  · exact SameKernel.refl hv

@[simp] theorem contextSwitch_executing (p : Platform) (hv : Hv) (aux : Option VcpuPtr) :
    (contextSwitch p hv aux).executing = aux := by
  unfold contextSwitch
  split
  · simp
  · rename_i h
    exact (not_not.mp h).symm

end PrplHypervisor.Kernel
