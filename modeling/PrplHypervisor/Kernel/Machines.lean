import PrplHypervisor.Kernel.Transparency

/-! The machine that the software of a VCPU sees: its PC, the guest CP0 registers that a context
switch carries over, and its general registers.  While the VCPU executes they are in the processor,
otherwise in its structure, but on PIC32MZ the general registers stay in the shadow set of the VCPU.
A call of the scheduler leaves the machine of every VCPU as it is. -/

namespace PrplHypervisor.Kernel

open Arch Lib.Partial Lib.Words

/-- The registers of a VCPU; `cp0` are those of `restoredRegisters`, in their order. -/
structure Machine where
  pc : UInt32
  cp0 : List UInt32
  gpr : Fin 34 → UInt32

/-- The machine whose registers are in the processor. -/
def liveMachine (p : Platform) (cpu : Cpu) : Machine where
  pc := getEPC cpu
  cp0 := restoredRegisters.map fun r => mfgc0 cpu r.2.1 r.2.2
  gpr := fun j => moveFromPreviousGuestGPR p cpu j

/-- The machine whose registers are in the context of a VCPU. -/
def savedMachine (p : Platform) (cpu : Cpu) (c : VcpuContext) : Machine where
  pc := c.pc
  cp0 := restoredRegisters.map fun r => c.cp0Registers r.1
  gpr := fun j =>
    match p with
    | .pic32mz => cpu.shadowGpr c.gprshadowset j
    | .baikalT1 => c.gpr.getD (fun _ => 0) j

def machineOf (p : Platform) (hv : Hv) (v : VcpuPtr) : Machine :=
  if hv.executing = some v then liveMachine p hv.cpu
  else savedMachine p hv.cpu (hv.vcpus v).toVcpuContext

/-- The context has a place of its own for the general registers: a shadow set on PIC32MZ, a copy of
the frame on Baikal-T1. -/
def HasPlace (p : Platform) (c : VcpuContext) : Prop :=
  match p with
  | .pic32mz => c.gprshadowset ≠ 0 ∧ c.gprshadowset < 16
  | .baikalT1 => c.gpr ≠ none

/-- On PIC32MZ the processor addresses the shadow set of the context. -/
def Selects (p : Platform) (cpu : Cpu) (c : VcpuContext) : Prop :=
  match p with
  | .pic32mz => getPreviousShadowSet cpu = c.gprshadowset
  | .baikalT1 => True

variable {p : Platform} {cpu : Cpu} {c : VcpuContext} {vcpu : Vcpu}

theorem getPreviousShadowSet_set (cpu : Cpu) {shadowSet : UInt32} (h : shadowSet < 16) :
    getPreviousShadowSet (setPreviousShadowSet cpu shadowSet) = shadowSet := by
  have hfield : ∀ k < 16, (UInt32.ofNat k <<< 6 &&& SRSCTL_PSS) >>> 6 = UInt32.ofNat k := by
    decide
  have hmask : ((cpu.srsctl &&& ~~~SRSCTL_PSS) ||| (shadowSet <<< 6)) &&& SRSCTL_PSS =
      shadowSet <<< 6 &&& SRSCTL_PSS := by
    rw [← UInt32.toBitVec_inj]
    ext i hi
    simp only [UInt32.toBitVec_and, UInt32.toBitVec_or, UInt32.toBitVec_not, BitVec.getElem_and,
      BitVec.getElem_or, BitVec.getElem_not]
    cases SRSCTL_PSS.toBitVec[i] <;> simp
  have hk := hfield shadowSet.toNat (UInt32.lt_iff_toNat_lt.mp h)
  rw [UInt32.ofNat_toNat] at hk
  simp only [getPreviousShadowSet, setPreviousShadowSet, hmask, hk]

theorem machineOf_live {hv : Hv} {v : VcpuPtr} (h : hv.executing = some v) :
    machineOf p hv v = liveMachine p hv.cpu := if_pos h

theorem machineOf_saved {hv : Hv} {v : VcpuPtr} (h : hv.executing ≠ some v) :
    machineOf p hv v = savedMachine p hv.cpu (hv.vcpus v).toVcpuContext := if_neg h

/-! ### Saving and restoring -/

/-- The registers that are restored have the same index as when they are saved. -/
theorem saved_restored : ∀ r ∈ restoredRegisters, savedRegisters[r.1]? = some r.2 := by
  decide

theorem restored_find : ∀ r ∈ restoredRegisters,
    restoredRegisters.reverse.find? (fun x => x.2 = r.2) = some r := by
  decide

/-- `contextSave` stores the machine of the processor. -/
theorem savedMachine_saveContext (hplace : HasPlace p c) (hselects : Selects p cpu c) :
    savedMachine p cpu (saveContext p cpu c) = liveMachine p cpu := by
  have hcp0 : restoredRegisters.map (fun r => (saveContext p cpu c).cp0Registers r.1) =
      restoredRegisters.map fun r => mfgc0 cpu r.2.1 r.2.2 := by
    refine List.map_congr_left fun r hr => ?_
    simp only [saveContext, saved_restored r hr]
  rw [savedMachine, hcp0, liveMachine]
  congr 1
  funext j
  cases p with
  | pic32mz =>
    have hset : getPreviousShadowSet cpu = (saveContext .pic32mz cpu c).gprshadowset := hselects
    simp only [moveFromPreviousGuestGPR, hset]
  | baikalT1 =>
    obtain ⟨gpr, hgpr⟩ := Option.ne_none_iff_exists'.mp hplace
    simp only [saveContext, hgpr, Option.map_some, Option.getD_some, gprContextSave, if_pos j.isLt,
      moveFromPreviousGuestGPR]

section

variable (cpu)

@[simp] theorem shadowGpr_setGuestID (x : UInt32) : (setGuestID cpu x).shadowGpr = cpu.shadowGpr :=
  rfl

@[simp] theorem shadowGpr_setGuestMode : (setGuestMode cpu).shadowGpr = cpu.shadowGpr := rfl

@[simp] theorem srsctl_setGuestID (x : UInt32) : (setGuestID cpu x).srsctl = cpu.srsctl := rfl

@[simp] theorem srsctl_setGuestMode : (setGuestMode cpu).srsctl = cpu.srsctl := rfl

theorem foldl_mtgc0_shadow (f : Nat → UInt32) (l : List (Nat × Nat × Nat)) :
    (l.foldl (fun cpu x => mtgc0 cpu x.2.1 x.2.2 (f x.1)) cpu).shadowGpr = cpu.shadowGpr ∧
      (l.foldl (fun cpu x => mtgc0 cpu x.2.1 x.2.2 (f x.1)) cpu).srsctl = cpu.srsctl := by
  induction l generalizing cpu with
  | nil => exact ⟨rfl, rfl⟩
  | cons x l ih =>
    rw [List.foldl_cons]
    exact ih _

theorem shadowGpr_restoreCpu (p : Platform) (vcpu : Vcpu) :
    (restoreCpu p cpu vcpu).shadowGpr = cpu.shadowGpr := by
  unfold restoreCpu
  dsimp only
  cases vcpu.gpr with
  | none =>
    simp only [setEPC, setGuestCTL2, (foldl_mtgc0_shadow _ _ _).1]
    split_ifs <;> rfl
  | some gpr =>
    cases p <;>
    · simp only [gprContextRestore, setEPC, setGuestCTL2, (foldl_mtgc0_shadow _ _ _).1]
      split_ifs <;> rfl

theorem srsctl_restoreCpu (p : Platform) {vcpu : Vcpu} (h : vcpu.gprshadowset ≠ 0) :
    (restoreCpu p cpu vcpu).srsctl = (setPreviousShadowSet cpu vcpu.gprshadowset).srsctl := by
  unfold restoreCpu
  dsimp only
  rw [if_pos h]
  cases vcpu.gpr with
  | none =>
    simp only [setEPC, setGuestCTL2, (foldl_mtgc0_shadow _ _ _).2]
    rfl
  | some gpr =>
    cases p <;>
    · simp only [gprContextRestore, setEPC, setGuestCTL2, (foldl_mtgc0_shadow _ _ _).2]
      rfl

end

/-- `contextRestore` selects the shadow set of the VCPU. -/
theorem selects_restoreCpu (p : Platform) (cpu : Cpu) {vcpu : Vcpu}
    (hplace : HasPlace p vcpu.toVcpuContext) :
    Selects p (restoreCpu p cpu vcpu) vcpu.toVcpuContext := by
  cases p with
  | baikalT1 => trivial
  | pic32mz =>
    obtain ⟨h0, h16⟩ : vcpu.gprshadowset ≠ 0 ∧ vcpu.gprshadowset < 16 := hplace
    have hset := getPreviousShadowSet_set cpu h16
    rw [getPreviousShadowSet, ← srsctl_restoreCpu cpu .pic32mz h0] at hset
    exact hset

/-- `contextRestore` loads the machine of the VCPU. -/
theorem liveMachine_restoreCpu (hplace : HasPlace p vcpu.toVcpuContext) :
    liveMachine p (restoreCpu p cpu vcpu) = savedMachine p cpu vcpu.toVcpuContext := by
  have hcp0 : restoredRegisters.map (fun r => mfgc0 (restoreCpu p cpu vcpu) r.2.1 r.2.2) =
      restoredRegisters.map fun r => vcpu.cp0Registers r.1 := by
    refine List.map_congr_left fun r hr => ?_
    rw [restoreCpu_mfgc0, restored_find r hr]
  rw [liveMachine, hcp0, restoreCpu_epc, savedMachine]
  congr 1
  funext j
  have hselects := selects_restoreCpu p cpu hplace
  cases p with
  | pic32mz =>
    have hset : getPreviousShadowSet (restoreCpu .pic32mz cpu vcpu) = vcpu.gprshadowset := hselects
    simp only [moveFromPreviousGuestGPR, hset, shadowGpr_restoreCpu]
  | baikalT1 =>
    obtain ⟨gpr, hgpr⟩ := Option.ne_none_iff_exists'.mp hplace
    simp only [moveFromPreviousGuestGPR, restoreCpu_gprFrame cpu vcpu j.isLt, hgpr,
      Option.getD_some]

/-- The machine of a context depends on the processor by the shadow sets alone, and not on the
virtual interrupts. -/
theorem savedMachine_congr {cpu' : Cpu} {c' : VcpuContext}
    (hshadow : cpu'.shadowGpr = cpu.shadowGpr)
    (hset : c'.gprshadowset = c.gprshadowset) (hcp0 : c'.cp0Registers = c.cp0Registers)
    (hpc : c'.pc = c.pc) (hgpr : c'.gpr = c.gpr) :
    savedMachine p cpu' c' = savedMachine p cpu c := by
  simp only [savedMachine, hshadow, hset, hcp0, hpc, hgpr]

/-! ### Switches -/

/-- The VCPUs below `n` have places of their own for their registers, and the one in execution,
which was started, is one of them and has its own selected. -/
structure Separate (p : Platform) (n : Nat) (hv : Hv) : Prop where
  place : ∀ v < n, HasPlace p (hv.vcpus v).toVcpuContext
  apart : p = .pic32mz → ∀ v < n, ∀ w < n,
    (hv.vcpus v).gprshadowset = (hv.vcpus w).gprshadowset → v = w
  executing : ∀ v, hv.executing = some v →
    v < n ∧ (hv.vcpus v).init = 0 ∧ Selects p hv.cpu (hv.vcpus v).toVcpuContext

variable {hv hv' : Hv} {n : Nat} {v : VcpuPtr}

/-- On PIC32MZ the registers of the other VCPUs are in other shadow sets than the selected one. -/
theorem Separate.set_ne (h : Separate .pic32mz n hv) {w : VcpuPtr} (hexec : hv.executing = some w)
    (hv' : v < n) (hne : w ≠ v) : (hv.vcpus v).gprshadowset ≠ getPreviousShadowSet hv.cpu := by
  obtain ⟨hlt, -, hselects⟩ := h.executing w hexec
  have hselected : getPreviousShadowSet hv.cpu = (hv.vcpus w).gprshadowset := hselects
  intro heq
  exact hne (h.apart rfl w hlt v hv' (heq.trans hselected).symm)

theorem Selects.congr {cpu' : Cpu} {c' : VcpuContext} (h : Selects p cpu c)
    (hsrsctl : cpu'.srsctl = cpu.srsctl) (hset : c'.gprshadowset = c.gprshadowset) :
    Selects p cpu' c' := by
  cases p with
  | baikalT1 => trivial
  | pic32mz =>
    show getPreviousShadowSet cpu' = c'.gprshadowset
    rw [getPreviousShadowSet, hsrsctl, hset]
    exact h

/-- The places of the registers are the same. -/
structure SamePlaces (before after : Hv) : Prop where
  gprshadowset : ∀ v, (after.vcpus v).gprshadowset = (before.vcpus v).gprshadowset
  gpr : ∀ v, (after.vcpus v).gpr = none ↔ (before.vcpus v).gpr = none

theorem SamePlaces.hasPlace (h : SamePlaces hv hv')
    (hplace : HasPlace p (hv.vcpus v).toVcpuContext) : HasPlace p (hv'.vcpus v).toVcpuContext := by
  cases p with
  | pic32mz =>
    show (hv'.vcpus v).gprshadowset ≠ 0 ∧ (hv'.vcpus v).gprshadowset < 16
    rw [h.gprshadowset v]
    exact hplace
  | baikalT1 => exact fun hnone => hplace ((h.gpr v).mp hnone)

theorem contextSave_samePlaces (p : Platform) (hv : Hv) : SamePlaces hv (contextSave p hv) := by
  unfold contextSave
  cases hv.executing with
  | none => exact ⟨fun _ => rfl, fun _ => Iff.rfl⟩
  | some w =>
    dsimp only
    split_ifs
    · refine ⟨fun v => ?_, fun v => ?_⟩
      · rw [Hv.setVcpu_apply]
        split_ifs with hvw
        · rw [hvw]
          rfl
        · rfl
      · rw [Hv.setVcpu_apply]
        split_ifs with hvw
        · rw [hvw]
          exact Option.map_eq_none_iff
        · rfl
    · exact ⟨fun _ => rfl, fun _ => Iff.rfl⟩

theorem contextRestore_samePlaces (p : Platform) (hv : Hv) :
    SamePlaces hv (contextRestore p hv) := by
  unfold contextRestore
  cases hv.executing with
  | none => exact ⟨fun _ => rfl, fun _ => Iff.rfl⟩
  | some w =>
    refine ⟨fun v => ?_, fun v => ?_⟩ <;>
    · dsimp only
      rw [Hv.setVcpu_apply]
      split_ifs with hvw
      · rw [hvw]
      · rfl

/-- After `contextSave` every machine is in its context. -/
theorem savedMachine_contextSave (h : Separate p n hv) (hv' : v < n) :
    savedMachine p hv.cpu ((contextSave p hv).vcpus v).toVcpuContext = machineOf p hv v := by
  unfold machineOf
  split_ifs with hexec
  · obtain ⟨-, hinit, hselects⟩ := h.executing v hexec
    rw [contextSave_of_init hexec hinit, Hv.setVcpu_self]
    exact savedMachine_saveContext (h.place v hv') hselects
  · rw [contextSave_of_ne hexec]

/-- `contextRestore` leaves every machine as it was in its context. -/
theorem machineOf_contextRestore (hplace : HasPlace p (hv.vcpus v).toVcpuContext) :
    machineOf p (contextRestore p hv) v = savedMachine p hv.cpu (hv.vcpus v).toVcpuContext := by
  unfold machineOf
  rw [contextRestore_executing]
  cases hexec : hv.executing with
  | none =>
    rw [if_neg (by simp)]
    simp only [contextRestore, hexec]
    exact savedMachine_congr rfl rfl rfl rfl rfl
  | some w =>
    simp only [contextRestore, hexec, Option.some.injEq]
    split_ifs with hvw
    · subst hvw
      exact liveMachine_restoreCpu hplace
    · rw [Hv.setVcpu_of_ne _ _ (Ne.symm hvw)]
      exact savedMachine_congr (shadowGpr_restoreCpu hv.cpu p _) rfl rfl rfl rfl

/-- A switch leaves the machine of every VCPU as it is. -/
theorem machineOf_contextSwitch (h : Separate p n hv) (aux : Option VcpuPtr) (hv' : v < n) :
    machineOf p (contextSwitch p hv aux) v = machineOf p hv v := by
  unfold contextSwitch
  split_ifs with hne
  · have hplace := (contextSave_samePlaces p hv).hasPlace (h.place v hv')
    have hrestore : machineOf p (contextRestore p { contextSave p hv with executing := aux }) v =
        savedMachine p (contextSave p hv).cpu ((contextSave p hv).vcpus v).toVcpuContext :=
      machineOf_contextRestore hplace
    rw [contextSave_cpu] at hrestore
    exact hrestore.trans (savedMachine_contextSave h hv')
  · rfl

theorem Separate.contextSwitch (h : Separate p n hv) {aux : Option VcpuPtr}
    (haux : ∀ w, aux = some w → w < n) : Separate p n (contextSwitch p hv aux) := by
  by_cases hne : aux = hv.executing
  · rw [Kernel.contextSwitch, if_neg (not_not.mpr hne)]
    exact h
  have hplaces : SamePlaces hv (Kernel.contextSwitch p hv aux) := by
    rw [Kernel.contextSwitch, if_pos hne]
    have hsave := contextSave_samePlaces p hv
    have hrestore := contextRestore_samePlaces p { contextSave p hv with executing := aux }
    exact ⟨fun v => (hrestore.gprshadowset v).trans (hsave.gprshadowset v),
      fun v => (hrestore.gpr v).trans (hsave.gpr v)⟩
  constructor
  · exact fun v hv' => hplaces.hasPlace (h.place v hv')
  · intro hp v hv' w hw heq
    rw [hplaces.gprshadowset v, hplaces.gprshadowset w] at heq
    exact h.apart hp v hv' w hw heq
  · intro w hexec
    rw [contextSwitch_executing] at hexec
    have hw := haux w hexec
    subst hexec
    refine ⟨hw, ?_, ?_⟩
    · simp [Kernel.contextSwitch, hne, contextRestore]
    · have hplace := (contextSave_samePlaces p hv).hasPlace (h.place w hw)
      simp only [Kernel.contextSwitch, ne_eq, hne, not_false_eq_true, if_true, contextRestore,
        contextSave_cpu, Hv.setVcpu_self]
      exact selects_restoreCpu p hv.cpu hplace

/-! ### The scheduler -/

/-- A step keeps the registers of the VCPUs apart and the machine of each one as it is. -/
structure KeepsMachines (p : Platform) (n : Nat) (hv hv' : Hv) : Prop where
  separate : Separate p n hv'
  machine : ∀ v < n, machineOf p hv' v = machineOf p hv v

theorem KeepsMachines.trans {hv'' : Hv} (h : KeepsMachines p n hv hv')
    (h' : KeepsMachines p n hv' hv'') : KeepsMachines p n hv hv'' :=
  ⟨h'.separate, fun v hv => (h'.machine v hv).trans (h.machine v hv)⟩

/-- A step that changes neither the processor nor the VCPU in execution, and of the contexts only
the words of virtual interrupts. -/
theorem KeepsMachines.same (h : Separate p n hv) (hexec : hv'.executing = hv.executing)
    (hlive : liveMachine p hv'.cpu = liveMachine p hv.cpu)
    (hshadow : hv'.cpu.shadowGpr = hv.cpu.shadowGpr) (hsrsctl : hv'.cpu.srsctl = hv.cpu.srsctl)
    (hcontext : ∀ v, ∃ guestclt2, (hv'.vcpus v).toVcpuContext =
      { (hv.vcpus v).toVcpuContext with guestclt2 := guestclt2 }) :
    KeepsMachines p n hv hv' := by
  have hplaces : SamePlaces hv hv' := by
    constructor
    · intro v
      obtain ⟨_, heq⟩ := hcontext v
      rw [heq]
    · intro v
      obtain ⟨_, heq⟩ := hcontext v
      rw [congrArg VcpuContext.gpr heq]
  refine ⟨⟨fun v hv => hplaces.hasPlace (h.place v hv), fun hp v hv w hw heq => ?_, fun v hv => ?_⟩,
    fun v _ => ?_⟩
  · rw [hplaces.gprshadowset v, hplaces.gprshadowset w] at heq
    exact h.apart hp v hv w hw heq
  · obtain ⟨_, heq⟩ := hcontext v
    rw [heq]
    obtain ⟨hlt, hinit, hselects⟩ := h.executing v (hexec ▸ hv)
    exact ⟨hlt, hinit, hselects.congr hsrsctl rfl⟩
  · obtain ⟨_, heq⟩ := hcontext v
    unfold machineOf
    rw [hexec, hlive]
    split_ifs
    · rfl
    · rw [heq]
      exact savedMachine_congr hshadow rfl rfl rfl rfl

theorem KeepsMachines.contextSwitch (h : Separate p n hv) {aux : Option VcpuPtr}
    (haux : ∀ w, aux = some w → w < n) : KeepsMachines p n hv (contextSwitch p hv aux) :=
  ⟨h.contextSwitch haux, fun _ hv => machineOf_contextSwitch h aux hv⟩

/-- The scheduler picks VCPUs of the ready list that can run. -/
theorem Outcome.picked_running {l : List VcpuPtr} {pick : Pick} (ho : Outcome hv n l pick hv')
    (hpick : pick.vcpu = some v) : v ∈ l ∧ (hv.vcpus v).state = .running := by
  cases ho with
  | critical pre w post q split calm urgent holds =>
    obtain rfl := Option.some.inj hpick
    exact ⟨split ▸ List.mem_append_right _ List.mem_cons_self, urgent.2⟩
  | fair w q mem calm running low least holds =>
    obtain rfl := Option.some.inj hpick
    exact ⟨mem, running⟩
  | idle q calm high holds => cases hpick

/-- A call of the scheduler leaves the machines as they are, and what it lets execute can run. -/
theorem KeepsMachines.runScheduler (h : Separate p n hv) (hready : Ready hv n) (quantum : UInt32) :
    ∃ hv', runScheduler p quantum hv = .ok hv' ∧ Ready hv' n ∧ KeepsMachines p n hv hv' ∧
      ∀ v, hv'.executing = some v → (hv'.vcpus v).state = .running := by
  obtain ⟨l, hl, hholds⟩ := hready.list
  obtain ⟨hv₁, hrun₁, hready₁⟩ := hready.runScheduler p quantum
  rcases runScheduler_cases p quantum hholds (IsRotated.nodup_range hl) with
    ⟨hnot, hrun⟩ | ⟨_, pick, hv₂, ho, hrun⟩
  · obtain rfl := Except.ok.inj (hrun₁.symm.trans hrun)
    refine ⟨_, hrun, hready₁, KeepsMachines.same h rfl rfl rfl rfl fun v => ⟨_, rfl⟩, ?_⟩
    intro v hexec
    -- a blocked VCPU in execution calls for the scheduler
    show (hv.vcpus v).state = .running
    cases hstate : (hv.vcpus v).state with
    | running => rfl
    | blocked => exact absurd (Or.inr (Or.inr ⟨v, hexec, hstate⟩)) hnot
  · obtain rfl := Except.ok.inj (hrun₁.symm.trans hrun)
    have hcall : KeepsMachines p n hv hv₂ :=
      KeepsMachines.same h ho.executing_eq (by rw [ho.cpu_eq]) (by rw [ho.cpu_eq])
        (by rw [ho.cpu_eq]) fun v => ⟨_, ho.context v⟩
    have hpicked : ∀ w, pick.vcpu = some w → w < n := by
      intro w hw
      exact List.mem_range.mp (hl.mem_iff.mp (ho.picked_running hw).1)
    have hswitch := hcall.trans (KeepsMachines.contextSwitch hcall.separate hpicked)
    refine ⟨_, hrun, hready₁, hswitch.trans
      (KeepsMachines.same hswitch.separate rfl rfl rfl rfl fun v => ⟨_, rfl⟩), ?_⟩
    intro v hexec
    have hpick : pick.vcpu = some v := (contextSwitch_executing p hv₂ pick.vcpu).symm.trans hexec
    show ((Kernel.contextSwitch p hv₂ pick.vcpu).vcpus v).state = .running
    rw [congrArg VcpuSched.state ((contextSwitch_same p hv₂ pick.vcpu).sched v), ho.state v]
    exact (ho.picked_running hpick).2

/-! ### The created VCPUs -/

/-- The highest shadow set of the processor. -/
def numShadowGprs (cpu : Cpu) : UInt32 := (cpu.srsctl &&& SRSCTL_HSS) >>> 26

/-- PIC32MZ has a shadow set for each VM, Baikal-T1 has none. -/
def EnoughSets (p : Platform) (cpu : Cpu) (n : Nat) : Prop :=
  match p with
  | .pic32mz => n ≤ (numShadowGprs cpu).toNat
  | .baikalT1 => numShadowGprs cpu = 0

instance (p : Platform) (cpu : Cpu) (n : Nat) : Decidable (EnoughSets p cpu n) :=
  match p with
  | .pic32mz => inferInstanceAs (Decidable (_ ≤ _))
  | .baikalT1 => inferInstanceAs (Decidable (_ = _))

/-- The registers of the created VCPUs are where `create_vcpu` puts those of the id `v + 1`. -/
structure Placed (power : Power) (confs : List VmConf) (b : Boot) : Prop where
  srsctl : b.hv.cpu.srsctl = power.cpu.srsctl
  place : ∀ v < confs.length, ∃ vm entryPoint priority,
    (b.hv.vcpus v).toVcpuContext = (createVcpu (UInt32.ofNat (v + 1)) (numShadowGprs power.cpu)
      vm entryPoint priority).toVcpuContext

theorem foldl_tlbEntryWrite_srsctl (entries : List TlbEntry) (cpu : Cpu) :
    (entries.foldl tlbEntryWrite cpu).srsctl = cpu.srsctl := by
  induction entries generalizing cpu with
  | nil => rfl
  | cons entry entries ih =>
    rw [List.foldl_cons, ih]
    rfl

theorem Placed.createVm {power : Power} {confs : List VmConf} {b : Boot} (h : Placed power confs b)
    (hbooted : Booted b n confs) (p : Platform) (conf : VmConf) :
    Placed power (confs ++ [conf]) (createVm p b conf) := by
  constructor
  · exact (foldl_tlbEntryWrite_srsctl _ _).trans h.srsctl
  · intro v hv
    simp only [Kernel.createVm, hbooted.nextVcpu, Hv.setVcpu_apply]
    by_cases hlast : v = confs.length
    · subst hlast
      rw [if_pos rfl, foldl_tlbEntryWrite_srsctl, h.srsctl, hbooted.vcpuId]
      exact ⟨_, _, _, rfl⟩
    · rw [if_neg hlast]
      apply h.place v
      simp only [List.length_append, List.length_singleton] at hv
      omega

theorem initializeMachines_placed (p : Platform) (power : Power) (vmconf : List VmConf) :
    Placed power vmconf
      (vmconf.foldl (Kernel.createVm p) (bootStart power vmconf.length)) := by
  have hboth := foldl_prefix (f := Kernel.createVm p) (l := vmconf)
    (P := fun confs b => Booted b vmconf.length confs ∧ Placed power confs b)
    ⟨bootStart_booted power vmconf.length, rfl, fun v hv => absurd hv (Nat.not_lt_zero v)⟩
    fun confs conf b hsplit h => by
      have hlength := hsplit.length_le
      rw [List.length_append, List.length_singleton] at hlength
      exact ⟨h.1.createVm (Nat.lt_of_succ_le hlength) p conf, h.2.createVm h.1 p conf⟩
  exact hboth.2

theorem numShadowGprs_lt (cpu : Cpu) : (numShadowGprs cpu).toNat < 16 := by
  have hle : (cpu.srsctl &&& SRSCTL_HSS).toNat ≤ SRSCTL_HSS.toNat := by
    rw [UInt32.toNat_and]
    exact Nat.and_le_right
  rw [numShadowGprs, toNat_shiftRight (k := 26) rfl (by decide)]
  have hfield : SRSCTL_HSS.toNat = 15 * 2 ^ 26 := by decide
  omega

/-- A VCPU with an id up to the number of shadow sets gets the set of its id. -/
theorem gprshadowset_of_le {numShadowGprs vcpuId : UInt32} (h : vcpuId ≤ numShadowGprs) (vm : Vm)
    (entryPoint priority : UInt32) :
    (createVcpu vcpuId numShadowGprs vm entryPoint priority).gprshadowset = vcpuId := by
  have hnot : ¬vcpuId > numShadowGprs := UInt32.not_lt.mpr h
  simp only [createVcpu, if_neg hnot]

/-- The VMs are created with their registers apart. -/
theorem initializeMachines_separate {power : Power} {vmconf : List VmConf}
    (halloc : AllocationsSucceed vmconf.length) (hsets : EnoughSets p power.cpu vmconf.length) :
    Separate p vmconf.length (initializeMachines p power vmconf) := by
  have hplaced := initializeMachines_placed p power vmconf
  have hexec : ∀ v, (initializeMachines p power vmconf).executing ≠ some v := by
    intro v hv
    have hnone := (initializeMachines_booted p power vmconf).executing
    exact absurd (hnone.symm.trans hv) (Option.some_ne_none v).symm
  cases p with
  | baikalT1 =>
    refine ⟨fun v hv => ?_, fun hp => absurd hp (by decide), fun v hv => absurd hv (hexec v)⟩
    obtain ⟨vm, entryPoint, priority, heq⟩ := hplaced.place v hv
    have hnone : numShadowGprs power.cpu = 0 := hsets
    have hpos : UInt32.ofNat (v + 1) > 0 := by
      rw [gt_iff_lt, UInt32.lt_iff_toNat_lt, toNat_vcpuId halloc hv, UInt32.toNat_zero]
      exact Nat.succ_pos v
    show ((initializeMachines .baikalT1 power vmconf).vcpus v).toVcpuContext.gpr ≠ none
    rw [initializeMachines, heq, hnone]
    simp only [createVcpu, if_pos hpos]
    exact Option.some_ne_none _
  | pic32mz =>
    have hle : vmconf.length ≤ (numShadowGprs power.cpu).toNat := hsets
    have hlt := numShadowGprs_lt power.cpu
    have hset :
        ∀ v < vmconf.length, ((initializeMachines .pic32mz power vmconf).vcpus v).gprshadowset
        = UInt32.ofNat (v + 1) := by
      intro v hv
      obtain ⟨vm, entryPoint, priority, heq⟩ := hplaced.place v hv
      rw [initializeMachines, heq]
      refine gprshadowset_of_le ?_ vm entryPoint priority
      rw [UInt32.le_iff_toNat_le, toNat_vcpuId halloc hv]
      omega
    refine ⟨fun v hv => ?_, fun _ v hv w hw heq => ?_, fun v hv => absurd hv (hexec v)⟩
    · show ((initializeMachines .pic32mz power vmconf).vcpus v).gprshadowset ≠ 0 ∧ _ < 16
      rw [hset v hv, ne_eq, ← UInt32.toNat_inj, UInt32.lt_iff_toNat_lt, toNat_vcpuId halloc hv]
      exact ⟨Nat.succ_ne_zero v, by
        show v + 1 < 16
        omega⟩
    · rw [hset v hv, hset w hw, ← UInt32.toNat_inj, toNat_vcpuId halloc hv,
        toNat_vcpuId halloc hw] at heq
      exact Nat.succ.inj heq

end PrplHypervisor.Kernel
