import PrplHypervisor.Kernel.ReadyList

/-! What a guest sees of a context switch.  `contextSave` records sixteen guest CP0 registers, the
PC and, on Baikal-T1, the frame of the general registers; `contextRestore` writes all of them back
but Compare.  A guest that is resumed therefore finds its registers as it left them exactly when
Compare happens to have its own value. -/

namespace PrplHypervisor.Kernel

open Arch Lib.Runs

/-- The processor's registers that a guest sees are the same: those of `cp0_registers`, the PC, and
the general registers on the processor that keeps them in a frame. -/
structure SameGuest (p : Platform) (a b : Cpu) : Prop where
  cp0 : ∀ r ∈ savedRegisters, mfgc0 b r.1 r.2 = mfgc0 a r.1 r.2
  pc : getEPC b = getEPC a
  frame : p = .baikalT1 → ∀ j < 34, b.gprFrame j = a.gprFrame j

/-- The context holds what the processor had when it was saved. -/
structure SavedFrom (p : Platform) (c : VcpuContext) (cpu : Cpu) : Prop where
  cp0 : ∀ i, ∀ r ∈ savedRegisters[i]?, c.cp0Registers i = mfgc0 cpu r.1 r.2
  pc : c.pc = getEPC cpu
  frame : p = .baikalT1 → ∀ gpr ∈ c.gpr, ∀ j < 34, gpr j = cpu.gprFrame j

theorem saveContext_savedFrom (p : Platform) (cpu : Cpu) (c : VcpuContext) :
    SavedFrom p (saveContext p cpu c) cpu where
  cp0 := by
    intro i r hr
    simp only [saveContext, Option.mem_def.mp hr]
  pc := rfl
  frame := by
    rintro rfl gpr hgpr j hj
    obtain ⟨old, _, rfl⟩ := Option.mem_map.mp hgpr
    simp only [gprContextSave, if_pos hj]

theorem SavedFrom.congr {p : Platform} {c c' : VcpuContext} {cpu : Cpu} (h : SavedFrom p c cpu)
    (hcp0 : c'.cp0Registers = c.cp0Registers) (hpc : c'.pc = c.pc) (hgpr : c'.gpr = c.gpr) :
    SavedFrom p c' cpu where
  cp0 := hcp0 ▸ h.cp0
  pc := hpc.trans h.pc
  frame := hgpr ▸ h.frame

/-! ### What `contextRestore` loads -/

/-- Compare, which `contextRestore` does not write. -/
def CP0_COMPARE : Nat × Nat := (11, 0)

/-- After a list of writes, a register has the value of the last one to it. -/
theorem mfgc0_foldl (f : Nat → UInt32) (l : List (Nat × Nat × Nat)) (cpu : Cpu) (r : Nat × Nat) :
    mfgc0 (l.foldl (fun cpu x => mtgc0 cpu x.2.1 x.2.2 (f x.1)) cpu) r.1 r.2 =
      match l.reverse.find? (fun x => x.2 = r) with
      | some x => f x.1
      | none => mfgc0 cpu r.1 r.2 := by
  induction l using List.reverseRecOn with
  | nil => rfl
  | append_singleton l x ih =>
    rw [List.foldl_append, List.foldl_cons, List.foldl_nil, List.reverse_append,
      List.reverse_singleton, List.singleton_append, List.find?_cons]
    by_cases hr : x.2 = r
    · subst hr
      simp [mfgc0, mtgc0]
    · simp only [hr, decide_false]
      rw [← ih]
      simp only [mfgc0, mtgc0]
      by_cases hreg : r.1 = x.2.1
      · have hsel : r.2 ≠ x.2.2 := fun hsel => hr (Prod.ext hreg.symm hsel.symm)
        rw [hreg, Function.update_self, Function.update_of_ne hsel]
      · rw [Function.update_of_ne hreg]

/-- The two lists agree on every register but Compare. -/
theorem restored_saved : ∀ i < savedRegisters.length, ∀ r ∈ savedRegisters[i]?, r ≠ CP0_COMPARE →
    restoredRegisters.reverse.find? (fun x => x.2 = r) = some (i, r) := by
  decide

theorem restored_compare :
    restoredRegisters.reverse.find? (fun x => x.2 = CP0_COMPARE) = none := by
  decide

variable {p : Platform} {cpu left : Cpu} {vcpu : Vcpu}

section

variable (r s : Nat)

@[simp] theorem mfgc0_setEPC (x : UInt32) : mfgc0 (setEPC cpu x) r s = mfgc0 cpu r s := rfl

@[simp] theorem mfgc0_setGuestCTL2 (x : UInt32) : mfgc0 (setGuestCTL2 cpu x) r s = mfgc0 cpu r s :=
  rfl

@[simp] theorem mfgc0_setGuestMode : mfgc0 (setGuestMode cpu) r s = mfgc0 cpu r s := rfl

@[simp] theorem mfgc0_setGuestID (x : UInt32) : mfgc0 (setGuestID cpu x) r s = mfgc0 cpu r s := rfl

@[simp] theorem mfgc0_setLowestGShadow (x : UInt32) :
    mfgc0 (setLowestGShadow cpu x) r s = mfgc0 cpu r s := rfl

@[simp] theorem mfgc0_setPreviousShadowSet (x : UInt32) :
    mfgc0 (setPreviousShadowSet cpu x) r s = mfgc0 cpu r s := rfl

@[simp] theorem mfgc0_gprContextRestore (gpr : Nat → UInt32) :
    mfgc0 (gprContextRestore p cpu gpr) r s = mfgc0 cpu r s := by
  cases p <;> rfl

end

theorem restoreCpu_mfgc0 (p : Platform) (cpu : Cpu) (vcpu : Vcpu) (r : Nat × Nat) :
    mfgc0 (restoreCpu p cpu vcpu) r.1 r.2 =
      match restoredRegisters.reverse.find? (fun x => x.2 = r) with
      | some x => vcpu.cp0Registers x.1
      | none => mfgc0 cpu r.1 r.2 := by
  unfold restoreCpu
  dsimp only
  cases vcpu.gpr with
  | none =>
    simp only [mfgc0_setEPC, mfgc0_setGuestCTL2, mfgc0_foldl]
    split_ifs <;> simp
  | some gpr =>
    simp only [mfgc0_gprContextRestore, mfgc0_setEPC, mfgc0_setGuestCTL2, mfgc0_foldl]
    split_ifs <;> simp

theorem restoreCpu_epc (p : Platform) (cpu : Cpu) (vcpu : Vcpu) :
    getEPC (restoreCpu p cpu vcpu) = vcpu.pc := by
  unfold restoreCpu
  dsimp only
  cases vcpu.gpr with
  | none => rfl
  | some gpr => cases p <;> rfl

theorem foldl_mtgc0_gprFrame (f : Nat → UInt32) (l : List (Nat × Nat × Nat)) (cpu : Cpu) :
    (l.foldl (fun cpu x => mtgc0 cpu x.2.1 x.2.2 (f x.1)) cpu).gprFrame = cpu.gprFrame := by
  induction l generalizing cpu with
  | nil => rfl
  | cons x l ih =>
    rw [List.foldl_cons, ih]
    rfl

theorem restoreCpu_gprFrame (cpu : Cpu) (vcpu : Vcpu) {j : Nat} (hj : j < 34) :
    (restoreCpu .baikalT1 cpu vcpu).gprFrame j =
      match vcpu.gpr with
      | some gpr => gpr j
      | none => cpu.gprFrame j := by
  unfold restoreCpu
  dsimp only
  cases vcpu.gpr with
  | none =>
    simp only [setEPC, setGuestCTL2, foldl_mtgc0_gprFrame]
    split_ifs <;> rfl
  | some gpr => exact if_pos hj

/-- The condition on a switch to a VCPU that ran before: Compare already has the value that the VCPU
left in it, and so have the general registers if Baikal-T1 has shadow sets and gave the VCPU one. -/
structure Resumable (p : Platform) (cpu : Cpu) (c : VcpuContext) (left : Cpu) : Prop where
  compare : mfgc0 cpu 11 0 = mfgc0 left 11 0
  frame : p = .baikalT1 → c.gpr = none → ∀ j < 34, cpu.gprFrame j = left.gprFrame j

/-- `contextRestore` makes the processor the one that the VCPU left exactly when it is resumable. -/
theorem sameGuest_iff (h : SavedFrom p vcpu.toVcpuContext left) :
    SameGuest p left (restoreCpu p cpu vcpu) ↔ Resumable p cpu vcpu.toVcpuContext left := by
  constructor
  · intro hsame
    constructor
    · have hcompare := hsame.cp0 CP0_COMPARE (by decide)
      rwa [restoreCpu_mfgc0, restored_compare] at hcompare
    · rintro rfl hgpr j hj
      have hframe := hsame.frame rfl j hj
      rwa [restoreCpu_gprFrame cpu vcpu hj, hgpr] at hframe
  · intro hresume
    constructor
    · intro r hr
      obtain ⟨i, hi, hget⟩ := List.getElem_of_mem hr
      have hsaved : savedRegisters[i]? = some r := by rw [List.getElem?_eq_getElem hi, hget]
      rw [restoreCpu_mfgc0]
      by_cases hcompare : r = CP0_COMPARE
      · rw [hcompare, restored_compare]
        exact hresume.compare
      · rw [restored_saved i hi r hsaved hcompare]
        exact h.cp0 i r hsaved
    · exact (restoreCpu_epc p cpu vcpu).trans h.pc
    · rintro rfl j hj
      rw [restoreCpu_gprFrame cpu vcpu hj]
      cases hgpr : vcpu.gpr with
      | none => exact hresume.frame rfl hgpr j hj
      | some gpr => exact h.frame rfl gpr hgpr j hj

/-! ### Switches -/

variable {hv hv' : Hv} {n : Nat} {aux : Option VcpuPtr} {v w : VcpuPtr}

/-- `contextRestore` changes nothing in a context that matters for its registers. -/
theorem SavedFrom.contextRestore (h : SavedFrom p (hv.vcpus w).toVcpuContext left) :
    SavedFrom p ((contextRestore p hv).vcpus w).toVcpuContext left := by
  unfold Kernel.contextRestore
  cases hv.executing with
  | none => exact h
  | some v =>
    dsimp only
    rw [Hv.setVcpu_apply]
    split_ifs with hwv
    · subst hwv
      exact h.congr rfl rfl rfl
    · exact h

/-- What a switch to another VCPU, or to none, does to the contexts and to the processor. -/
structure Switched (p : Platform) (hv : Hv) (aux : Option VcpuPtr) (hv' : Hv) : Prop where
  saved : ∀ v, hv.executing = some v → SavedFrom p (hv'.vcpus v).toVcpuContext hv.cpu
  kept : ∀ w left, hv.executing ≠ some w → SavedFrom p (hv.vcpus w).toVcpuContext left →
    SavedFrom p (hv'.vcpus w).toVcpuContext left
  restored : ∀ w, aux = some w → hv'.cpu = restoreCpu p hv.cpu (hv.vcpus w)
  init : ∀ w, aux = some w → (hv'.vcpus w).init = 0

theorem contextSwitch_switched (hne : aux ≠ hv.executing)
    (hinit : ∀ v, hv.executing = some v → (hv.vcpus v).init = 0) :
    Switched p hv aux (contextSwitch p hv aux) := by
  rw [contextSwitch, if_pos hne]
  constructor
  · intro v hexec
    apply SavedFrom.contextRestore
    dsimp only
    rw [contextSave_of_init hexec (hinit v hexec), Hv.setVcpu_self]
    exact saveContext_savedFrom p hv.cpu _
  · intro w left hw h
    apply SavedFrom.contextRestore
    dsimp only
    rwa [contextSave_of_ne hw]
  · rintro w rfl
    simp only [contextRestore, contextSave_cpu, contextSave_of_ne hne.symm]
  · rintro w rfl
    simp only [contextRestore, Hv.setVcpu_self]

/-! ### Runs -/

/-- The hypervisor, with what the processor was when each VCPU was last switched out, and, for every
switch to a VCPU that ran before, that processor and the one after the switch. -/
structure Switching where
  hv : Hv
  left : VcpuPtr → Option Cpu
  resumed : List (Cpu × Cpu)

/-- The state after a step that ends in `hv`. -/
def Switching.next (s : Switching) (hv : Hv) : Switching :=
  if hv.executing = s.hv.executing then { s with hv := hv }
  else
    { hv := hv
      left := fun v => if s.hv.executing = some v then some s.hv.cpu else s.left v
      resumed := s.resumed ++
        (hv.executing.bind s.left).toList.map fun left => (left, hv.cpu) }

/-- A step of the kernel, or the executing guest with the registers that it has written. -/
inductive SwitchEvent
  | kernel (e : Event)
  | guest (cp0 : Nat → Nat → UInt32) (pc : UInt32) (frame : Nat → UInt32)

def guestWrites (hv : Hv) (cp0 : Nat → Nat → UInt32) (pc : UInt32) (frame : Nat → UInt32) : Hv :=
  match hv.executing with
  | none => hv
  | some _ => { hv with cpu := { hv.cpu with guestCp0 := cp0, epc := pc, gprFrame := frame } }

def switchStep (p : Platform) (quantum : UInt32) (s : Switching) : SwitchEvent → Option Switching
  | .kernel e => (step p quantum s.hv e).map s.next
  | .guest cp0 pc frame => some (s.next (guestWrites s.hv cp0 pc frame))

/-- The VCPU that a tick leaves in execution. -/
def scheduled (quantum : UInt32) (hv : Hv) : Option VcpuPtr :=
  if mustSchedule quantum hv then
    match roundRobinScheduler hv with
    | .ok (pick, _) => pick.vcpu
    | .error _ => hv.executing
  else hv.executing

/-- The condition on a step: a tick that resumes a VCPU finds it resumable. -/
def Resumes (p : Platform) (quantum : UInt32) (s : Switching) : SwitchEvent → Prop
  | .kernel .tick => ∀ w ∈ scheduled quantum s.hv, s.hv.executing ≠ some w →
      ∀ left ∈ s.left w, Resumable p s.hv.cpu (s.hv.vcpus w).toVcpuContext left
  | _ => True

/-- The contexts hold what the processor had when their VCPUs were last switched out. -/
structure Tracked (p : Platform) (n : Nat) (s : Switching) : Prop where
  ready : Ready s.hv n
  init : ∀ v, s.hv.executing = some v → (s.hv.vcpus v).init = 0
  saved : ∀ v left, s.left v = some left → s.hv.executing ≠ some v →
    SavedFrom p (s.hv.vcpus v).toVcpuContext left

/-- Every VCPU that was resumed found its registers as it had left them. -/
def Transparent (p : Platform) (s : Switching) : Prop :=
  ∀ r ∈ s.resumed, SameGuest p r.1 r.2

variable {s t : Switching} {quantum : UInt32}

theorem Switching.next_of_eq (h : hv.executing = s.hv.executing) :
    s.next hv = { s with hv := hv } := if_pos h

/-- A step that leaves the executing VCPU and the contexts of the others as they are. -/
theorem Tracked.stay (h : Tracked p n s) (hready : Ready hv n)
    (hexec : hv.executing = s.hv.executing)
    (hcontext : ∀ v, (hv.vcpus v).toVcpuContext = (s.hv.vcpus v).toVcpuContext) :
    Tracked p n (s.next hv) := by
  rw [Switching.next_of_eq hexec]
  constructor
  · exact hready
  · intro v hv'
    rw [congrArg VcpuContext.init (hcontext v)]
    exact h.init v (hexec ▸ hv')
  · intro v left hleft hne
    rw [hcontext v]
    exact h.saved v left hleft (hexec ▸ hne)

theorem transparent_stay (hexec : hv.executing = s.hv.executing) :
    Transparent p (s.next hv) ↔ Transparent p s := by
  rw [Switching.next_of_eq hexec]
  rfl

/-- A tick that switches to `aux`. -/
theorem Tracked.switch (h : Tracked p n s) (hne : hv.executing ≠ s.hv.executing)
    (hready : Ready hv n) (hsw : Switched p s.hv hv.executing hv) :
    Tracked p n (s.next hv) ∧ (Transparent p (s.next hv) ↔ Transparent p s ∧
      ∀ w ∈ hv.executing, ∀ left ∈ s.left w,
        Resumable p s.hv.cpu (s.hv.vcpus w).toVcpuContext left) := by
  have hnext : s.next hv = _ := if_neg hne
  rw [hnext]
  constructor
  · refine ⟨hready, hsw.init, ?_⟩
    intro v left hleft hother
    dsimp only at hleft
    split_ifs at hleft with hexec
    · obtain rfl := Option.some.inj hleft
      exact hsw.saved v hexec
    · exact hsw.kept v left hexec (h.saved v left hleft hexec)
  · cases haux : hv.executing with
    | none =>
      simp [Transparent]
    | some w =>
      have hother : s.hv.executing ≠ some w := fun heq => hne (haux.trans heq.symm)
      cases hleft : s.left w with
      | none => simp [Transparent, hleft]
      | some left =>
        have hiff : SameGuest p left (restoreCpu p s.hv.cpu (s.hv.vcpus w)) ↔ _ :=
          sameGuest_iff (h.saved w left hleft hother)
        rw [← hsw.restored w haux] at hiff
        simp only [Transparent, Option.bind_some, hleft, Option.toList_some, List.map_cons,
          List.map_nil, List.forall_mem_append, List.forall_mem_singleton, Option.mem_def,
          Option.some.injEq, forall_eq', hiff]

/-- A call of the scheduler touches neither the contexts nor the processor, and a tick count is no
part of them. -/
theorem Switched.outcome {l : List VcpuPtr} {pick : Pick} (ho : Outcome hv n l pick hv')
    {after : Hv} (h : Switched p hv' aux after) (tickCount : UInt32) :
    Switched p hv aux { after with tickCount := tickCount } where
  saved := fun v hexec => ho.cpu_eq ▸ h.saved v (ho.executing_eq.trans hexec)
  kept := fun w left hne hsaved =>
    h.kept w left (ho.executing_eq.symm ▸ hne) ((ho.context w).symm ▸ hsaved)
  restored := by
    intro w haux
    have hrestored := h.restored w haux
    rw [ho.cpu_eq] at hrestored
    obtain ⟨critical, priorityRem, bgjobs, heq⟩ := ho.vcpu w
    rw [heq] at hrestored
    exact hrestored
  init := h.init

theorem Tracked.tick (h : Tracked p n s) (quantum : UInt32) :
    ∃ t, switchStep p quantum s (.kernel .tick) = some t ∧ Tracked p n t ∧
      (Transparent p t ↔ Transparent p s ∧ Resumes p quantum s (.kernel .tick)) := by
  obtain ⟨l, hl, hholds⟩ := h.ready.list
  by_cases hmust : mustSchedule quantum s.hv
  · obtain ⟨pick, hv', hcall, ho⟩ := roundRobinScheduler_outcome hholds (IsRotated.nodup_range hl)
    have hscheduled : scheduled quantum s.hv = pick.vcpu := by
      simp only [scheduled, if_pos hmust, hcall]
    have hready := h.ready.outcome hl ho
    simp only [switchStep, step, runScheduler, hmust, if_true, hcall, bind, Except.bind, Resumes,
      hscheduled]
    refine ⟨_, rfl, ?_⟩
    by_cases hsame : pick.vcpu = s.hv.executing
    · have hstay : contextSwitch p hv' pick.vcpu = hv' := by
        rw [contextSwitch, if_neg (not_not.mpr (hsame.trans ho.executing_eq.symm))]
      rw [hstay]
      have hexec : ({ hv' with tickCount := hv'.tickCount + 1 } : Hv).executing = s.hv.executing :=
        ho.executing_eq
      refine ⟨h.stay ⟨hready.list, hready.ids, hready.vmIds⟩ hexec ho.context, ?_⟩
      refine (transparent_stay hexec).trans ?_
      exact (and_iff_left fun w hw hne => absurd (hsame ▸ hw) hne).symm
    · have hinit : ∀ v, hv'.executing = some v → (hv'.vcpus v).init = 0 := by
        intro v hv
        rw [congrArg VcpuContext.init (ho.context v)]
        exact h.init v (ho.executing_eq ▸ hv)
      have hsw := contextSwitch_switched (p := p) (ho.executing_eq ▸ hsame) hinit
      have hafter := hready.same (contextSwitch_same p hv' pick.vcpu)
      set after : Hv := { contextSwitch p hv' pick.vcpu with
        tickCount := (contextSwitch p hv' pick.vcpu).tickCount + 1 } with hdef
      have hexec : after.executing = pick.vcpu := contextSwitch_executing p hv' pick.vcpu
      have hnew : after.executing ≠ s.hv.executing := hexec.symm ▸ hsame
      obtain ⟨htracked, htransparent⟩ := h.switch hnew
        ⟨hafter.list, hafter.ids, hafter.vmIds⟩ (hexec.symm ▸ hsw.outcome ho _)
      refine ⟨htracked, htransparent.trans (and_congr_right fun _ => ?_)⟩
      rw [hexec]
      refine forall₂_congr fun w hw => ?_
      have hother : s.hv.executing ≠ some w := fun heq => hsame (Eq.trans hw heq.symm)
      exact ⟨fun hresume _ => hresume, fun hresume => hresume hother⟩
  · have hscheduled : scheduled quantum s.hv = s.hv.executing := if_neg hmust
    simp only [switchStep, step, runScheduler, hmust, if_false, bind, Except.bind, Resumes,
      hscheduled]
    have hexec : ({ s.hv with tickCount := s.hv.tickCount + 1 } : Hv).executing = s.hv.executing :=
      rfl
    refine ⟨_, rfl, h.stay ⟨h.ready.list, h.ready.ids, h.ready.vmIds⟩ hexec fun _ => rfl, ?_⟩
    refine (transparent_stay hexec).trans ?_
    exact (and_iff_left fun w hw hne => absurd hw hne).symm

theorem Tracked.step (h : Tracked p n s) (quantum : UInt32) (e : SwitchEvent) :
    ∃ t, switchStep p quantum s e = some t ∧ Tracked p n t ∧
      (Transparent p t ↔ Transparent p s ∧ Resumes p quantum s e) := by
  have hstay : ∀ {hv : Hv}, hv.executing = s.hv.executing →
      (Transparent p (s.next hv) ↔ Transparent p s ∧ True) :=
    fun hexec => (transparent_stay hexec).trans (and_iff_left trivial).symm
  cases e with
  | kernel e =>
    cases e with
    | tick => exact h.tick quantum
    | deliver target =>
      have hexec : (fastInterruptDelivery s.hv target).executing = s.hv.executing := by
        unfold fastInterruptDelivery
        split_ifs <;> rfl
      refine ⟨_, rfl, h.stay (h.ready.fastInterruptDelivery target) hexec fun v => ?_, hstay hexec⟩
      obtain ⟨critical, heq⟩ := fastInterruptDelivery_vcpu s.hv target v
      rw [heq]
    | setState v state =>
      refine ⟨_, rfl, h.stay (h.ready.setState v state) rfl fun w => ?_, hstay rfl⟩
      obtain ⟨state', heq⟩ := setState_vcpu s.hv v w state
      rw [heq]
  | guest cp0 pc frame =>
    have hexec : (guestWrites s.hv cp0 pc frame).executing = s.hv.executing := by
      unfold guestWrites
      split <;> rfl
    refine ⟨_, rfl, h.stay ?_ hexec ?_, hstay hexec⟩
    · unfold guestWrites
      split
      · exact h.ready
      · exact ⟨h.ready.list, h.ready.ids, h.ready.vmIds⟩
    · intro v
      unfold guestWrites
      split <;> rfl

/-- After `initializeMachines` no VCPU has run. -/
def switchingStart (p : Platform) (power : Power) (vmconf : List VmConf) : Switching where
  hv := initializeMachines p power vmconf
  left := fun _ => none
  resumed := []

theorem switchingStart_tracked (p : Platform) (power : Power) (vmconf : List VmConf) :
    Tracked p vmconf.length (switchingStart p power vmconf) := by
  have hbooted := initializeMachines_booted p power vmconf
  refine ⟨hbooted.isReady, fun v hv => ?_, fun v left hleft => ?_⟩
  · exact absurd (hbooted.executing.symm.trans hv) (Option.some_ne_none v).symm
  · cases hleft

/-- In every run, whatever the guests write between the ticks: each VCPU that is resumed finds its
registers as it left them exactly when Compare, and registers without a saved frame, were never
changed in between. -/
theorem contextSwitch_transparent_iff (p : Platform) (quantum : UInt32) (power : Power)
    (vmconf : List VmConf) (es : List SwitchEvent) :
    ∃ s, run (switchStep p quantum) (switchingStart p power vmconf) es = some s ∧
      (Transparent p s ↔ Guarded (switchStep p quantum) (Resumes p quantum)
        (switchingStart p power vmconf) es) := by
  have hstart := switchingStart_tracked p power vmconf
  obtain ⟨s, hrun, h⟩ := run_defined (P := Tracked p vmconf.length) (fun s e _ hs => by
    obtain ⟨t, hstep, ht, _⟩ := Tracked.step hs quantum e
    exact ⟨t, hstep, ht⟩) hstart
  have hiff : Transparent p s ↔ Transparent p (switchingStart p power vmconf) ∧
      Guarded (switchStep p quantum) (Resumes p quantum) (switchingStart p power vmconf) es :=
    run_guarded_iff (I := Tracked p vmconf.length) (P := Transparent p)
      (fun s e t _ hs hstep => by
        obtain ⟨u, hu, hI, hP⟩ := Tracked.step hs quantum e
        obtain rfl := Option.some.inj (hstep.symm.trans hu)
        exact ⟨hI, hP⟩) hstart hrun
  have hnone : Transparent p (switchingStart p power vmconf) := fun r hr => by cases hr
  exact ⟨s, hrun, hiff.trans (and_iff_right hnone)⟩

/-- Compare with the value `x`, in registers that are otherwise zero. -/
def compareOnly (x : UInt32) (reg sel : Nat) : UInt32 := if (reg, sel) = CP0_COMPARE then x else 0

/-- The first VM writes Compare, the second one writes it too, and the first finds that value. -/
theorem compare_leaks :
    ∃ s, run (switchStep .pic32mz 1) (switchingStart .pic32mz .cleared pingPong)
        [.kernel .tick, .guest (compareOnly 5) 0x9d001000 (fun _ => 0), .kernel .tick,
          .guest (compareOnly 7) 0x9d001000 (fun _ => 0), .kernel .tick] = some s ∧
      ¬Transparent .pic32mz s := by
  have hrun : (run (switchStep .pic32mz 1) (switchingStart .pic32mz .cleared pingPong)
      [.kernel .tick, .guest (compareOnly 5) 0x9d001000 (fun _ => 0), .kernel .tick,
        .guest (compareOnly 7) 0x9d001000 (fun _ => 0), .kernel .tick]).any
      (fun s => s.resumed.any fun r => mfgc0 r.2 11 0 ≠ mfgc0 r.1 11 0) := by
    decide +kernel
  obtain ⟨s, hs, hany⟩ := (Option.any_eq_true _ _).mp hrun
  obtain ⟨r, hr, hne⟩ := List.any_eq_true.mp hany
  exact ⟨s, hs, fun h => of_decide_eq_true hne ((h r hr).cp0 CP0_COMPARE (by decide))⟩

end PrplHypervisor.Kernel
