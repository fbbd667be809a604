import PrplHypervisor.Drivers.InterruptRedirect

/-! The virtual interrupts of PIC32MZ over whole runs.  Those of a VCPU are in its saved word and,
while it executes, in the register; the two are put together whenever it is switched out.  So a
virtual interrupt stays until its VCPU clears it, and enters by a send, a redirected line or a timer
tick that the VCPU executes after. -/

namespace PrplHypervisor.Drivers

open Arch Kernel Lib.Words Lib.Runs

/-- The driver's data with the static variable of `timer_interrupt_handler`. -/
structure Virtual where
  redirect : Redirect
  past : UInt32

def Virtual.hv (s : Virtual) : Hv := s.redirect.hv

def Virtual.setHv (s : Virtual) (hv : Hv) : Virtual :=
  { s with redirect := { s.redirect with hv := hv } }

/-- The virtual interrupt of the timer. -/
def timerBit : UInt32 := GUEST_TIMER_INT .pic32mz <<< GUESTCLT2_GRIPL_SHIFT

/-- The virtual interrupt of the inter-VM communication. -/
def intervmBit : UInt32 := GUEST_INTERVM_INT <<< GUESTCLT2_GRIPL_SHIFT

/-- `timer_interrupt_handler` (`arch/mips/pic32mz/timer.c`), when the counter has the value `now`;
`interval` is `QUEST_TICK_INTERVAL`. -/
def timerInterruptHandler (quantum interval now : UInt32) (s : Virtual) : Except Fault Virtual := do
  -- `calc_next_timer_interrupt` acknowledges line 0
  let s := { s with redirect := s.redirect.ifsClr 0 }
  let hv ← runScheduler .pic32mz quantum s.hv
  let diffTime := if now ≥ s.past then now - s.past else 0xffffffff - (s.past - now)
  if diffTime ≥ interval then
    let cpu := setGuestCTL2 hv.cpu (getGuestCTL2 hv.cpu ||| timerBit)
    return { s.setHv { hv with cpu := cpu } with past := now }
  else return s.setHv hv

/-- The virtual interrupts of `v`. -/
def pend (hv : Hv) (v : VcpuPtr) : UInt32 :=
  (hv.vcpus v).guestclt2 ||| if hv.executing = some v then getGuestCTL2 hv.cpu else 0

/-- A step of the kernel, a timer tick, a hypercall of the VCPU `caller`, lines that change, or the
interrupt that they raise. -/
inductive VirtualEvent
  | kernel (e : Event)
  | timer (now : UInt32)
  | send (caller : VcpuPtr) (targetId messagePtr messageSize : UInt32) (buffer : Nat → UInt8)
  | recv (caller : VcpuPtr) (messagePtr : UInt32)
  | reenable (caller : VcpuPtr) (interrupt : UInt32)
  | lines (ifs : UInt32 → UInt32)
  | injection

def virtualStep (quantum interval : UInt32) (s : Virtual) : VirtualEvent → Option Virtual
  | .kernel e => (step .pic32mz quantum s.hv e).map s.setHv
  | .timer now => (timerInterruptHandler quantum interval now s).toOption
  | .send caller targetId messagePtr messageSize buffer =>
    match intervmSendMsg .pic32mz buffer
        (hypercall .pic32mz s.hv caller (sendArgs targetId messagePtr messageSize)) with
    | .error _ => none
    | .ok (_, hv) => some (s.setHv hv)
  | .recv caller messagePtr =>
    match intervmRecvMsg .pic32mz (hypercall .pic32mz s.hv caller [(REG_A0, messagePtr)]) with
    | .error _ => none
    | .ok (_, hv) => some (s.setHv hv)
  | .reenable caller interrupt =>
    let hv := hypercall .pic32mz s.hv caller [(REG_A0, interrupt)]
    some { s with redirect := reenableInterrupt { s.redirect with hv := hv } }
  | .lines ifs => some { s with redirect := { s.redirect with ifs := ifs } }
  | .injection => some { s with redirect := interruptInjection s.redirect }

/-- The events by which `v` clears virtual interrupts of the mask `b`. -/
def Clears (v : VcpuPtr) (b : UInt32) : VirtualEvent → Prop
  | .recv caller _ => caller = v ∧ HasBits intervmBit b
  | .reenable caller interrupt => caller = v ∧ HasBits (interrupt <<< GUESTCLT2_GRIPL_SHIFT) b
  | _ => False

/-- The steps by which `v` may get one: a send to `v`, the injection for a raised line of `v`, or a
timer tick after whose call of the scheduler `v` executes. -/
def Enters (quantum : UInt32) (v : VcpuPtr) (b : UInt32) (s : Virtual) : VirtualEvent → Prop
  | .send _ targetId _ _ _ => (s.hv.vcpus v).id = targetId ∧ HasBits intervmBit b
  | .injection => ∃ m ∈ s.redirect.interruptMappingList,
      m.vcpu = v ∧ s.redirect.Raised m.irqNumber ∧ HasBits m.bits b
  | .timer _ => (∃ hv, runScheduler .pic32mz quantum s.hv = .ok hv ∧ hv.executing = some v) ∧
      HasBits timerBit b
  | _ => False

/-! ### Switches -/

variable {hv hv' : Hv} {v : VcpuPtr} {b : UInt32} {n : Nat}

theorem hasBits_pend : HasBits (pend hv v) b ↔ HasBits (hv.vcpus v).guestclt2 b ∨
    (hv.executing = some v ∧ HasBits (getGuestCTL2 hv.cpu) b) := by
  rw [pend, hasBits_or]
  split_ifs with hexec
  · simp [hexec]
  · simp only [hexec, false_and, or_false]
    exact or_iff_left fun h => h UInt32.zero_and

/-- The VCPU in execution was started. -/
def Started (hv : Hv) : Prop := ∀ v, hv.executing = some v → (hv.vcpus v).init = 0

/-- `contextSave` puts the word and the register of the VCPU in execution together. -/
theorem contextSave_guestclt2 (hstarted : Started hv) (v : VcpuPtr) :
    ((contextSave .pic32mz hv).vcpus v).guestclt2 = pend hv v := by
  unfold pend
  split_ifs with hexec
  · rw [contextSave_of_init hexec (hstarted v hexec), Hv.setVcpu_self]
    rfl
  · rw [contextSave_of_ne hexec, UInt32.or_zero]

theorem restoreCpu_guestctl2 (p : Platform) (cpu : Cpu) (vcpu : Vcpu) :
    getGuestCTL2 (restoreCpu p cpu vcpu) = vcpu.guestclt2 := by
  unfold restoreCpu
  dsimp only
  cases vcpu.gpr with
  | none => rfl
  | some gpr => exact gprContextRestore_guestctl2 p _ gpr

/-- What a switch clears in the word of the next VCPU it has put into the register. -/
theorem pend_contextSwitch (hstarted : Started hv) (aux : Option VcpuPtr) (v : VcpuPtr)
    (b : UInt32) :
    HasBits (pend (contextSwitch .pic32mz hv aux) v) b ↔ HasBits (pend hv v) b := by
  by_cases hne : aux = hv.executing
  · rw [contextSwitch, if_neg (not_not.mpr hne)]
  rw [hasBits_pend, contextSwitch_executing, contextSwitch, if_pos hne,
    ← contextSave_guestclt2 hstarted]
  cases aux with
  | none => simp [contextRestore]
  | some w =>
    simp only [contextRestore, restoreCpu_guestctl2, Option.some.injEq]
    by_cases hv : v = w
    · subst hv
      simp only [Hv.setVcpu_self, true_and]
      exact ⟨fun h => h.elim HasBits.of_and id, Or.inr⟩
    · simp only [Hv.setVcpu_of_ne _ _ hv]
      exact or_iff_left fun h => hv h.1.symm

theorem started_contextSwitch (hstarted : Started hv) (p : Platform) (aux : Option VcpuPtr) :
    Started (contextSwitch p hv aux) := by
  intro v hexec
  rw [contextSwitch_executing] at hexec
  by_cases hne : aux = hv.executing
  · rw [contextSwitch, if_neg (not_not.mpr hne)]
    exact hstarted v (hne ▸ hexec)
  · subst hexec
    simp [contextSwitch, hne, contextRestore]

/-! ### Steps that leave the virtual interrupts alone -/

/-- The VCPUs of the ready list are there, and the one in execution was started. -/
structure Live (hv : Hv) (n : Nat) : Prop where
  ready : Ready hv n
  started : Started hv

/-- A step keeps the kernel alive and the virtual interrupts of every VCPU. -/
structure KeepsPend (hv hv' : Hv) (n : Nat) : Prop where
  live : Live hv' n
  pend : ∀ v b, HasBits (pend hv' v) b ↔ HasBits (pend hv v) b

theorem KeepsPend.refl (h : Live hv n) : KeepsPend hv hv n := ⟨h, fun _ _ => Iff.rfl⟩

theorem KeepsPend.trans {hv'' : Hv} (h : KeepsPend hv hv' n) (h' : KeepsPend hv' hv'' n) :
    KeepsPend hv hv'' n := ⟨h'.live, fun v b => (h'.pend v b).trans (h.pend v b)⟩

/-- The words, the register and the VCPU in execution stay as they are. -/
theorem KeepsPend.same (h : Live hv n) (hready : Ready hv' n)
    (hexec : hv'.executing = hv.executing) (hreg : getGuestCTL2 hv'.cpu = getGuestCTL2 hv.cpu)
    (hcontext : ∀ v, (hv'.vcpus v).toVcpuContext = (hv.vcpus v).toVcpuContext) :
    KeepsPend hv hv' n := by
  refine ⟨⟨hready, fun v hv => ?_⟩, fun v b => ?_⟩
  · rw [congrArg VcpuContext.init (hcontext v)]
    exact h.started v (hexec ▸ hv)
  · rw [Drivers.pend, Drivers.pend, hexec, hreg, congrArg VcpuContext.guestclt2 (hcontext v)]

theorem KeepsPend.contextSwitch (h : Live hv n) (aux : Option VcpuPtr) :
    KeepsPend hv (contextSwitch .pic32mz hv aux) n :=
  ⟨⟨h.ready.same (contextSwitch_same .pic32mz hv aux),
    started_contextSwitch h.started .pic32mz aux⟩, fun v b => pend_contextSwitch h.started aux v b⟩

theorem KeepsPend.setGuestGPR (h : Live hv n) (reg : Nat) (value : UInt32) :
    KeepsPend hv (setGuestGPR .pic32mz hv reg value) n :=
  KeepsPend.same h (Ready.setGuestGPR h.ready .pic32mz reg value) rfl rfl fun _ => rfl

theorem KeepsPend.hypercall (h : Live hv n) (caller : VcpuPtr) (args : List (Nat × UInt32)) :
    KeepsPend hv (hypercall .pic32mz hv caller args) n := by
  have hargs : ∀ (args : List (Nat × UInt32)) (hv' : Hv), KeepsPend hv hv' n →
      KeepsPend hv
        (args.foldl (fun hv arg => Drivers.setGuestGPR .pic32mz hv arg.1 arg.2) hv') n := by
    intro args
    induction args with
    | nil => exact fun hv' h => h
    | cons arg args ih => exact fun hv' h => ih _ (h.trans (KeepsPend.setGuestGPR h.live _ _))
  exact hargs args _ (KeepsPend.contextSwitch h (some caller))

theorem KeepsPend.runScheduler (h : Live hv n) (quantum : UInt32) :
    ∃ hv', runScheduler .pic32mz quantum hv = .ok hv' ∧ KeepsPend hv hv' n := by
  obtain ⟨l, hl, hholds⟩ := h.ready.list
  rcases runScheduler_cases .pic32mz quantum hholds (IsRotated.nodup_range hl) with
    ⟨_, hrun⟩ | ⟨_, pick, hv', ho, hrun⟩
  · exact ⟨_, hrun,
      KeepsPend.same h ⟨h.ready.list, h.ready.ids, h.ready.vmIds⟩ rfl rfl fun _ => rfl⟩
  · refine ⟨_, hrun, ?_⟩
    have hcall : KeepsPend hv hv' n := KeepsPend.same h (h.ready.outcome hl ho) ho.executing_eq
      (by rw [ho.cpu_eq]) ho.context
    have hswitch := hcall.trans (KeepsPend.contextSwitch hcall.live pick.vcpu)
    have hready := hswitch.live.ready
    exact hswitch.trans (KeepsPend.same hswitch.live ⟨hready.list, hready.ids, hready.vmIds⟩ rfl rfl
      fun _ => rfl)

theorem KeepsPend.fastInterruptDelivery (h : Live hv n) (target : VcpuPtr) :
    KeepsPend hv (fastInterruptDelivery hv target) n := by
  refine KeepsPend.same h (h.ready.fastInterruptDelivery target)
    (fastInterruptDelivery_executing hv target) (by rw [fastInterruptDelivery_cpu]) fun v => ?_
  obtain ⟨critical, heq⟩ := fastInterruptDelivery_vcpu hv target v
  rw [heq]

theorem KeepsPend.step (h : Live hv n) (quantum : UInt32) (e : Event) :
    ∃ hv', step .pic32mz quantum hv e = some hv' ∧ KeepsPend hv hv' n := by
  cases e with
  | tick =>
    obtain ⟨hv', hrun, hkeeps⟩ := KeepsPend.runScheduler h quantum
    exact ⟨hv', by rw [Kernel.step, hrun]; rfl, hkeeps⟩
  | deliver target => exact ⟨_, rfl, KeepsPend.fastInterruptDelivery h target⟩
  | setState v state =>
    refine ⟨_, rfl, KeepsPend.same h (h.ready.setState v state) rfl rfl fun w => ?_⟩
    obtain ⟨s, heq⟩ := setState_vcpu hv v w state
    rw [heq]

/-! ### Sends and receives -/

variable {caller : VcpuPtr} {buffer : Nat → UInt8} {r : Option VcpuPtr}

/-- A send leaves the register and the VCPU in execution alone, and sets at most its own bit. -/
structure SendWords (hv hv' : Hv) : Prop where
  executing : hv'.executing = hv.executing
  register : getGuestCTL2 hv'.cpu = getGuestCTL2 hv.cpu
  init : ∀ w, (hv'.vcpus w).init = (hv.vcpus w).init
  words : ∀ w, (hv'.vcpus w).guestclt2 = (hv.vcpus w).guestclt2 ∨
    (hv'.vcpus w).guestclt2 = (hv.vcpus w).guestclt2 ||| intervmBit

theorem SendWords.setVcpu (hv : Hv) (v : VcpuPtr) (vcpu : Vcpu)
    (hinit : vcpu.init = (hv.vcpus v).init)
    (hword : vcpu.guestclt2 = (hv.vcpus v).guestclt2 ||| intervmBit) :
    SendWords hv (hv.setVcpu v vcpu) := by
  refine ⟨rfl, rfl, fun w => ?_, fun w => ?_⟩
  · rw [Hv.setVcpu_apply]
    split_ifs with hw
    · rw [hw, hinit]
    · rfl
  · rw [Hv.setVcpu_apply]
    split_ifs with hw
    · exact Or.inr (hw ▸ hword)
    · exact Or.inl rfl

theorem SendOutcome.sendWords (h : SendOutcome .pic32mz buffer hv n caller r hv') :
    SendWords hv hv' := by
  cases h with
  | rejected code => exact ⟨rfl, rfl, fun _ => rfl, fun _ => Or.inl rfl⟩
  | full v mem init full =>
    have hset := SendWords.setVcpu hv v { hv.vcpus v with
      guestclt2 := (hv.vcpus v).guestclt2 ||| intervmBit } rfl rfl
    exact ⟨hset.executing, hset.register, hset.init, hset.words⟩
  | stored v mem init room size cpu guestctl2 =>
    have hset := SendWords.setVcpu ({ hv with cpu := cpu } : Hv) v { hv.vcpus v with
      messages := storeMessage (hv.vcpus v).messages (hv.vcpus caller).vm.id
        (moveFromPreviousGuestGPR .pic32mz hv.cpu REG_A2) buffer
      guestclt2 := (hv.vcpus v).guestclt2 ||| intervmBit } rfl rfl
    refine ⟨?_, ?_, fun w => ?_, fun w => ?_⟩
    · rw [fastInterruptDelivery_executing]
      exact hset.executing
    · rw [fastInterruptDelivery_cpu]
      exact guestctl2
    · obtain ⟨critical, heq⟩ := fastInterruptDelivery_vcpu _ v w
      rw [heq]
      exact hset.init w
    · rw [fastInterruptDelivery_guestclt2]
      exact hset.words w

/-- A send reaches no other VCPU than the one with the target's id. -/
theorem intervmSendMsg_others (hready : Ready hv n) (hexec : hv.executing = some caller)
    (hcall : intervmSendMsg .pic32mz buffer hv = .ok (r, hv')) (w : VcpuPtr)
    (hw : (hv.vcpus w).id ≠ moveFromPreviousGuestGPR .pic32mz hv.cpu REG_A0) :
    (hv'.vcpus w).guestclt2 = (hv.vcpus w).guestclt2 := by
  obtain ⟨l, _, hholds⟩ := hready.list
  unfold intervmSendMsg at hcall
  simp only [getVcpuFromId_eq hholds, bind, Except.bind, pure, Except.pure, hexec] at hcall
  split_ifs at hcall with hbig
  · cases hcall
    rfl
  cases hfind : l.find? (fun v => (hv.vcpus v).id =
      moveFromPreviousGuestGPR .pic32mz hv.cpu REG_A0) with
  | none =>
    rw [hfind] at hcall
    cases hcall
    rfl
  | some v =>
    have hid : (hv.vcpus v).id = moveFromPreviousGuestGPR .pic32mz hv.cpu REG_A0 := by
      simpa using List.find?_some hfind
    have hwv : w ≠ v := fun heq => hw (heq ▸ hid)
    rw [hfind] at hcall
    dsimp only at hcall
    split_ifs at hcall with hinit hfull
    · cases hcall
      rfl
    · cases hcall
      simp [setGuestGPR, hwv]
    · cases hcall
      rw [fastInterruptDelivery_guestclt2]
      simp [setGuestGPR, hwv]

theorem intervmSendMsg_pend (h : Live hv n) (hexec : hv.executing = some caller)
    (buffer : Nat → UInt8) :
    ∃ r hv', intervmSendMsg .pic32mz buffer hv = .ok (r, hv') ∧ Live hv' n ∧ ∀ v b,
      (HasBits (pend hv v) b → HasBits (pend hv' v) b) ∧
      (HasBits (pend hv' v) b → HasBits (pend hv v) b ∨
        ((hv.vcpus v).id = moveFromPreviousGuestGPR .pic32mz hv.cpu REG_A0 ∧
          HasBits intervmBit b)) := by
  obtain ⟨r, hv', hcall, ho⟩ := intervmSendMsg_outcome (p := .pic32mz) h.ready hexec buffer
  have hwords := SendOutcome.sendWords ho
  refine ⟨r, hv', hcall, ⟨ho.ready h.ready, fun v hv => ?_⟩, fun v b => ?_⟩
  · rw [hwords.init v]
    exact h.started v (hwords.executing ▸ hv)
  simp only [hasBits_pend, hwords.executing, hwords.register]
  constructor
  · refine Or.imp_left fun hbits => ?_
    rcases hwords.words v with heq | heq
    · rwa [heq]
    · rw [heq]
      exact hbits.or intervmBit
  · rintro (hbits | hreg)
    · rcases hwords.words v with heq | heq
      · exact Or.inl (Or.inl (heq ▸ hbits))
      · by_cases hid : (hv.vcpus v).id = moveFromPreviousGuestGPR .pic32mz hv.cpu REG_A0
        · rw [heq, hasBits_or] at hbits
          exact hbits.elim (fun hold => Or.inl (Or.inl hold)) fun hnew => Or.inr ⟨hid, hnew⟩
        · rw [intervmSendMsg_others h.ready hexec hcall v hid] at hbits
          exact Or.inl (Or.inl hbits)
    · exact Or.inl (Or.inr hreg)

theorem intervmRecvMsg_pend (h : Live hv n) (hexec : hv.executing = some caller) :
    ∃ r hv', intervmRecvMsg .pic32mz hv = .ok (r, hv') ∧ Live hv' n ∧ ∀ v b,
      (IsBit b → HasBits (pend hv v) b → ¬(caller = v ∧ HasBits intervmBit b) →
        HasBits (pend hv' v) b) ∧
      (HasBits (pend hv' v) b → HasBits (pend hv v) b) := by
  obtain ⟨r, hv', hcall, ho⟩ := intervmRecvMsg_outcome (p := .pic32mz) hexec
  have hready := RecvOutcome.ready ho h.ready
  refine ⟨r, hv', hcall, ?_⟩
  cases ho with
  | empty empty =>
    have hkeeps := KeepsPend.setGuestGPR h REG_V0 MESSAGE_EMPTY
    exact ⟨hkeeps.live, fun v b =>
      ⟨fun _ hbits _ => (hkeeps.pend v b).mpr hbits, (hkeeps.pend v b).mp⟩⟩
  | received nonempty message head cpu size sourceId guestctl2 =>
    have hreg : getGuestCTL2 cpu = getGuestCTL2 hv.cpu &&& ~~~intervmBit := guestctl2
    refine ⟨⟨hready, fun v hv => ?_⟩, fun v b => ?_⟩
    · obtain rfl : caller = v := Option.some.inj (hexec.symm.trans hv)
      rw [Hv.setVcpu_self]
      exact h.started caller hexec
    simp only [hasBits_pend, Hv.setVcpu_executing, Hv.setVcpu_cpu, hexec, Option.some.injEq]
    by_cases hv : v = caller
    · subst hv
      simp only [Hv.setVcpu_self, true_and, hreg]
      constructor
      · intro hb hbits hnot
        have hkeep : ∀ x : UInt32, HasBits x b → HasBits (x &&& ~~~intervmBit) b :=
          fun x hx => hb.hasBits_and_not.mpr ⟨hx, hnot⟩
        exact hbits.imp (hkeep _) (hkeep _)
      · exact fun hbits => hbits.imp HasBits.of_and HasBits.of_and
    · have hne : ¬caller = v := fun heq => hv heq.symm
      simp only [Hv.setVcpu_of_ne _ _ hv, hne, false_and, or_false]
      exact ⟨fun _ hbits _ => hbits, id⟩

/-! ### Redirected lines and the timer -/

theorem injectEntry_pend (s : Redirect) (m : InterruptMapping) (v : VcpuPtr) (b : UInt32) :
    HasBits (pend (injectEntry s m).hv v) b ↔ HasBits (pend s.hv v) b ∨
      (s.Raised m.irqNumber ∧ ¬HasBits (getGuestCTL2 s.hv.cpu) m.bits ∧ m.vcpu = v ∧
        HasBits m.bits b) := by
  rw [hasBits_pend, hasBits_pend, injectEntry_guestclt2, injectEntry_guestctl2,
    injectEntry_executing]
  by_cases hm : m.vcpu = v
  · subst hm
    by_cases hexec : s.hv.executing = some m.vcpu
    · simp [hexec, or_assoc]
    · simp [hexec, Ne.symm hexec]
  · have hvm : ¬v = m.vcpu := fun heq => hm heq.symm
    by_cases hexec : s.hv.executing = some v
    · have hother : ¬some m.vcpu = s.hv.executing := by
        rw [hexec, Option.some.injEq]
        exact hm
      simp [hexec, hm, hvm]
    · simp [hexec, hm, hvm]

/-- A whole call of the handler, by induction on its table: an entry only looks at a line that is
raised, and acknowledging one raises none. -/
theorem foldl_injectEntry_pend (l : List InterruptMapping) (s : Redirect) (v : VcpuPtr)
    (b : UInt32) :
    (HasBits (pend s.hv v) b → HasBits (pend (l.foldl injectEntry s).hv v) b) ∧
      (HasBits (pend (l.foldl injectEntry s).hv v) b → HasBits (pend s.hv v) b ∨
        ∃ m ∈ l, m.vcpu = v ∧ s.Raised m.irqNumber ∧ HasBits m.bits b) := by
  induction l generalizing s with
  | nil => exact ⟨id, Or.inl⟩
  | cons m l ih =>
    obtain ⟨hkeeps, henters⟩ := ih (injectEntry s m)
    rw [List.foldl_cons]
    constructor
    · exact fun h => hkeeps ((injectEntry_pend s m v b).mpr (Or.inl h))
    · intro h
      rcases henters h with hpend | ⟨k, hk, hvcpu, hraised, hbits⟩
      · rcases (injectEntry_pend s m v b).mp hpend with hold | ⟨hraised, _, hvcpu, hbits⟩
        · exact Or.inl hold
        · exact Or.inr ⟨m, List.mem_cons_self, hvcpu, hraised, hbits⟩
      · exact Or.inr ⟨k, List.mem_cons_of_mem m hk, hvcpu,
          ((injectEntry_raised s m k.irqNumber).mp hraised).1, hbits⟩

theorem Live.setWord (h : Live hv n) (v : VcpuPtr) (guestclt2 : UInt32) :
    Live (hv.setVcpu v { hv.vcpus v with guestclt2 := guestclt2 }) n := by
  refine ⟨Ready.setVcpu h.ready v rfl rfl, fun w hw => ?_⟩
  rw [Hv.setVcpu_apply]
  split_ifs with heq
  · exact heq ▸ h.started w hw
  · exact h.started w hw

theorem Live.injectEntry {s : Redirect} (h : Live s.hv n) (m : InterruptMapping) :
    Live (injectEntry s m).hv n := by
  unfold Drivers.injectEntry
  dsimp only [Redirect.ifsClr, Redirect.iecClr]
  split_ifs with hraised hbits hexec
  · exact h
  · exact ⟨Ready.setCpu h.ready _, h.started⟩
  · exact (KeepsPend.fastInterruptDelivery (h.setWord m.vcpu _) m.vcpu).live
  · exact h

theorem Live.interruptInjection {s : Redirect} (h : Live s.hv n) :
    Live (interruptInjection s).hv n := by
  unfold Drivers.interruptInjection
  generalize s.interruptMappingList = l
  induction l generalizing s with
  | nil => exact h
  | cons m l ih => exact ih (h.injectEntry m)

/-- `reenable_interrupt` clears a virtual interrupt of its caller at most. -/
theorem reenableLoop_pend {s : Redirect} (h : Live s.hv n) (hexec : s.hv.executing = some caller)
    (interrupt : UInt32) (l : List InterruptMapping) :
    Live (reenableLoop interrupt s l).hv n ∧ ∀ v b,
      (IsBit b → HasBits (pend s.hv v) b →
        ¬(caller = v ∧ HasBits (interrupt <<< GUESTCLT2_GRIPL_SHIFT) b) →
        HasBits (pend (reenableLoop interrupt s l).hv v) b) ∧
      (HasBits (pend (reenableLoop interrupt s l).hv v) b → HasBits (pend s.hv v) b) := by
  induction l with
  | nil =>
    have hkeeps := KeepsPend.setGuestGPR h REG_V0 1
    exact ⟨hkeeps.live, fun v b =>
      ⟨fun _ hbits _ => (hkeeps.pend v b).mpr hbits, (hkeeps.pend v b).mp⟩⟩
  | cons m l ih =>
    unfold reenableLoop
    split_ifs with howner hirq
    · obtain rfl : caller = m.vcpu := Option.some.inj (hexec.symm.trans howner)
      have hkeeps := KeepsPend.setGuestGPR (h.setWord m.vcpu
        ((s.hv.vcpus m.vcpu).guestclt2 &&& ~~~m.bits)) REG_V0 0
      refine ⟨hkeeps.live, fun v b => ?_⟩
      have hpend := hkeeps.pend v b
      dsimp only [Redirect.iecSet]
      rw [hpend]
      simp only [hasBits_pend, Hv.setVcpu_executing, Hv.setVcpu_cpu]
      by_cases hv : v = m.vcpu
      · subst hv
        rw [Hv.setVcpu_self]
        constructor
        · intro hb hbits hnot
          refine hbits.imp_left fun hword =>
            hb.hasBits_and_not.mpr ⟨hword, fun hm => hnot ⟨rfl, ?_⟩⟩
          rwa [hirq]
        · exact fun hbits => hbits.imp_left HasBits.of_and
      · rw [Hv.setVcpu_of_ne _ _ hv]
        exact ⟨fun _ hbits _ => hbits, id⟩
    · exact ih
    · exact ih

theorem pend_setTimer (hv : Hv) (v : VcpuPtr) (b : UInt32) :
    HasBits (pend { hv with cpu := setGuestCTL2 hv.cpu (getGuestCTL2 hv.cpu ||| timerBit) } v) b ↔
      HasBits (pend hv v) b ∨ (hv.executing = some v ∧ HasBits timerBit b) := by
  rw [hasBits_pend, hasBits_pend, getGuestCTL2_setGuestCTL2, hasBits_or, and_or_left, or_assoc]

/-- A tick: the scheduler keeps the virtual interrupts, and the VCPU that executes after it may get
the timer's. -/
theorem timerInterruptHandler_pend {s : Virtual} (h : Live s.hv n) (quantum interval now : UInt32) :
    ∃ t, timerInterruptHandler quantum interval now s = .ok t ∧ Live t.hv n ∧ ∀ v b,
      (HasBits (pend s.hv v) b → HasBits (pend t.hv v) b) ∧
      (HasBits (pend t.hv v) b → HasBits (pend s.hv v) b ∨
        ((∃ hv, runScheduler .pic32mz quantum s.hv = .ok hv ∧ hv.executing = some v) ∧
          HasBits timerBit b)) := by
  obtain ⟨hv', hrun, hkeeps⟩ := KeepsPend.runScheduler h quantum
  have hacknowledged : runScheduler .pic32mz quantum
      ({ s with redirect := s.redirect.ifsClr 0 } : Virtual).hv = .ok hv' := hrun
  unfold timerInterruptHandler
  simp only [hacknowledged, bind, Except.bind, pure, Except.pure]
  generalize (if now ≥ s.past then now - s.past else 0xffffffff - (s.past - now)) = diffTime
  split_ifs with hdue
  · refine ⟨_, rfl, ⟨Ready.setCpu hkeeps.live.ready _, hkeeps.live.started⟩, fun v b => ?_⟩
    have hset := pend_setTimer hv' v b
    rw [hkeeps.pend v b] at hset
    constructor
    · exact fun hbits => hset.mpr (Or.inl hbits)
    · exact fun hbits => (hset.mp hbits).imp_right fun hnew => ⟨⟨hv', hrun, hnew.1⟩, hnew.2⟩
  · refine ⟨_, rfl, hkeeps.live, fun v b => ?_⟩
    exact ⟨(hkeeps.pend v b).mpr, fun hbits => Or.inl ((hkeeps.pend v b).mp hbits)⟩

/-! ### Runs -/

/-- What a step may do to the virtual interrupts of a VCPU. -/
structure Accounts (quantum : UInt32) (n : Nat) (s : Virtual) (e : VirtualEvent) (t : Virtual) :
    Prop where
  live : Live t.hv n
  keeps : ∀ v b, IsBit b → HasBits (pend s.hv v) b → ¬Clears v b e → HasBits (pend t.hv v) b
  enters : ∀ v b, HasBits (pend t.hv v) b → HasBits (pend s.hv v) b ∨ Enters quantum v b s e

theorem KeepsPend.accounts {quantum : UInt32} {s t : Virtual} {e : VirtualEvent}
    (h : KeepsPend s.hv t.hv n) : Accounts quantum n s e t where
  live := h.live
  keeps := fun v b _ hbits _ => (h.pend v b).mpr hbits
  enters := fun v b hbits => Or.inl ((h.pend v b).mp hbits)

theorem hypercall_id (caller : VcpuPtr) (args : List (Nat × UInt32)) (v : VcpuPtr) :
    ((hypercall .pic32mz hv caller args).vcpus v).id = (hv.vcpus v).id :=
  congrArg VcpuSched.id ((hypercall_same .pic32mz hv caller args).sched v)

/-- The step lemma, one case for each event. -/
theorem Live.step {s : Virtual} (h : Live s.hv n) (quantum interval : UInt32) (e : VirtualEvent) :
    ∃ t, virtualStep quantum interval s e = some t ∧ Accounts quantum n s e t := by
  cases e with
  | kernel e =>
    obtain ⟨hv', hstep, hkeeps⟩ := KeepsPend.step h quantum e
    exact ⟨s.setHv hv', by rw [virtualStep, hstep]; rfl, KeepsPend.accounts hkeeps⟩
  | timer now =>
    obtain ⟨t, hrun, hlive, hpend⟩ := timerInterruptHandler_pend h quantum interval now
    exact ⟨t, by rw [virtualStep, hrun]; rfl, hlive, fun v b _ hbits _ => (hpend v b).1 hbits,
      fun v b => (hpend v b).2⟩
  | send caller targetId messagePtr messageSize buffer =>
    have hentry := KeepsPend.hypercall h caller (sendArgs targetId messagePtr messageSize)
    obtain ⟨r, hv', hcall, hlive, hpend⟩ := intervmSendMsg_pend hentry.live
      (hypercall_executing .pic32mz s.hv caller _) buffer
    refine ⟨s.setHv hv', by simp only [virtualStep, hcall], hlive, fun v b _ hbits _ => ?_,
      fun v b hbits => ?_⟩
    · exact (hpend v b).1 ((hentry.pend v b).mpr hbits)
    · have hnew := (hpend v b).2 hbits
      rwa [hentry.pend v b, hypercall_id, hypercall_sendTarget] at hnew
  | recv caller messagePtr =>
    have hentry := KeepsPend.hypercall h caller [(REG_A0, messagePtr)]
    obtain ⟨r, hv', hcall, hlive, hpend⟩ := intervmRecvMsg_pend hentry.live
      (hypercall_executing .pic32mz s.hv caller _)
    refine ⟨s.setHv hv', by simp only [virtualStep, hcall], hlive, fun v b hb hbits hnot => ?_,
      fun v b hbits => ?_⟩
    · exact (hpend v b).1 hb ((hentry.pend v b).mpr hbits) hnot
    · exact Or.inl ((hentry.pend v b).mp ((hpend v b).2 hbits))
  | reenable caller interrupt =>
    have hentry := KeepsPend.hypercall h caller [(REG_A0, interrupt)]
    have harg : moveFromPreviousGuestGPR .pic32mz
        (hypercall .pic32mz s.hv caller [(REG_A0, interrupt)]).cpu REG_A0 = interrupt := by
      simp only [hypercall, setGuestGPR, List.foldl_cons, List.foldl_nil, moveFrom_moveTo]
    obtain ⟨hlive, hpend⟩ := reenableLoop_pend
      (s := { s.redirect with hv := hypercall .pic32mz s.hv caller [(REG_A0, interrupt)] })
      hentry.live (hypercall_executing .pic32mz s.hv caller _) interrupt
      s.redirect.interruptMappingList
    simp only [virtualStep, reenableInterrupt, harg]
    refine ⟨_, rfl, hlive, fun v b hb hbits hnot => ?_, fun v b hbits => ?_⟩
    · exact (hpend v b).1 hb ((hentry.pend v b).mpr hbits) hnot
    · exact Or.inl ((hentry.pend v b).mp ((hpend v b).2 hbits))
  | lines ifs => exact ⟨_, rfl, KeepsPend.accounts (KeepsPend.refl h)⟩
  | injection =>
    have hpend := foldl_injectEntry_pend s.redirect.interruptMappingList s.redirect
    exact ⟨_, rfl, h.interruptInjection, fun v b _ hbits _ => (hpend v b).1 hbits,
      fun v b hbits => (hpend v b).2 hbits⟩

theorem redirectStart_live (power : Power) (vmconf : List VmConf) :
    Live (initializeMachines .pic32mz power vmconf) vmconf.length := by
  have hbooted := initializeMachines_booted .pic32mz power vmconf
  refine ⟨hbooted.isReady, fun v hv => ?_⟩
  exact absurd (hbooted.executing.symm.trans hv) (Option.some_ne_none v).symm

/-- Between two states of a run, a virtual interrupt of `v` stays unless `v` clears it, and one that
is new came by a send to `v`, a line of `v`, or a timer tick after whose call of the scheduler `v`
executes. -/
structure VirtualInterrupts (quantum interval : UInt32) (s : Virtual) (es : List VirtualEvent)
    (t : Virtual) : Prop where
  survive : ∀ v b, IsBit b → HasBits (pend s.hv v) b → (∀ e ∈ es, ¬Clears v b e) →
    HasBits (pend t.hv v) b
  noLeak : ∀ v b, HasBits (pend t.hv v) b → HasBits (pend s.hv v) b ∨
    ∃ pre e post u, es = pre ++ e :: post ∧ run (virtualStep quantum interval) s pre = some u ∧
      Enters quantum v b u e

theorem Live.run {s : Virtual} (h : Live s.hv n) (quantum interval : UInt32)
    (es : List VirtualEvent) : ∃ t, run (virtualStep quantum interval) s es = some t ∧ Live t.hv n ∧
      VirtualInterrupts quantum interval s es t := by
  have hstep : ∀ s e t, Live s.hv n → virtualStep quantum interval s e = some t →
      Accounts quantum n s e t := by
    intro s e t hs ht
    obtain ⟨u, hu, haccounts⟩ := hs.step quantum interval e
    exact Option.some.inj (hu.symm.trans ht) ▸ haccounts
  obtain ⟨t, hrun, hlive⟩ := run_defined (P := fun s : Virtual => Live s.hv n) (fun s e _ hs => by
    obtain ⟨u, hu, haccounts⟩ := hs.step quantum interval e
    exact ⟨u, hu, haccounts.live⟩) h
  refine ⟨t, hrun, hlive, fun v b hb hbits hclears => ?_, fun v b hbits => ?_⟩
  · exact run_keeps (I := fun s : Virtual => Live s.hv n)
      (P := fun s : Virtual => HasBits (pend s.hv v) b)
      (fun s e t hs ht => ⟨(hstep s e t hs ht).live, (hstep s e t hs ht).keeps v b hb⟩) h hbits
        hclears
      hrun
  · exact run_starts (I := fun s : Virtual => Live s.hv n)
      (P := fun s : Virtual => HasBits (pend s.hv v) b)
      (fun s e t hs ht => ⟨(hstep s e t hs ht).live, (hstep s e t hs ht).enters v b⟩) h hrun hbits

/-- From the initialization of the driver on, and from any state that a run reaches. -/
theorem virtualInterrupts (quantum interval past : UInt32) (power : Power) (vmconf : List VmConf)
    (ifs iec : UInt32 → UInt32) (halloc : AllocationsSucceed vmconf.length) :
    ∃ s₀, interruptRedirectInit vmconf.length (redirectStart power vmconf ifs iec) = .ok s₀ ∧
      ∀ es es', ∃ s t, run (virtualStep quantum interval) ⟨s₀, past⟩ es = some s ∧
        run (virtualStep quantum interval) s es' = some t ∧
        VirtualInterrupts quantum interval s es' t := by
  obtain ⟨s₀, hinit, hhv, _⟩ := interruptRedirectInit_table power vmconf ifs iec halloc
  refine ⟨s₀, hinit, fun es es' => ?_⟩
  have hstart : Live (Virtual.hv ⟨s₀, past⟩) vmconf.length := by
    rw [Virtual.hv, hhv]
    exact redirectStart_live power vmconf
  obtain ⟨s, hs, hlive, _⟩ := hstart.run quantum interval es
  obtain ⟨t, ht, _, hvirtual⟩ := hlive.run quantum interval es'
  exact ⟨s, t, hs, ht, hvirtual⟩

theorem virtualInterrupts_redirectPair :
    ∃ s₀, interruptRedirectInit 2
        (redirectStart .cleared redirectPair (fun _ => 0) (fun _ => 0)) = .ok s₀ ∧
      ∀ es es', ∃ s t, run (virtualStep 1 1) ⟨s₀, 0⟩ es = some s ∧
        run (virtualStep 1 1) s es' = some t ∧ VirtualInterrupts 1 1 s es' t :=
  virtualInterrupts 1 1 0 .cleared redirectPair (fun _ => 0) (fun _ => 0) (by decide)

/-- A tick is taken while the first VM executes, and the second one gets its virtual interrupt. -/
theorem timer_to_next_vm :
    ∃ s₀, interruptRedirectInit 2
        (redirectStart .cleared redirectPair (fun _ => 0) (fun _ => 0)) = .ok s₀ ∧
      ∃ s t, run (virtualStep 1 1) ⟨s₀, 0⟩ [.kernel .tick] = some s ∧
        virtualStep 1 1 s (.timer 1) = some t ∧ s.hv.executing = some 0 ∧
        ¬HasBits (pend s.hv 1) timerBit ∧ HasBits (pend t.hv 1) timerBit := by
  refine ⟨_, rfl, _, _, rfl, rfl, ?_⟩
  decide +kernel

end PrplHypervisor.Drivers
