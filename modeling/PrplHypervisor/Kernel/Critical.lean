import PrplHypervisor.Kernel.ReadyList

/-! Critical events.  `pending` counts the VCPUs of the ready list whose critical flag is set.
While one of them can run, each tick serves one and lowers the count, so all are served after as
many ticks as there are, if none is added. -/

namespace PrplHypervisor.Kernel

open Arch Lib.Runs

variable {hv hv' : Hv} {v : VcpuPtr} {n : Nat} {l : List VcpuPtr} {pick : Pick}

theorem countP_add_one {P Q : VcpuPtr → Bool} (nodup : l.Nodup)
    (mem : v ∈ l) (hP : P v = false) (hQ : Q v = true) (h : ∀ w ∈ l, w ≠ v → Q w = P w) :
    l.countP Q = l.countP P + 1 := by
  obtain ⟨pre, post, rfl⟩ := List.append_of_mem mem
  obtain ⟨_, hpost, hdisjoint⟩ := List.nodup_append.mp nodup
  have hnot_post : v ∉ post := (List.nodup_cons.mp hpost).1
  have hpre : pre.countP Q = pre.countP P := by
    refine List.countP_congr fun w hw => ?_
    rw [h w (by simp [hw]) fun heq => hdisjoint w hw v List.mem_cons_self heq]
  have hpost : post.countP Q = post.countP P := by
    refine List.countP_congr fun w hw => ?_
    rw [h w (by simp [hw]) fun heq => hnot_post (heq ▸ hw)]
  simp only [List.countP_append, List.countP_cons, hP, hQ, hpre, hpost]
  simp only [if_true, Bool.false_eq_true, if_false]
  omega

/-- The number of VCPUs of `l` whose critical flag is set. -/
def criticalCount (hv : Hv) (l : List VcpuPtr) : Nat :=
  l.countP fun v => (hv.vcpus v).critical ≠ 0

/-- The number of those that can run. -/
def urgentCount (hv : Hv) (l : List VcpuPtr) : Nat := l.countP fun v => Urgent (hv.vcpus v)

theorem criticalCount_congr
    (h : ∀ v ∈ l, (hv'.vcpus v).critical = (hv.vcpus v).critical) :
    criticalCount hv' l = criticalCount hv l :=
  List.countP_congr fun v hv => by rw [h v hv]

theorem urgentCount_pos (mem : v ∈ l) (urgent : Urgent (hv.vcpus v)) : 0 < urgentCount hv l :=
  List.countP_pos_iff.mpr ⟨v, mem, decide_eq_true urgent⟩

/-- `hv'` is the state after the critical VCPU `v` was served: it executes, and its flag alone was
cleared. -/
structure Serves (hv : Hv) (v : VcpuPtr) (hv' : Hv) : Prop where
  urgent : Urgent (hv.vcpus v)
  executing : hv'.executing = some v
  cleared : (hv'.vcpus v).critical = 0
  critical : ∀ w, w ≠ v → (hv'.vcpus w).critical = (hv.vcpus w).critical
  priorityRem : ∀ w, (hv'.vcpus w).priorityRem = (hv.vcpus w).priorityRem
  state : ∀ w, (hv'.vcpus w).state = (hv.vcpus w).state
  pending : hv'.pending = hv.pending - 1

/-- `hv'` is the state after a tick that serves no critical VCPU. -/
structure Calm (hv hv' : Hv) : Prop where
  critical : ∀ w, (hv'.vcpus w).critical = (hv.vcpus w).critical
  state : ∀ w, (hv'.vcpus w).state = (hv.vcpus w).state
  pending : hv'.pending = hv.pending

/-- The scheduler's counter is the number of critical VCPUs. -/
structure Accounted (hv : Hv) (n : Nat) : Prop where
  ready : Ready hv n
  pending : hv.pending.toNat = criticalCount hv (List.range n)

theorem Serves.count (h : Serves hv v hv') (nodup : l.Nodup) (mem : v ∈ l) :
    criticalCount hv l = criticalCount hv' l + 1 := by
  apply countP_add_one nodup mem
  · simp [h.cleared]
  · simpa using h.urgent.1
  · intro w _ hw
    rw [h.critical w hw]

theorem Serves.urgentCount (h : Serves hv v hv') (nodup : l.Nodup) (mem : v ∈ l) :
    urgentCount hv l = urgentCount hv' l + 1 := by
  apply countP_add_one nodup mem
  · simp [Urgent, h.cleared]
  · simpa using h.urgent
  · intro w _ hw
    rw [decide_eq_decide, Urgent, Urgent, h.critical w hw, h.state w]

theorem contextSwitch_serves (p : Platform) (h : Outcome hv n l (.critical v) hv') :
    Serves hv v { contextSwitch p hv' (some v) with
      tickCount := (contextSwitch p hv' (some v)).tickCount + 1 } := by
  cases h with
  | critical pre v post q split calm urgent holds =>
    set hv' : Hv := { hv.setVcpu v (hv.vcpus v).served with
      readyList := q, pending := hv.pending - 1 } with hhv'
    have hsame := contextSwitch_same p hv' (some v)
    have hsched : ∀ w, ((contextSwitch p hv' (some v)).vcpus w).toVcpuSched =
        if w = v then (hv.vcpus v).served.toVcpuSched else (hv.vcpus w).toVcpuSched := by
      intro w
      rw [hsame.sched w, hhv']
      simp only [Hv.setVcpu_apply]
      split_ifs <;> rfl
    constructor
    · exact urgent
    · exact contextSwitch_executing p hv' (some v)
    · show ((contextSwitch p hv' (some v)).vcpus v).toVcpuSched.critical = 0
      rw [hsched, if_pos rfl]
      rfl
    · intro w hw
      show ((contextSwitch p hv' (some v)).vcpus w).toVcpuSched.critical = _
      rw [hsched, if_neg hw]
    · intro w
      show ((contextSwitch p hv' (some v)).vcpus w).toVcpuSched.priorityRem = _
      rw [hsched]
      split_ifs with heq
      · rw [heq]
        rfl
      · rfl
    · intro w
      show ((contextSwitch p hv' (some v)).vcpus w).toVcpuSched.state = _
      rw [hsched]
      split_ifs with heq
      · rw [heq]
        rfl
      · rfl
    · exact hsame.pending

theorem contextSwitch_calm (p : Platform) (h : Outcome hv n l pick hv')
    (hcalm : ∀ v, pick ≠ .critical v) : Calm hv { contextSwitch p hv' pick.vcpu with
      tickCount := (contextSwitch p hv' pick.vcpu).tickCount + 1 } := by
  have hsame := contextSwitch_same p hv' pick.vcpu
  have hcritical : (∀ w, (hv'.vcpus w).critical = (hv.vcpus w).critical) ∧
      hv'.pending = hv.pending := by
    cases h with
    | critical v => exact absurd rfl (hcalm _)
    | fair v q mem calm running low least holds =>
      refine ⟨fun w => ?_, rfl⟩
      simp only [picked, Function.update_apply, charged]
      split_ifs with hw hc
      · rw [hw]
      · rfl
      · rfl
    | idle q calm high holds => exact ⟨fun w => rfl, rfl⟩
  constructor
  · exact fun w => (congrArg VcpuSched.critical (hsame.sched w)).trans (hcritical.1 w)
  · exact fun w => (congrArg VcpuSched.state (hsame.sched w)).trans (h.state w)
  · exact hsame.pending.trans hcritical.2

/-! ### The counter over runs -/

/-- With a critical VCPU that can run, the next tick serves one. -/
theorem Accounted.serves (h : Accounted hv n) (p : Platform) (quantum : UInt32)
    (urgent : ∃ v < n, Urgent (hv.vcpus v)) :
    ∃ v < n, ∃ hv', runScheduler p quantum hv = .ok hv' ∧ Serves hv v hv' := by
  obtain ⟨w, hw, hurgent⟩ := urgent
  obtain ⟨l, hl, hholds⟩ := h.ready.list
  have hmem : w ∈ l := hl.mem_iff.mpr (List.mem_range.mpr hw)
  have hcount : 0 < criticalCount hv (List.range n) :=
    List.countP_pos_iff.mpr ⟨w, List.mem_range.mpr hw, by simpa using hurgent.1⟩
  have hpending : hv.pending ≠ 0 := by
    intro hzero
    have := h.pending
    rw [hzero, UInt32.toNat_zero] at this
    omega
  have hmust : mustSchedule quantum hv := Or.inr (Or.inl hpending)
  rcases runScheduler_cases p quantum hholds (IsRotated.nodup_range hl) with
    ⟨hnot, _⟩ | ⟨_, pick, hv', ho, hrun⟩
  · exact absurd hmust hnot
  · rcases pick with v | v | _
    · refine ⟨v, ?_, _, hrun, contextSwitch_serves p ho⟩
      cases ho with
      | critical pre v post q split =>
        exact List.mem_range.mp (hl.mem_iff.mp (by simp [split]))
    · cases ho with
      | fair v q mem calm => exact absurd hurgent (calm w hmem)
    · cases ho with
      | idle q calm => exact absurd hurgent (calm w hmem)

theorem Accounted.calm (h : Accounted hv n) (p : Platform) (quantum : UInt32)
    (calm : ¬∃ v < n, Urgent (hv.vcpus v)) :
    ∃ hv', runScheduler p quantum hv = .ok hv' ∧ Calm hv hv' := by
  obtain ⟨l, hl, hholds⟩ := h.ready.list
  rcases runScheduler_cases p quantum hholds (IsRotated.nodup_range hl) with
    ⟨_, hrun⟩ | ⟨_, pick, hv', ho, hrun⟩
  · exact ⟨_, hrun, fun _ => rfl, fun _ => rfl, rfl⟩
  · refine ⟨_, hrun, contextSwitch_calm p ho ?_⟩
    rintro v rfl
    cases ho with
    | critical pre v post q split _ urgent =>
      exact calm ⟨v, List.mem_range.mp (hl.mem_iff.mp (by simp [split])), urgent⟩

theorem Accounted.pending_pos (h : Accounted hv n) {v : VcpuPtr} (hv' : v < n)
    (hcritical : (hv.vcpus v).critical ≠ 0) : 1 ≤ hv.pending.toNat := by
  rw [h.pending]
  exact List.countP_pos_iff.mpr ⟨v, List.mem_range.mpr hv', by simpa using hcritical⟩

theorem Accounted.tick (h : Accounted hv n) (p : Platform) (quantum : UInt32) :
    ∃ hv', runScheduler p quantum hv = .ok hv' ∧ Accounted hv' n := by
  obtain ⟨hv', hrun, hready⟩ := h.ready.runScheduler p quantum
  refine ⟨hv', hrun, hready, ?_⟩
  by_cases urgent : ∃ v < n, Urgent (hv.vcpus v)
  · obtain ⟨v, hlt, hv'', hrun', hserves⟩ := h.serves p quantum urgent
    obtain rfl : hv'' = hv' := Except.ok.inj (hrun'.symm.trans hrun)
    have hcount := hserves.count List.nodup_range (List.mem_range.mpr hlt)
    have hpos := h.pending_pos hlt hserves.urgent.1
    have hle : (1 : UInt32) ≤ hv.pending := UInt32.le_iff_toNat_le.mpr hpos
    rw [hserves.pending, UInt32.toNat_sub_of_le _ _ hle, h.pending, hcount]
    exact Nat.add_sub_cancel _ 1
  · obtain ⟨hv'', hrun', hcalm⟩ := h.calm p quantum urgent
    obtain rfl : hv'' = hv' := Except.ok.inj (hrun'.symm.trans hrun)
    rw [hcalm.pending, h.pending, criticalCount_congr fun v _ => hcalm.critical v]

theorem Accounted.deliver (h : Accounted hv n) (hn : n < 2 ^ 32) {target : VcpuPtr}
    (htarget : target < n) : Accounted (fastInterruptDelivery hv target) n := by
  refine ⟨h.ready.fastInterruptDelivery target, ?_⟩
  unfold fastInterruptDelivery
  split_ifs with hexec hclear
  · have hcount : criticalCount { hv.setVcpu target { hv.vcpus target with critical := 1 } with
        pending := hv.pending + 1 } (List.range n) = criticalCount hv (List.range n) + 1 := by
      apply countP_add_one List.nodup_range (List.mem_range.mpr htarget)
      · simpa using hclear
      · simp
      · intro w _ hw
        simp [hw]
    have hle : criticalCount hv (List.range n) + 1 ≤ n := by
      rw [← hcount]
      exact List.countP_le_length.trans_eq List.length_range
    rw [hcount, ← h.pending]
    show (hv.pending + 1).toNat = hv.pending.toNat + 1
    rw [UInt32.toNat_add, UInt32.toNat_one, Nat.mod_eq_of_lt]
    rw [h.pending]
    omega
  · exact h.pending
  · exact h.pending

theorem setState_critical (hv : Hv) (v w : VcpuPtr) (state : VcpuState) :
    ((setState hv v state).vcpus w).critical = (hv.vcpus w).critical := by
  simp only [setState, Hv.setVcpu_apply]
  split_ifs with heq
  · rw [heq]
  · rfl

theorem Accounted.setState (h : Accounted hv n) (v : VcpuPtr) (state : VcpuState) :
    Accounted (setState hv v state) n := by
  refine ⟨h.ready.setState v state, ?_⟩
  rw [criticalCount_congr fun w _ => setState_critical hv v w state]
  exact h.pending

theorem Accounted.step (h : Accounted hv n) (hn : n < 2 ^ 32) (p : Platform) (quantum : UInt32)
    (e : Event) (htarget : ∀ target, e = .deliver target → target < n) :
    ∃ hv', step p quantum hv e = some hv' ∧ Accounted hv' n := by
  cases e with
  | tick =>
    obtain ⟨hv', hrun, hnext⟩ := h.tick p quantum
    exact ⟨hv', by rw [Kernel.step, hrun]; rfl, hnext⟩
  | deliver target => exact ⟨_, rfl, h.deliver hn (htarget target rfl)⟩
  | setState v state => exact ⟨_, rfl, h.setState v state⟩

theorem Booted.accounted {b : Boot} {vmconf : List VmConf}
    (h : Booted b vmconf.length vmconf) : Accounted b.hv vmconf.length := by
  refine ⟨h.isReady, ?_⟩
  rw [h.pending, eq_comm, UInt32.toNat_zero, criticalCount, List.countP_eq_zero]
  intro v hv
  simp [(h.vcpus v (List.mem_range.mp hv)).critical]

/-! ### All critical VCPUs are served -/

/-- In the run of `es` from `hv`, some tick serves the critical VCPU `v`. -/
def Served (p : Platform) (quantum : UInt32) (v : VcpuPtr) : Hv → List Event → Prop
  | _, [] => False
  | hv, e :: es =>
    match step p quantum hv e with
    | none => False
    | some hv' =>
      (e = .tick ∧ Urgent (hv.vcpus v) ∧ hv'.executing = some v ∧ (hv'.vcpus v).critical = 0) ∨
        Served p quantum v hv' es

instance Served.decidable (p : Platform) (quantum : UInt32) (v : VcpuPtr) :
    (hv : Hv) → (es : List Event) → Decidable (Served p quantum v hv es)
  | _, [] => inferInstanceAs (Decidable False)
  | hv, e :: es =>
    match h : step p quantum hv e with
    | none => decidable_of_iff False (by simp [Served, h])
    | some hv' =>
      have := Served.decidable p quantum v hv' es
      decidable_of_iff ((e = .tick ∧ Urgent (hv.vcpus v) ∧ hv'.executing = some v ∧
        (hv'.vcpus v).critical = 0) ∨ Served p quantum v hv' es) (by simp [Served, h])

/-- No critical event and no block happens in `es`. -/
def Quiet (es : List Event) : Prop := ∀ e ∈ es, e = .tick ∨ ∃ v, e = .setState v .running

/-- The event unblocks a critical VCPU of `l`. -/
def UnblocksCritical (hv : Hv) (l : List VcpuPtr) (e : Event) : Prop :=
  ∃ v ∈ l, e = .setState v .running ∧ (hv.vcpus v).state = .blocked ∧ (hv.vcpus v).critical ≠ 0

instance (hv : Hv) (l : List VcpuPtr) (e : Event) : Decidable (UnblocksCritical hv l e) :=
  inferInstanceAs (Decidable (∃ _ ∈ _, _))

/-- The number of such events in the run of `es` from `hv`. -/
def criticalUnblocks (p : Platform) (quantum : UInt32) (l : List VcpuPtr) : Hv → List Event → Nat
  | _, [] => 0
  | hv, e :: es =>
    (if UnblocksCritical hv l e then 1 else 0) +
      match step p quantum hv e with
      | none => 0
      | some hv' => criticalUnblocks p quantum l hv' es

theorem setState_urgent (hv : Hv) {v w : VcpuPtr} (h : Urgent (hv.vcpus v)) :
    Urgent ((setState hv w .running).vcpus v) := by
  simp only [setState, Hv.setVcpu_apply]
  split_ifs with heq
  · exact ⟨heq ▸ h.1, rfl⟩
  · exact h

theorem urgentCount_setState (hv : Hv) (nodup : l.Nodup) (w : VcpuPtr) :
    urgentCount (setState hv w .running) l ≤
      urgentCount hv l + if UnblocksCritical hv l (.setState w .running) then 1 else 0 := by
  by_cases hnew : UnblocksCritical hv l (.setState w .running)
  · rw [if_pos hnew]
    obtain ⟨v, mem, hevent, hblocked, hcritical⟩ := hnew
    obtain rfl : w = v := by injection hevent
    refine le_of_eq (countP_add_one nodup mem ?_ ?_ ?_)
    · simp [Urgent, hblocked]
    · simp [Urgent, setState, hcritical]
    · intro u _ hu
      rw [decide_eq_decide, setState, Hv.setVcpu_of_ne hv _ hu]
  · rw [if_neg hnew, Nat.add_zero]
    refine List.countP_mono_left fun v mem hurgent => ?_
    simp only [decide_eq_true_eq] at hurgent ⊢
    by_cases heq : v = w
    · subst heq
      simp only [Urgent, setState, Hv.setVcpu_self, and_true] at hurgent
      refine ⟨hurgent, ?_⟩
      cases hstate : (hv.vcpus v).state with
      | running => rfl
      | blocked => exact absurd ⟨v, mem, rfl, hstate, hurgent⟩ hnew
    · simpa [Urgent, setState, heq] using hurgent

/-- A critical VCPU that can run is served after as many ticks as there are such VCPUs and unblocks
of further ones.  By induction on the run: each tick serves another one until it is this one's
turn. -/
theorem Accounted.served (p : Platform) (quantum : UInt32) (es : List Event) :
    ∀ {hv : Hv}, Accounted hv n → n < 2 ^ 32 → Quiet es → ∀ v < n, Urgent (hv.vcpus v) →
      urgentCount hv (List.range n) + criticalUnblocks p quantum (List.range n) hv es ≤
        es.count .tick → Served p quantum v hv es := by
  induction es with
  | nil =>
    intro hv _ _ _ v hv' urgent hticks
    have hpos := urgentCount_pos (List.mem_range.mpr hv') urgent
    simp only [List.count_nil] at hticks
    omega
  | cons e es ih =>
    intro hv h hn quiet v hlt urgent hticks
    have hquiet : Quiet es := fun f hf => quiet f (List.mem_cons_of_mem _ hf)
    rcases quiet e List.mem_cons_self with rfl | ⟨w, rfl⟩
    · -- a tick serves `v`, or another VCPU that then no longer counts
      obtain ⟨w, hw, hv', hrun, hserves⟩ := h.serves p quantum ⟨v, hlt, urgent⟩
      have hstep : Kernel.step p quantum hv .tick = some hv' := by rw [Kernel.step, hrun]; rfl
      obtain ⟨hv'', hstep', hnext⟩ := h.step hn p quantum .tick (by simp)
      obtain rfl : hv'' = hv' := Option.some.inj (hstep'.symm.trans hstep)
      simp only [Served, hstep]
      by_cases heq : v = w
      · subst heq
        exact Or.inl ⟨trivial, urgent, hserves.executing, hserves.cleared⟩
      · refine Or.inr (ih hnext hn hquiet v hlt ⟨?_, ?_⟩ ?_)
        · rw [hserves.critical v heq]
          exact urgent.1
        · rw [hserves.state v]
          exact urgent.2
        · have hcount := hserves.urgentCount List.nodup_range (List.mem_range.mpr hw)
          simp only [criticalUnblocks, hstep, List.count_cons_self] at hticks
          omega
    · -- an unblock adds one to both sides at most
      obtain ⟨hv', hstep, hnext⟩ := h.step hn p quantum (.setState w .running) (by simp)
      obtain rfl : Kernel.setState hv w .running = hv' := Option.some.inj hstep
      simp only [Served, Kernel.step]
      refine Or.inr (ih hnext hn hquiet v hlt (setState_urgent hv urgent) ?_)
      have hcount := urgentCount_setState hv (List.nodup_range (n := n)) w
      simp only [criticalUnblocks, Kernel.step] at hticks
      rw [List.count_cons_of_ne (by simp)] at hticks
      omega

/-- The accounting of critical events in a state of `n` VCPUs. -/
structure CriticalAccounting (p : Platform) (quantum : UInt32) (hv : Hv) (n : Nat) : Prop where
  list : ∃ l, hv.readyList.Holds n l ∧ l ~r List.range n
  pending : hv.pending.toNat = criticalCount hv (List.range n)
  none : hv.pending = 0 ↔ ∀ v < n, (hv.vcpus v).critical = 0
  noUnderflow : ∀ v hv', roundRobinScheduler hv = .ok (.critical v, hv') →
    hv'.pending.toNat + 1 = hv.pending.toNat
  serves : (∃ v < n, Urgent (hv.vcpus v)) →
    ∃ v < n, ∃ hv', runScheduler p quantum hv = .ok hv' ∧ Serves hv v hv'
  allServed : ∀ es, Quiet es →
    urgentCount hv (List.range n) + criticalUnblocks p quantum (List.range n) hv es ≤
      es.count .tick → ∀ v < n, Urgent (hv.vcpus v) → Served p quantum v hv es

theorem Accounted.none (h : Accounted hv n) :
    hv.pending = 0 ↔ ∀ v < n, (hv.vcpus v).critical = 0 := by
  rw [← UInt32.toNat_inj, h.pending, UInt32.toNat_zero, criticalCount, List.countP_eq_zero]
  simp

theorem Accounted.accounting (h : Accounted hv n) (hn : n < 2 ^ 32) (p : Platform)
    (quantum : UInt32) : CriticalAccounting p quantum hv n where
  list := by
    obtain ⟨l, hl, hholds⟩ := h.ready.list
    exact ⟨l, hholds, hl⟩
  pending := h.pending
  none := h.none
  noUnderflow := by
    intro v hv' hcall
    obtain ⟨l, hl, hholds⟩ := h.ready.list
    obtain ⟨pick, hv'', hcall', ho⟩ :=
      roundRobinScheduler_outcome hholds (IsRotated.nodup_range hl)
    rw [hcall, Except.ok.injEq, Prod.mk.injEq] at hcall'
    obtain ⟨rfl, rfl⟩ := hcall'
    cases ho with
    | critical pre v post q split calm urgent holds =>
      have hlt : v < n := List.mem_range.mp (hl.mem_iff.mp (by simp [split]))
      have hpos := h.pending_pos hlt urgent.1
      have hle : (1 : UInt32) ≤ hv.pending := UInt32.le_iff_toNat_le.mpr hpos
      show (hv.pending - 1).toNat + 1 = hv.pending.toNat
      rw [UInt32.toNat_sub_of_le _ _ hle]
      exact Nat.sub_add_cancel hpos
  serves := h.serves p quantum
  allServed :=
    fun es quiet hticks v hv' urgent => h.served p quantum es hn quiet v hv' urgent hticks

/-- From the creation of the VMs on, `pending` counts the critical VCPUs and each of them that can
run is served in turn. -/
theorem critical_accounting (p : Platform) (quantum : UInt32) (power : Power)
    (vmconf : List VmConf) (halloc : AllocationsSucceed vmconf.length) (es : List Event)
    (htarget : ∀ v, .deliver v ∈ es → v < vmconf.length) :
    ∃ hv, run (step p quantum) (initializeMachines p power vmconf) es = some hv ∧
      CriticalAccounting p quantum hv vmconf.length := by
  have hn : vmconf.length < 2 ^ 32 := Nat.lt_of_succ_lt halloc.lt
  obtain ⟨hv, hrun, h⟩ := run_defined (fun hv e he h =>
    Accounted.step h hn p quantum e fun target heq => htarget target (heq ▸ he))
    (initializeMachines_booted p power vmconf).accounted
  exact ⟨hv, hrun, h.accounting hn p quantum⟩

theorem critical_accounting_pingPong :
    ∃ hv, run (step .pic32mz 5) (initializeMachines .pic32mz .cleared pingPong)
        [.tick, .deliver 1, .setState 0 .blocked, .deliver 0, .tick] = some hv ∧
      CriticalAccounting .pic32mz 5 hv 2 := by
  apply critical_accounting .pic32mz 5 .cleared pingPong (by decide)
  intro v hv
  simp only [List.mem_cons, Event.deliver.injEq, reduceCtorEq, List.not_mem_nil, or_false,
    false_or] at hv
  rcases hv with rfl | rfl
  · decide
  · decide

/-- With one critical VCPU that can run, a tick serves another one that was blocked and critical and
is unblocked before the tick. -/
theorem unblocked_served_first :
    ∃ hv, run (step .pic32mz 5) (initializeMachines .pic32mz .cleared pingPong)
        [.deliver 0, .deliver 1, .setState 0 .blocked] = some hv ∧
      Quiet [.setState 0 .running, .tick] ∧ urgentCount hv (List.range 2) = 1 ∧
      ([.setState 0 .running, .tick] : List Event).count .tick = 1 ∧
      Urgent (hv.vcpus 1) ∧ ¬Served .pic32mz 5 1 hv [.setState 0 .running, .tick] := by
  refine ⟨_, rfl, ?_, by decide, by decide, by decide, by decide⟩
  intro e he
  simp only [List.mem_cons, List.not_mem_nil, or_false] at he
  rcases he with rfl | rfl
  · exact Or.inr ⟨0, rfl⟩
  · exact Or.inl rfl

end PrplHypervisor.Kernel
