import PrplHypervisor.Kernel.Share

/-! Who gets the processor.  A call of the scheduler returns no VCPU only when none can run, and no
VCPU keeps another one out for more than 256 picks, unless a priority is at an edge of its range: a
VCPU with priority 255 is never below the initial best value, and one with priority 0 has nothing to
give up. -/

namespace PrplHypervisor.Kernel.Share

open Arch Lib.Runs Lib.Stride

/-- How often a call of the scheduler returned `v`. -/
def Shared.returned (s : Shared) (v : VcpuPtr) : Nat :=
  s.picks.countP fun pick => pick.vcpu = some v

/-- The scheduler returns `NULL` only if none of the `n` VCPUs can run. -/
def NeverIdle (hv : Hv) (n : Nat) : Prop :=
  ∀ hv', roundRobinScheduler hv = .ok (.idle, hv') → ∀ v < n, (hv.vcpus v).state ≠ .running

/-- None of the VCPUs in `l` is critical, and `v` and `w` can run. -/
structure Undisturbed (l : List VcpuPtr) (v w : VcpuPtr) (hv : Hv) : Prop where
  calm : ∀ u ∈ l, (hv.vcpus u).critical = 0
  first : (hv.vcpus v).state = .running
  second : (hv.vcpus w).state = .running

/-- While `v` and `w` can run and no VCPU is critical, `v` is not returned more than 256 times
without a return of `w`. -/
def NoMonopoly (p : Platform) (s : Shared) (n : Nat) : Prop :=
  ∀ v < n, ∀ w < n, ∀ es,
    Guarded (step p) (fun t _ => Undisturbed (List.range n) v w t.hv) s es →
    ∃ t, run (step p) s es = some t ∧
      (t.returned w = s.returned w → t.returned v ≤ s.returned v + 256)

variable {l : List VcpuPtr} {n : Nat} {period : VcpuPtr → Nat} {s t : Shared} {v w : VcpuPtr}

theorem Undisturbed.not_urgent {hv : Hv} (h : Undisturbed l v w hv) :
    ∀ u ∈ l, ¬Urgent (hv.vcpus u) := fun u hu hurgent => hurgent.1 (h.calm u hu)

/-! ### Priorities inside their range -/

/-- What holds in a run from `s` on which nothing disturbs `v` and `w`: the time that both gave up,
and that the fair picks are all picks. -/
structure Window (l : List VcpuPtr) (n : Nat) (period : VcpuPtr → Nat) (v w : VcpuPtr)
    (s t : Shared) : Prop where
  inv : Inv l n period ∅ t
  elapsed : ∃ time, Elapsed period {v, w} s.ledger time t.ledger
  fair : ∀ u, t.returned u + s.count u = s.returned u + t.count u

theorem Window.start (h : Inv l n period ∅ s) : Window l n period v w s s :=
  ⟨h, ⟨0, Elapsed.start period {v, w} s.ledger⟩, fun _ => rfl⟩

/-- A step that makes no call of the scheduler. -/
theorem Window.frame (h : Window l n period v w s t) {hv : Hv}
    (hinv : Inv l n period ∅ { t with hv := hv })
    (hrem : ∀ u, (hv.vcpus u).priorityRem = (t.hv.vcpus u).priorityRem) :
    Window l n period v w s { t with hv := hv } := by
  refine ⟨hinv, ?_, h.fair⟩
  have hledger : (Shared.mk hv t.picks).ledger = t.ledger := by
    simp only [Shared.ledger, Shared.count, hrem]
  rw [hledger]
  exact h.elapsed

theorem Window.outcome {hv' : Hv} {pick : Pick} {l' : List VcpuPtr}
    (h : Window l n period v w s t) (hl : l' ~r l) (hv : v ∈ l) (hw : w ∈ l)
    (hundisturbed : Undisturbed l v w t.hv) (ho : Outcome t.hv n l' pick hv') :
    Window l n period v w s ⟨hv', pick :: t.picks⟩ := by
  refine ⟨h.inv.outcome hl (fun u hu => absurd hu (Set.notMem_empty u)) ho, ?_, ?_⟩
  · obtain ⟨time, helapsed⟩ := h.elapsed
    cases ho with
    | critical pre u post q split calm urgent holds =>
      have hmem : u ∈ l := hl.mem_iff.mp (split ▸ List.mem_append_right pre List.mem_cons_self)
      exact absurd urgent (hundisturbed.not_urgent u hmem)
    | fair u q mem calm running low least holds =>
      refine ⟨_, helapsed.pick (fair_picks h.inv.priority least) ?_⟩
      rintro x (rfl | rfl)
      · exact ⟨hl.mem_iff.mpr hv, hundisturbed.first⟩
      · exact ⟨hl.mem_iff.mpr hw, hundisturbed.second⟩
    | idle q calm high holds =>
      refine ⟨time, ?_⟩
      rw [ledger_of_ne t.hv]
      · exact helapsed
      · exact fun u => rfl
      · simp
  · intro u
    have hfair := h.fair u
    cases ho with
    | critical pre x post q split calm urgent holds =>
      have hmem : x ∈ l := hl.mem_iff.mp (split ▸ List.mem_append_right pre List.mem_cons_self)
      exact absurd urgent (hundisturbed.not_urgent x hmem)
    | fair x q mem calm running low least holds =>
      simp only [Shared.returned, Shared.count, List.countP_cons, List.count_cons, Pick.vcpu,
        Option.some.injEq, decide_eq_true_eq, beq_iff_eq, Pick.fair.injEq] at hfair ⊢
      split_ifs <;> omega
    | idle q calm high holds =>
      simpa [Shared.returned, Shared.count, Pick.vcpu] using hfair

theorem Window.step (h : Window l n period v w s t) (nodup : l.Nodup) (hv : v ∈ l) (hw : w ∈ l)
    (hundisturbed : Undisturbed l v w t.hv) (p : Platform) (e : Event) :
    ∃ u, step p t e = some u ∧ Window l n period v w s u := by
  have hempty : ∀ x ∈ (∅ : Set VcpuPtr), x ∈ l := fun x hx => absurd hx (Set.notMem_empty x)
  cases e with
  | schedule =>
    obtain ⟨l', hl, hholds⟩ := h.inv.list
    obtain ⟨pick, hv', hcall, ho⟩ := roundRobinScheduler_outcome hholds (hl.nodup_iff.mpr nodup)
    exact ⟨_, by simp only [Share.step, hcall], h.outcome hl hv hw hundisturbed ho⟩
  | switchTo aux =>
    refine ⟨_, rfl, h.frame (h.inv.switchTo p aux) fun u => ?_⟩
    exact congrArg VcpuSched.priorityRem ((contextSwitch_same p t.hv aux).sched u)
  | deliver target =>
    refine ⟨_, rfl, h.frame (h.inv.deliver target) fun u => ?_⟩
    obtain ⟨critical, heq⟩ := fastInterruptDelivery_vcpu t.hv target u
    rw [heq]
  | setState x state =>
    refine ⟨_, rfl, h.frame (h.inv.setState fun hx => absurd hx (Set.notMem_empty x)) fun u => ?_⟩
    obtain ⟨state', heq⟩ := setState_vcpu t.hv x u state
    rw [heq]

theorem Window.bound (h : Window l n period v w s t) (hv : v ∈ l) (hpos : 0 < period v)
    (hw : (s.hv.vcpus w).priorityRem ≤ 255) (hsame : t.returned w = s.returned w) :
    t.returned v ≤ s.returned v + 256 := by
  obtain ⟨time, helapsed⟩ := h.elapsed
  obtain ⟨_, hbalanced⟩ := h.inv.balanced
  have hfair_v := h.fair v
  have hfair_w := h.fair w
  have hcount : t.count w = s.count w := by omega
  have hpicks := helapsed.picks_le (Or.inl rfl) (Or.inr rfl) (hbalanced.rem_le v hv) hcount
  have hrem : s.ledger.rem w ≤ 255 := UInt32.le_iff_toNat_le.mp hw
  have hmul : t.count v * period v ≤ (s.count v + 256) * period v := by
    have hle : 255 ≤ 255 * period v := Nat.le_mul_of_pos_right 255 hpos
    calc t.count v * period v
        ≤ (s.count v + 1) * period v + s.ledger.rem w := hpicks
      _ ≤ (s.count v + 1) * period v + 255 * period v := by omega
      _ = (s.count v + 256) * period v := by rw [← Nat.add_mul]
  have hle := Nat.le_of_mul_le_mul_right hmul hpos
  omega

/-- In a state that the scheduler reaches, priorities from 1 to 255 leave no monopoly. -/
theorem Inv.noMonopoly (h : Inv (List.range n) n period ∅ s) (hperiod : ∀ v < n, period v ≤ 255)
    (hpos : n ≤ 1 ∨ ∀ v < n, 0 < period v) (p : Platform) : NoMonopoly p s n := by
  intro v hv w hw es hguarded
  have hmem_v := List.mem_range.mpr hv
  have hmem_w := List.mem_range.mpr hw
  obtain ⟨t, hrun, hwindow⟩ := run_guarded
    (fun t e ht hguard => Window.step (n := n) ht List.nodup_range hmem_v hmem_w hguard p e)
    (Window.start h) hguarded
  refine ⟨t, hrun, fun hsame => ?_⟩
  by_cases hvw : v = w
  · subst hvw
    omega
  · have hperiod_v : 0 < period v := by
      rcases hpos with hone | hpos
      · omega
      · exact hpos v hv
    obtain ⟨_, hbalanced⟩ := h.balanced
    have hrem : (s.hv.vcpus w).priorityRem.toNat ≤ 255 :=
      (hbalanced.rem_le w hmem_w).trans (hperiod w hw)
    exact hwindow.bound hmem_v hperiod_v (UInt32.le_iff_toNat_le.mpr hrem) hsame

/-- With remainders below 255, a RUNNING VCPU is found. -/
theorem Inv.neverIdle (h : Inv (List.range n) n period ∅ s) (hperiod : ∀ v < n, period v < 255) :
    NeverIdle s.hv n := by
  intro hv' hcall v hv hrun
  obtain ⟨l', hl, hholds⟩ := h.list
  obtain ⟨pick, hv'', hcall', ho⟩ :=
    roundRobinScheduler_outcome hholds (hl.nodup_iff.mpr List.nodup_range)
  rw [hcall, Except.ok.injEq, Prod.mk.injEq] at hcall'
  obtain ⟨rfl, rfl⟩ := hcall'
  cases ho with
  | idle q calm high holds =>
    have hmem := List.mem_range.mpr hv
    obtain ⟨_, hbalanced⟩ := h.balanced
    have hle : (s.hv.vcpus v).priorityRem.toNat ≤ period v := hbalanced.rem_le v hmem
    have hhigh := UInt32.le_iff_toNat_le.mp (high v (hl.mem_iff.mpr hmem) hrun)
    have hlt := hperiod v hv
    rw [show (255 : UInt32).toNat = 255 from rfl] at hhigh
    omega

/-! ### Priorities at the edges -/

/-- The drivers block the VCPUs in `us`. -/
def blockAll (us : List VcpuPtr) : List Event := us.map fun u => .setState u .blocked

theorem run_blockAll (p : Platform) (us : List VcpuPtr) : ∀ s : Shared,
    ∃ hv, run (step p) s (blockAll us) = some { s with hv := hv } ∧
      hv.readyList = s.hv.readyList ∧ ∀ u, hv.vcpus u = { s.hv.vcpus u with
        state := if u ∈ us then .blocked else (s.hv.vcpus u).state } := by
  induction us with
  | nil => exact fun s => ⟨s.hv, rfl, rfl, fun u => by simp⟩
  | cons x us ih =>
    intro s
    obtain ⟨hv, hrun, hlist, hvcpus⟩ := ih { s with hv := setState s.hv x .blocked }
    refine ⟨hv, hrun, hlist, fun u => ?_⟩
    rw [hvcpus u, setState, Hv.setVcpu_apply]
    by_cases hux : u = x
    · subst hux
      simp
    · simp [hux]

/-- Of the `n` VCPUs, none critical and each at the start of its priority, those in `up` can run. -/
structure Alone (hv : Hv) (n : Nat) (up : List VcpuPtr) : Prop where
  ready : hv.readyList.Holds n (List.range n)
  calm : ∀ u < n, (hv.vcpus u).critical = 0
  rem : ∀ u < n, (hv.vcpus u).priorityRem = (hv.vcpus u).priority
  running : ∀ u < n, (hv.vcpus u).state = .running ↔ u ∈ up

theorem exists_alone (p : Platform) (power : Power) (vmconf : List VmConf) (up : List VcpuPtr) :
    ∃ es hv, run (step p) ⟨initializeMachines p power vmconf, []⟩ es = some ⟨hv, []⟩ ∧
      Alone hv vmconf.length up ∧
      ∀ v (h : v < vmconf.length), (hv.vcpus v).priority = vmconf[v].priority := by
  have hbooted := initializeMachines_booted p power vmconf
  obtain ⟨hv, hrun, hlist, hvcpus⟩ := run_blockAll p
    ((List.range vmconf.length).filter (· ∉ up)) ⟨initializeMachines p power vmconf, []⟩
  refine ⟨_, hv, hrun, ⟨?_, fun u hu => ?_, fun u hu => ?_, fun u hu => ?_⟩, fun v hv => ?_⟩
  · rw [hlist]
    exact hbooted.ready
  · rw [hvcpus u]
    exact (hbooted.vcpus u hu).critical
  · rw [hvcpus u]
    exact (hbooted.vcpus u hu).priorityRem.trans (hbooted.vcpus u hu).priority.symm
  · have hstate : ((initializeMachines p power vmconf).vcpus u).state = .running :=
      (hbooted.vcpus u hu).state
    rw [hvcpus u]
    by_cases hup : u ∈ up
    · simp [hup, hstate]
    · simp [hup, hu]
  · rw [hvcpus v]
    exact (hbooted.vcpus v hv).priority

theorem Alone.not_urgent {hv : Hv} {up : List VcpuPtr} (h : Alone hv n up) :
    ∀ u ∈ List.range n, ¬Urgent (hv.vcpus u) :=
  fun u hu hurgent => hurgent.1 (h.calm u (List.mem_range.mp hu))

/-- The only VCPU that can run is passed over when its priority is 255. -/
theorem Alone.idle {hv : Hv} {v : VcpuPtr} (h : Alone hv n [v]) (hv' : v < n)
    (hpriority : (hv.vcpus v).priority = 255) : ¬NeverIdle hv n := by
  intro hidle
  obtain ⟨pick, hv'', hcall, ho⟩ := roundRobinScheduler_outcome h.ready List.nodup_range
  cases ho with
  | critical pre u post q split calm urgent holds =>
    have hmem : u ∈ List.range n := split ▸ List.mem_append_right pre List.mem_cons_self
    exact h.not_urgent u hmem urgent
  | fair u q mem calm running low least holds =>
    have hu := List.mem_range.mp mem
    obtain rfl := List.mem_singleton.mp ((h.running u hu).mp running)
    rw [h.rem u hu, hpriority] at low
    exact absurd low (by decide)
  | idle q calm high holds =>
    exact hidle _ hcall v hv' ((h.running v hv').mpr List.mem_cons_self)

theorem best_congr {vcpus vcpus' : VcpuPtr → Vcpu}
    (hrem : ∀ u, (vcpus' u).priorityRem = (vcpus u).priorityRem)
    (hstate : ∀ u, (vcpus' u).state = (vcpus u).state) (highestp : UInt32) (aux : Option VcpuPtr) :
    best vcpus' l highestp aux = best vcpus l highestp aux := by
  induction l generalizing highestp aux with
  | nil => rfl
  | cons u l ih => simp only [best, hrem u, hstate u, ih]

/-- The search prefers `x`, which has nothing to give up and starts over with nothing. -/
structure Stuck (n : Nat) (x : VcpuPtr) (hv : Hv) : Prop where
  ready : hv.readyList.Holds n (List.range n)
  calm : ∀ u < n, (hv.vcpus u).critical = 0
  best : best hv.vcpus (List.range n) 255 none = some x
  rem : (hv.vcpus x).priorityRem = 0
  priority : (hv.vcpus x).priority = 0

/-- The next call returns `x` and leaves everything as it was. -/
theorem Stuck.schedule {hv : Hv} {x : VcpuPtr} (h : Stuck n x hv) :
    ∃ hv', roundRobinScheduler hv = .ok (.fair x, hv') ∧ Stuck n x hv' ∧
      ∀ u, (hv'.vcpus u).state = (hv.vcpus u).state := by
  have hcalm : ∀ u ∈ List.range n, ¬Urgent (hv.vcpus u) :=
    fun u hu hurgent => hurgent.1 (h.calm u (List.mem_range.mp hu))
  obtain ⟨q, hcall, hholds⟩ :=
    roundRobinScheduler_fair h.ready List.nodup_range hcalm h.best
  have hrem : ∀ u, (picked hv.vcpus (List.range n) x u).priorityRem =
      (hv.vcpus u).priorityRem := by
    intro u
    simp only [picked, Function.update_apply, charged]
    split_ifs with hux
    · rw [hux, h.rem, h.priority]
    · rw [h.rem, UInt32.sub_zero]
    · rfl
  have hother : ∀ u, (picked hv.vcpus (List.range n) x u).state = (hv.vcpus u).state ∧
      (picked hv.vcpus (List.range n) x u).critical = (hv.vcpus u).critical ∧
      (picked hv.vcpus (List.range n) x u).priority = (hv.vcpus u).priority := by
    intro u
    simp only [picked, Function.update_apply, charged]
    split_ifs with hux
    · rw [hux]
      exact ⟨rfl, rfl, rfl⟩
    · exact ⟨rfl, rfl, rfl⟩
    · exact ⟨rfl, rfl, rfl⟩
  refine ⟨_, hcall, ⟨hholds, fun u hu => ?_, ?_, ?_, ?_⟩, fun u => (hother u).1⟩
  · exact (hother u).2.1.trans (h.calm u hu)
  · rw [← h.best]
    exact best_congr hrem (fun u => (hother u).1) 255 none
  · exact (hrem x).trans h.rem
  · exact (hother x).2.2.trans h.priority

/-- So every further call does. -/
theorem Stuck.run {x y : VcpuPtr} (hxy : x ≠ y) (p : Platform) (k : Nat) : ∀ s : Shared,
    Stuck n x s.hv → (s.hv.vcpus x).state = .running → (s.hv.vcpus y).state = .running →
    Guarded (step p) (fun t _ => Undisturbed (List.range n) x y t.hv) s
        (List.replicate k .schedule) ∧
      ∃ t, run (step p) s (List.replicate k .schedule) = some t ∧
        t.returned x = s.returned x + k ∧ t.returned y = s.returned y := by
  induction k with
  | zero => exact fun s _ _ _ => ⟨trivial, s, rfl, rfl, rfl⟩
  | succ k ih =>
    intro s hstuck hx hy
    obtain ⟨hv', hcall, hnext, hstate⟩ := hstuck.schedule
    have hstep : step p s .schedule = some ⟨hv', .fair x :: s.picks⟩ := by
      simp only [step, hcall]
    obtain ⟨hguarded, t, hrun, hreturned_x, hreturned_y⟩ := ih ⟨hv', .fair x :: s.picks⟩ hnext
      ((hstate x).trans hx) ((hstate y).trans hy)
    refine ⟨⟨⟨fun u hu => hstuck.calm u (List.mem_range.mp hu), hx, hy⟩, fun u hu => ?_⟩, t,
      run_cons_of_step hstep hrun, ?_, ?_⟩
    · obtain rfl := Option.some.inj (hstep.symm.trans hu)
      exact hguarded
    · rw [hreturned_x]
      simp only [Shared.returned, List.countP_cons, Pick.vcpu, decide_true, if_true]
      omega
    · rw [hreturned_y]
      simp [Shared.returned, Pick.vcpu, hxy]

/-- Of two VCPUs that can run, one with priority 0, one keeps the other out. -/
theorem Alone.monopoly {hv : Hv} {v w : VcpuPtr} (h : Alone hv n [v, w]) (hv' : v < n) (hw : w < n)
    (hvw : v ≠ w) (hpriority : (hv.vcpus v).priority = 0) (p : Platform) :
    ¬NoMonopoly p ⟨hv, []⟩ n := by
  intro hno
  have hmem_v := List.mem_range.mpr hv'
  have hrunning_v := (h.running v hv').mpr List.mem_cons_self
  have hrunning_w := (h.running w hw).mpr (List.mem_cons_of_mem v List.mem_cons_self)
  have hrem_v : (hv.vcpus v).priorityRem = 0 := (h.rem v hv').trans hpriority
  rcases best_spec hv.vcpus (List.range n) 255 none with ⟨_, high⟩ | ⟨x, hx, hbest, hrun, _, hmin⟩
  · have hle := high v hmem_v hrunning_v
    rw [hrem_v] at hle
    exact absurd hle (by decide)
  -- the search prefers one of the two, and its remainder and its priority are 0
  have hx' := List.mem_range.mp hx
  have hrem_x : (hv.vcpus x).priorityRem = 0 := by
    have hle := hmin v hmem_v hrunning_v
    rw [hrem_v, UInt32.le_iff_toNat_le, UInt32.toNat_zero, Nat.le_zero] at hle
    exact UInt32.toNat_inj.mp hle
  have hstuck : Stuck n x hv := ⟨h.ready, h.calm, hbest, hrem_x, (h.rem x hx').symm.trans hrem_x⟩
  obtain ⟨y, hy, hxy, hrunning_y⟩ : ∃ y, y < n ∧ x ≠ y ∧ (hv.vcpus y).state = .running := by
    have hmem := (h.running x hx').mp hrun
    simp only [List.mem_cons, List.not_mem_nil, or_false] at hmem
    rcases hmem with rfl | rfl
    · exact ⟨w, hw, hvw, hrunning_w⟩
    · exact ⟨v, hv', hvw.symm, hrunning_v⟩
  obtain ⟨hguarded, t, hrun', hreturned_x, hreturned_y⟩ :=
    hstuck.run hxy p 257 ⟨hv, []⟩ hrun hrunning_y
  obtain ⟨t', hrun'', hbound⟩ := hno x hx' y hy _ hguarded
  obtain rfl := Option.some.inj (hrun'.symm.trans hrun'')
  have hle := hbound hreturned_y
  omega

/-- From the creation of VMs with any priorities up to 255, every reachable state is without an
idle processor and without a monopoly exactly when no priority is 255 and, with more than one VM,
none is 0. -/
theorem noIdle_noMonopoly_iff (p : Platform) (power : Power) (vmconf : List VmConf)
    (hpriority : ∀ conf ∈ vmconf, conf.priority ≤ 255) :
    (∀ es, ∃ s, run (step p) ⟨initializeMachines p power vmconf, []⟩ es = some s ∧
        NeverIdle s.hv vmconf.length ∧ NoMonopoly p s vmconf.length) ↔
      (∀ conf ∈ vmconf, conf.priority ≠ 255) ∧
        (vmconf.length ≤ 1 ∨ ∀ conf ∈ vmconf, conf.priority ≠ 0) := by
  constructor
  · intro h
    constructor
    · intro conf hconf heq
      obtain ⟨v, hv, rfl⟩ := List.mem_iff_getElem.mp hconf
      obtain ⟨es, hv', hrun, halone, hpriority'⟩ := exists_alone p power vmconf [v]
      obtain ⟨s, hrun', hidle, _⟩ := h es
      obtain rfl := Option.some.inj (hrun.symm.trans hrun')
      exact halone.idle hv ((hpriority' v hv).trans heq) hidle
    · by_contra hnot
      rw [not_or] at hnot
      obtain ⟨hlength, hzero⟩ := hnot
      simp only [not_forall, not_not] at hzero
      obtain ⟨conf, hconf, heq⟩ := hzero
      obtain ⟨v, hv, rfl⟩ := List.mem_iff_getElem.mp hconf
      obtain ⟨w, hw, hvw⟩ : ∃ w, w < vmconf.length ∧ v ≠ w := by
        by_cases hv0 : v = 0
        · exact ⟨1, by omega, by omega⟩
        · exact ⟨0, by omega, hv0⟩
      obtain ⟨es, hv', hrun, halone, hpriority'⟩ := exists_alone p power vmconf [v, w]
      obtain ⟨s, hrun', _, hno⟩ := h es
      obtain rfl := Option.some.inj (hrun.symm.trans hrun')
      exact halone.monopoly hv hw hvw ((hpriority' v hv).trans heq) p hno
  · rintro ⟨htop, hzero⟩ es
    have hbooted := initializeMachines_booted p power vmconf
    have hempty : ∀ x ∈ (∅ : Set VcpuPtr), x ∈ List.range vmconf.length :=
      fun x hx => absurd hx (Set.notMem_empty x)
    have hinv := (Booted.start hbooted).inv ∅ hempty fun x hx => absurd hx (Set.notMem_empty x)
    obtain ⟨s, hrun, hs⟩ : ∃ s, run (step p) _ es = some s ∧ _ := run_defined
      (fun s e _ hs => Inv.step hs List.nodup_range hempty p e
        fun x hx => absurd hx (Set.notMem_empty x)) hinv
    have hperiod : ∀ v (hv : v < vmconf.length),
        ((initializeMachines p power vmconf).vcpus v).priority = vmconf[v].priority :=
      fun v hv => (hbooted.vcpus v hv).priority
    have hle : ∀ v < vmconf.length,
        ((initializeMachines p power vmconf).vcpus v).priority.toNat ≤ 255 := by
      intro v hv
      rw [hperiod v hv]
      exact UInt32.le_iff_toNat_le.mp (hpriority _ (List.getElem_mem hv))
    refine ⟨s, hrun, hs.neverIdle fun v hv => ?_,
      hs.noMonopoly hle (hzero.imp_right fun hzero v hv => ?_) p⟩
    · have hne : vmconf[v].priority.toNat ≠ 255 :=
        fun heq => htop _ (List.getElem_mem hv) (UInt32.toNat_inj.mp heq)
      exact Nat.lt_of_le_of_ne (hle v hv) (hperiod v hv ▸ hne)
    · have hne : vmconf[v].priority.toNat ≠ 0 :=
        fun heq => hzero _ (List.getElem_mem hv) (UInt32.toNat_inj.mp heq)
      show 0 < ((initializeMachines p power vmconf).vcpus v).priority.toNat
      rw [hperiod v hv]
      exact Nat.pos_of_ne_zero hne

theorem noIdle_noMonopoly_pingPong :
    (∀ conf ∈ pingPong, conf.priority ≤ 255) ∧
      ∀ es, ∃ s,
        run (step .pic32mz) ⟨initializeMachines .pic32mz .cleared pingPong, []⟩ es = some s ∧
          NeverIdle s.hv 2 ∧ NoMonopoly .pic32mz s 2 :=
  ⟨by decide, (noIdle_noMonopoly_iff .pic32mz .cleared pingPong (by decide)).mpr
    ⟨by decide, Or.inr (by decide)⟩⟩

/-- Two VMs with priority 255, and both VCPUs can run: the scheduler returns `NULL`. -/
theorem top_priority_idle :
    ¬NeverIdle (initializeMachines .pic32mz .cleared
      (pingPong.map fun conf => { conf with priority := 255 })) 2 := by
  intro h
  exact h _ rfl 0 (by decide) rfl

end PrplHypervisor.Kernel.Share
