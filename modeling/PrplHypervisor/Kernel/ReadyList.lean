import Mathlib.Data.List.Rotate
import PrplHypervisor.Kernel.Vm
import PrplHypervisor.Lib.Runs

/-! The ready list over whole runs.  From `initializeMachines` on, ticks, fast interrupts and
VCPUs that block and unblock only rotate the list, so it always holds every VCPU once, and
`get_vcpu_from_id` finds each VCPU by its id. -/

namespace PrplHypervisor.Kernel

open Arch Lib.Runs

/-! ### What a call of the scheduler leaves alone -/

theorem Outcome.vcpu {hv hv' : Hv} {n : Nat} {l : List VcpuPtr} {pick : Pick}
    (h : Outcome hv n l pick hv') (w : VcpuPtr) :
    ∃ critical priorityRem bgjobs, hv'.vcpus w = { hv.vcpus w with
      critical := critical, priorityRem := priorityRem, bgjobs := bgjobs } := by
  cases h with
  | critical pre v post q split calm urgent holds =>
    simp only [Hv.setVcpu_apply]
    split_ifs with hw
    · subst hw
      exact ⟨0, (hv.vcpus w).priorityRem, (hv.vcpus w).bgjobs + 1, rfl⟩
    · exact ⟨_, _, _, rfl⟩
  | fair v q mem calm running low least holds =>
    simp only [picked, Function.update_apply, charged]
    split_ifs with hw hc
    · subst hw
      exact ⟨(hv.vcpus w).critical, (hv.vcpus w).priority, (hv.vcpus w).bgjobs + 1, rfl⟩
    · exact ⟨(hv.vcpus w).critical, _, (hv.vcpus w).bgjobs, rfl⟩
    · exact ⟨_, _, _, rfl⟩
  | idle q calm high holds => exact ⟨_, _, _, rfl⟩

theorem Outcome.id {hv hv' : Hv} {n : Nat} {l : List VcpuPtr} {pick : Pick}
    (h : Outcome hv n l pick hv') (w : VcpuPtr) : (hv'.vcpus w).id = (hv.vcpus w).id := by
  obtain ⟨_, _, _, heq⟩ := h.vcpu w
  rw [heq]

theorem Outcome.vm {hv hv' : Hv} {n : Nat} {l : List VcpuPtr} {pick : Pick}
    (h : Outcome hv n l pick hv') (w : VcpuPtr) : (hv'.vcpus w).vm = (hv.vcpus w).vm := by
  obtain ⟨_, _, _, heq⟩ := h.vcpu w
  rw [heq]

theorem Outcome.state {hv hv' : Hv} {n : Nat} {l : List VcpuPtr} {pick : Pick}
    (h : Outcome hv n l pick hv') (w : VcpuPtr) : (hv'.vcpus w).state = (hv.vcpus w).state := by
  obtain ⟨_, _, _, heq⟩ := h.vcpu w
  rw [heq]

theorem Outcome.priority {hv hv' : Hv} {n : Nat} {l : List VcpuPtr} {pick : Pick}
    (h : Outcome hv n l pick hv') (w : VcpuPtr) :
    (hv'.vcpus w).priority = (hv.vcpus w).priority := by
  obtain ⟨_, _, _, heq⟩ := h.vcpu w
  rw [heq]

theorem Outcome.context {hv hv' : Hv} {n : Nat} {l : List VcpuPtr} {pick : Pick}
    (h : Outcome hv n l pick hv') (w : VcpuPtr) :
    (hv'.vcpus w).toVcpuContext = (hv.vcpus w).toVcpuContext := by
  obtain ⟨_, _, _, heq⟩ := h.vcpu w
  rw [heq]

theorem Outcome.executing_eq {hv hv' : Hv} {n : Nat} {l : List VcpuPtr} {pick : Pick}
    (h : Outcome hv n l pick hv') : hv'.executing = hv.executing := by
  cases h <;> rfl

theorem Outcome.cpu_eq {hv hv' : Hv} {n : Nat} {l : List VcpuPtr} {pick : Pick}
    (h : Outcome hv n l pick hv') : hv'.cpu = hv.cpu := by
  cases h <;> rfl

theorem Outcome.rotated {hv hv' : Hv} {n : Nat} {l : List VcpuPtr} {pick : Pick}
    (h : Outcome hv n l pick hv') : ∃ l', l' ~r l ∧ hv'.readyList.Holds n l' := by
  cases h with
  | critical pre v post q split calm urgent holds =>
    refine ⟨_, ?_, holds⟩
    rw [split, ← List.append_assoc]
    have hrot : (pre ++ [v]) ++ post ~r post ++ (pre ++ [v]) := List.isRotated_append
    simpa using hrot.symm
  | fair v q mem calm running low least holds => exact ⟨l, List.IsRotated.refl l, holds⟩
  | idle q calm high holds => exact ⟨l, List.IsRotated.refl l, holds⟩

/-- `run_scheduler` only counts the tick, or makes a call of the scheduler and switches to its
result. -/
theorem runScheduler_cases {hv : Hv} {n : Nat} {l : List VcpuPtr} (p : Platform) (quantum : UInt32)
    (h : hv.readyList.Holds n l) (nodup : l.Nodup) :
    (¬mustSchedule quantum hv ∧
        runScheduler p quantum hv = .ok { hv with tickCount := hv.tickCount + 1 }) ∨
      (mustSchedule quantum hv ∧ ∃ pick hv', Outcome hv n l pick hv' ∧
        runScheduler p quantum hv = .ok { contextSwitch p hv' pick.vcpu with
          tickCount := (contextSwitch p hv' pick.vcpu).tickCount + 1 }) := by
  by_cases hmust : mustSchedule quantum hv
  · obtain ⟨pick, hv', hcall, houtcome⟩ := roundRobinScheduler_outcome h nodup
    refine Or.inr ⟨hmust, pick, hv', houtcome, ?_⟩
    simp only [runScheduler, hmust, if_true, hcall, bind, Except.bind]
  · exact Or.inl ⟨hmust, by simp only [runScheduler, hmust, if_false, bind, Except.bind]⟩

theorem fastInterruptDelivery_vcpu (hv : Hv) (target v : VcpuPtr) :
    ∃ critical, (fastInterruptDelivery hv target).vcpus v =
      { hv.vcpus v with critical := critical } := by
  unfold fastInterruptDelivery
  split_ifs
  · simp only [Hv.setVcpu_apply]
    split_ifs with heq
    · exact ⟨1, by rw [heq]⟩
    · exact ⟨_, rfl⟩
  · exact ⟨_, rfl⟩
  · exact ⟨_, rfl⟩

theorem fastInterruptDelivery_readyList (hv : Hv) (target : VcpuPtr) :
    (fastInterruptDelivery hv target).readyList = hv.readyList := by
  unfold fastInterruptDelivery
  split_ifs <;> rfl

theorem setState_vcpu (hv : Hv) (v w : VcpuPtr) (state : VcpuState) :
    ∃ s, (setState hv v state).vcpus w = { hv.vcpus w with state := s } := by
  simp only [setState, Hv.setVcpu_apply]
  split_ifs with heq
  · exact ⟨state, by rw [heq]⟩
  · exact ⟨_, rfl⟩

/-! ### Runs of the kernel -/

/-- What happens to the scheduler: a timer tick, a driver's fast interrupt for `target`, or a VCPU
that a driver blocks or unblocks. -/
inductive Event
  | tick
  | deliver (target : VcpuPtr)
  | setState (v : VcpuPtr) (state : VcpuState)
  deriving DecidableEq, Repr

def step (p : Platform) (quantum : UInt32) (hv : Hv) : Event → Option Hv
  | .tick => (runScheduler p quantum hv).toOption
  | .deliver target => some (fastInterruptDelivery hv target)
  | .setState v state => some (setState hv v state)

/-- The ready list is a rotation of the created VCPUs, whose ids and VM ids count from 1. -/
structure Ready (hv : Hv) (n : Nat) : Prop where
  list : ∃ l, l ~r List.range n ∧ hv.readyList.Holds n l
  ids : ∀ v < n, (hv.vcpus v).id = UInt32.ofNat (v + 1)
  vmIds : ∀ v < n, (hv.vcpus v).vm.id = UInt32.ofNat (v + 1)

theorem Booted.isReady {b : Boot} {vmconf : List VmConf} (h : Booted b vmconf.length vmconf) :
    Ready b.hv vmconf.length where
  list := ⟨_, List.IsRotated.refl _, h.ready⟩
  ids := fun v hv => (h.vcpus v hv).id
  vmIds := fun v hv => (h.vcpus v hv).vmId

theorem IsRotated.nodup_range {l : List Nat} {n : Nat} (h : l ~r List.range n) : l.Nodup :=
  h.nodup_iff.mpr List.nodup_range

theorem Ready.fastInterruptDelivery {hv : Hv} {n : Nat} (h : Ready hv n) (target : VcpuPtr) :
    Ready (fastInterruptDelivery hv target) n := by
  constructor
  · rw [fastInterruptDelivery_readyList]
    exact h.list
  · intro v hv'
    obtain ⟨critical, heq⟩ := fastInterruptDelivery_vcpu hv target v
    rw [heq, h.ids v hv']
  · intro v hv'
    obtain ⟨critical, heq⟩ := fastInterruptDelivery_vcpu hv target v
    rw [heq, h.vmIds v hv']

theorem Ready.setState {hv : Hv} {n : Nat} (h : Ready hv n) (w : VcpuPtr) (state : VcpuState) :
    Ready (setState hv w state) n := by
  constructor
  · exact h.list
  · intro v hv'
    obtain ⟨s, heq⟩ := setState_vcpu hv w v state
    rw [heq, h.ids v hv']
  · intro v hv'
    obtain ⟨s, heq⟩ := setState_vcpu hv w v state
    rw [heq, h.vmIds v hv']

theorem Ready.outcome {hv hv' : Hv} {n : Nat} {l : List VcpuPtr} {pick : Pick} (h : Ready hv n)
    (hl : l ~r List.range n) (ho : Outcome hv n l pick hv') : Ready hv' n := by
  obtain ⟨l', hrot, hholds⟩ := ho.rotated
  exact ⟨⟨l', hrot.trans hl, hholds⟩, fun v hv => (ho.id v).trans (h.ids v hv),
    fun v hv => by rw [ho.vm v, h.vmIds v hv]⟩

theorem Ready.same {hv hv' : Hv} {n : Nat} (h : Ready hv n) (hs : SameKernel hv hv') :
    Ready hv' n := by
  obtain ⟨l, hl, hholds⟩ := h.list
  refine ⟨⟨l, hl, hs.readyList ▸ hholds⟩, fun v hv => ?_, fun v hv => ?_⟩
  · rw [congrArg VcpuSched.id (hs.sched v), h.ids v hv]
  · rw [hs.vm v, h.vmIds v hv]

theorem Ready.runScheduler {hv : Hv} {n : Nat} (h : Ready hv n) (p : Platform)
    (quantum : UInt32) : ∃ hv', runScheduler p quantum hv = .ok hv' ∧ Ready hv' n := by
  obtain ⟨l, hl, hholds⟩ := h.list
  rcases runScheduler_cases p quantum hholds (IsRotated.nodup_range hl) with
    ⟨_, hrun⟩ | ⟨_, pick, hv', ho, hrun⟩
  · exact ⟨_, hrun, h.list, h.ids, h.vmIds⟩
  · have hswitch := (h.outcome hl ho).same (contextSwitch_same p hv' pick.vcpu)
    exact ⟨_, hrun, hswitch.list, hswitch.ids, hswitch.vmIds⟩

theorem Ready.step {hv : Hv} {n : Nat} (h : Ready hv n) (p : Platform) (quantum : UInt32)
    (e : Event) : ∃ hv', step p quantum hv e = some hv' ∧ Ready hv' n := by
  cases e with
  | tick =>
    obtain ⟨hv', hrun, hready⟩ := h.runScheduler p quantum
    exact ⟨hv', by rw [Kernel.step, hrun]; rfl, hready⟩
  | deliver target => exact ⟨_, rfl, h.fastInterruptDelivery target⟩
  | setState v state => exact ⟨_, rfl, h.setState v state⟩

theorem Ready.run {hv : Hv} {n : Nat} (h : Ready hv n) (p : Platform) (quantum : UInt32)
    (es : List Event) : ∃ hv', run (Kernel.step p quantum) hv es = some hv' ∧ Ready hv' n :=
  run_defined (fun _ e _ hs => hs.step p quantum e) h

/-! ### Looking up a VCPU -/

theorem findVcpu_eq {hv : Hv} {n : Nat} {l : List VcpuPtr} (h : hv.readyList.Holds n l)
    (id : UInt32) (k : Nat) : ∀ i, i + k = l.length →
      findVcpu hv id k i = .ok ((l.drop i).find? fun v => (hv.vcpus v).id = id) := by
  induction k with
  | zero =>
    intro i hi
    rw [List.drop_eq_nil_of_le (by omega)]
    rfl
  | succ k ih =>
    intro i hi
    have hlt : i < l.length := by omega
    rw [findVcpu, h.get, List.getElem?_eq_getElem hlt, List.drop_eq_getElem_cons hlt,
      List.find?_cons]
    simp only [ih (i + 1) (by omega)]
    by_cases hid : (hv.vcpus l[i]).id = id
    · simp [hid]
    · simp [hid]

theorem getVcpuFromId_eq {hv : Hv} {n : Nat} {l : List VcpuPtr} (h : hv.readyList.Holds n l)
    (id : UInt32) :
    getVcpuFromId hv id = .ok (l.find? fun v => (hv.vcpus v).id = id) := by
  have hcount : (queueCount hv.readyList).toNat = l.length := by
    rw [h.count]
    rfl
  rw [getVcpuFromId, hcount, findVcpu_eq h id l.length 0 (by omega), List.drop_zero]

theorem AllocationsSucceed.lt {n : Nat} (h : AllocationsSucceed n) : n + 1 < 2 ^ 32 := by
  simp only [AllocationsSucceed, sizeofVcpu] at h
  omega

theorem toNat_vcpuId {v n : Nat} (h : AllocationsSucceed n) (hv : v < n) :
    (UInt32.ofNat (v + 1)).toNat = v + 1 := by
  have := h.lt
  exact UInt32.toNat_ofNat_of_lt' (by simp only [UInt32.size]; omega)

theorem Ready.getVcpuFromId {hv : Hv} {n : Nat} (h : Ready hv n) (halloc : AllocationsSucceed n)
    {v : Nat} (hv' : v < n) :
    getVcpuFromId hv (UInt32.ofNat (v + 1)) = .ok (some v) := by
  obtain ⟨l, hl, hholds⟩ := h.list
  rw [getVcpuFromId_eq hholds]
  have hmem : v ∈ l := hl.mem_iff.mpr (List.mem_range.mpr hv')
  cases hfind : l.find? fun w => (hv.vcpus w).id = UInt32.ofNat (v + 1) with
  | none =>
    have := List.find?_eq_none.mp hfind v hmem
    simp [h.ids v hv'] at this
  | some w =>
    have hw : w < n := List.mem_range.mp (hl.mem_iff.mp (List.mem_of_find?_eq_some hfind))
    have hid : (hv.vcpus w).id = UInt32.ofNat (v + 1) := by
      simpa using List.find?_some hfind
    rw [h.ids w hw, ← UInt32.toNat_inj, toNat_vcpuId halloc hw, toNat_vcpuId halloc hv'] at hid
    rw [Nat.add_right_cancel hid]

/-- The VCPU that is found is the one with the number. -/
theorem Ready.id_of_found {hv : Hv} {n : Nat} (h : Ready hv n) {id : UInt32} {v : VcpuPtr}
    (hfound : Kernel.getVcpuFromId hv id = .ok (some v)) : v < n ∧ id = UInt32.ofNat (v + 1) := by
  obtain ⟨l, hl, hholds⟩ := h.list
  rw [getVcpuFromId_eq hholds, Except.ok.injEq] at hfound
  have hlt : v < n := List.mem_range.mp (hl.mem_iff.mp (List.mem_of_find?_eq_some hfound))
  have hid : (hv.vcpus v).id = id := by simpa using List.find?_some hfound
  exact ⟨hlt, hid.symm.trans (h.ids v hlt)⟩

theorem Ready.getVcpuFromId_none {hv : Hv} {n : Nat} (h : Ready hv n)
    (halloc : AllocationsSucceed n) {i : UInt32} (hi : ¬(1 ≤ i.toNat ∧ i.toNat ≤ n)) :
    Kernel.getVcpuFromId hv i = .ok none := by
  obtain ⟨l, hl, hholds⟩ := h.list
  rw [getVcpuFromId_eq hholds, List.find?_eq_none.mpr]
  intro w hw hid
  have hlt : w < n := List.mem_range.mp (hl.mem_iff.mp hw)
  have hnat : (UInt32.ofNat (w + 1)).toNat = i.toNat := by
    rw [← h.ids w hlt, of_decide_eq_true hid]
  rw [toNat_vcpuId halloc hlt] at hnat
  exact hi (hnat ▸ ⟨Nat.succ_pos w, hlt⟩)

/-- The ready list of `n` VCPUs holds exactly the created ones, in an order in which their ids are
a rotation of 1, ..., `n`; the scheduler does not fail on it; and an id finds its VCPU. -/
structure ReadyListIntegrity (hv : Hv) (n : Nat) : Prop where
  rotation : ∃ l, hv.readyList.Holds n l ∧ l ~r List.range n ∧
    (l.map fun v => (hv.vcpus v).id.toNat) ~r List.range' 1 n
  noError : ∀ e, roundRobinScheduler hv ≠ .error e
  found : ∀ i : UInt32, 1 ≤ i.toNat → i.toNat ≤ n →
    ∃ v < n, getVcpuFromId hv i = .ok (some v) ∧ (hv.vcpus v).id = i ∧ (hv.vcpus v).vm.id = i
  notFound : ∀ i : UInt32, ¬(1 ≤ i.toNat ∧ i.toNat ≤ n) → getVcpuFromId hv i = .ok none

theorem Ready.integrity {hv : Hv} {n : Nat} (h : Ready hv n) (halloc : AllocationsSucceed n) :
    ReadyListIntegrity hv n := by
  obtain ⟨l, hl, hholds⟩ := h.list
  constructor
  · refine ⟨l, hholds, hl, ?_⟩
    have hmap : (List.range n).map (fun v => (hv.vcpus v).id.toNat) = List.range' 1 n := by
      rw [List.range'_eq_map_range]
      refine List.map_congr_left fun v hv' => ?_
      have hlt := List.mem_range.mp hv'
      rw [h.ids v hlt, toNat_vcpuId halloc hlt, Nat.add_comm]
    rw [← hmap]
    exact hl.map _
  · intro e herr
    obtain ⟨_, _, hok, _⟩ := roundRobinScheduler_outcome hholds (IsRotated.nodup_range hl)
    rw [hok] at herr
    cases herr
  · intro i hpos hle
    have hi : UInt32.ofNat (i.toNat - 1 + 1) = i := by
      rw [Nat.sub_add_cancel hpos, UInt32.ofNat_toNat]
    have hlt : i.toNat - 1 < n := by omega
    refine ⟨i.toNat - 1, hlt, ?_, ?_, ?_⟩
    · rw [← hi, UInt32.toNat_ofNat_of_lt' (by rw [Nat.sub_add_cancel hpos]; exact i.toNat_lt)]
      exact h.getVcpuFromId halloc hlt
    · rw [h.ids _ hlt, hi]
    · rw [h.vmIds _ hlt, hi]
  · exact fun i hi => h.getVcpuFromId_none halloc hi

/-- From the creation of the VMs on, every run is defined and keeps the ready list. -/
theorem readyList_integrity (p : Platform) (quantum : UInt32) (power : Power)
    (vmconf : List VmConf) (halloc : AllocationsSucceed vmconf.length) (es : List Event) :
    ∃ hv, run (step p quantum) (initializeMachines p power vmconf) es = some hv ∧
      ReadyListIntegrity hv vmconf.length := by
  obtain ⟨hv, hrun, hready⟩ :=
    (initializeMachines_booted p power vmconf).isReady.run p quantum es
  exact ⟨hv, hrun, hready.integrity halloc⟩

theorem readyList_integrity_pingPong :
    ∃ hv, run (step .pic32mz 5) (initializeMachines .pic32mz .cleared pingPong)
        [.tick, .deliver 1, .setState 0 .blocked, .tick] = some hv ∧ ReadyListIntegrity hv 2 :=
  readyList_integrity .pic32mz 5 .cleared pingPong (by decide) _

end PrplHypervisor.Kernel
