import PrplHypervisor.Kernel.ReadyList
import PrplHypervisor.Lib.Stride

/-! The shares that the scheduler gives.  A fair pick of `round_robin_scheduler` is a step of stride
scheduling with the priorities as periods, so the VCPUs that never block are picked in inverse
proportion to their priorities, whatever else happens in between. -/

namespace PrplHypervisor.Kernel.Share

open Arch Lib.Runs Lib.Stride

/-- The kernel with the results that the scheduler returned so far, latest first. -/
structure Shared where
  hv : Hv
  picks : List Pick

/-- A call of the scheduler, a switch that its caller makes, a fast interrupt, or a VCPU that
blocks or unblocks. -/
inductive Event
  | schedule
  | switchTo (aux : Option VcpuPtr)
  | deliver (target : VcpuPtr)
  | setState (v : VcpuPtr) (state : VcpuState)
  deriving DecidableEq, Repr

def step (p : Platform) (s : Shared) : Event → Option Shared
  | .schedule =>
    match roundRobinScheduler s.hv with
    | .ok (pick, hv) => some { hv := hv, picks := pick :: s.picks }
    | .error _ => none
  | .switchTo aux => some { s with hv := contextSwitch p s.hv aux }
  | .deliver target => some { s with hv := fastInterruptDelivery s.hv target }
  | .setState v state => some { s with hv := setState s.hv v state }

/-- How often the non-critical path returned `v`. -/
def Shared.count (s : Shared) (v : VcpuPtr) : Nat := s.picks.count (.fair v)

/-- The remainders and the pick counts as a ledger, in naturals. -/
def Shared.ledger (s : Shared) : Ledger VcpuPtr where
  rem := fun v => (s.hv.vcpus v).priorityRem.toNat
  picks := fun v => s.count v

/-- The VCPU `v` stays RUNNING in a run of `es` from `hv`. -/
def StaysRunning (hv : Hv) (es : List Event) (v : VcpuPtr) : Prop :=
  (hv.vcpus v).state = .running ∧ .setState v .blocked ∉ es

/-- The remainders of the ready list `l` are within the priorities, and the update loop of the next
call does not wrap. -/
structure NoWrap (hv : Hv) (l : List VcpuPtr) : Prop where
  rem_le : ∀ v ∈ l, (hv.vcpus v).priorityRem ≤ (hv.vcpus v).priority
  charge : ∀ v hv', roundRobinScheduler hv = .ok (.fair v, hv') → ∀ w ∈ l, w ≠ v →
    (hv.vcpus w).state = .running →
    (hv'.vcpus w).priorityRem.toNat + (hv.vcpus v).priorityRem.toNat =
      (hv.vcpus w).priorityRem.toNat

/-- What runs keep: the ready list, the priorities, the steady VCPUs RUNNING, and the balance of the
remainders. -/
structure Inv (l : List VcpuPtr) (n : Nat) (period : VcpuPtr → Nat) (steady : Set VcpuPtr)
    (s : Shared) : Prop where
  list : ∃ l', l' ~r l ∧ s.hv.readyList.Holds n l'
  priority : ∀ v, (s.hv.vcpus v).priority.toNat = period v
  running : ∀ v ∈ steady, (s.hv.vcpus v).state = .running
  balanced : ∃ time, Balanced period {v | v ∈ l} steady time s.ledger

variable {l : List VcpuPtr} {n : Nat} {period : VcpuPtr → Nat} {steady : Set VcpuPtr}
variable {s : Shared}

theorem Inv.frame {hv hv' : Hv} {picks : List Pick} (h : Inv l n period steady ⟨hv, picks⟩)
    (hlist : hv'.readyList = hv.readyList)
    (hpriority : ∀ v, (hv'.vcpus v).priority = (hv.vcpus v).priority)
    (hrem : ∀ v, (hv'.vcpus v).priorityRem = (hv.vcpus v).priorityRem)
    (hrunning : ∀ v ∈ steady, (hv.vcpus v).state = .running → (hv'.vcpus v).state = .running) :
    Inv l n period steady ⟨hv', picks⟩ := by
  have hledger : (Shared.mk hv' picks).ledger = (Shared.mk hv picks).ledger := by
    simp only [Shared.ledger, Shared.count, hrem]
  constructor
  · rw [hlist]
    exact h.list
  · intro v
    rw [hpriority v, h.priority v]
  · exact fun v hv => hrunning v hv (h.running v hv)
  · rw [hledger]
    exact h.balanced

theorem Inv.switchTo (h : Inv l n period steady s) (p : Platform) (aux : Option VcpuPtr) :
    Inv l n period steady { s with hv := contextSwitch p s.hv aux } := by
  have hsame := contextSwitch_same p s.hv aux
  apply h.frame hsame.readyList
  · exact fun v => congrArg VcpuSched.priority (hsame.sched v)
  · exact fun v => congrArg VcpuSched.priorityRem (hsame.sched v)
  · exact fun v _ hrun => (congrArg VcpuSched.state (hsame.sched v)).trans hrun

theorem Inv.deliver (h : Inv l n period steady s) (target : VcpuPtr) :
    Inv l n period steady { s with hv := fastInterruptDelivery s.hv target } := by
  apply h.frame (fastInterruptDelivery_readyList s.hv target)
  · intro v
    obtain ⟨critical, heq⟩ := fastInterruptDelivery_vcpu s.hv target v
    simp only [heq]
  · intro v
    obtain ⟨critical, heq⟩ := fastInterruptDelivery_vcpu s.hv target v
    simp only [heq]
  · intro v _ hrun
    obtain ⟨critical, heq⟩ := fastInterruptDelivery_vcpu s.hv target v
    simp only [heq, hrun]

theorem Inv.setState (h : Inv l n period steady s) {v : VcpuPtr} {state : VcpuState}
    (hsteady : v ∈ steady → state = .running) :
    Inv l n period steady { s with hv := setState s.hv v state } := by
  have hlist : (Kernel.setState s.hv v state).readyList = s.hv.readyList := rfl
  apply h.frame hlist
  · intro w
    simp only [Kernel.setState, Hv.setVcpu_apply]
    split_ifs with heq
    · rw [heq]
    · rfl
  · intro w
    simp only [Kernel.setState, Hv.setVcpu_apply]
    split_ifs with heq
    · rw [heq]
    · rfl
  · intro w hw hrun
    simp only [Kernel.setState, Hv.setVcpu_apply]
    split_ifs with heq
    · exact hsteady (heq ▸ hw)
    · exact hrun

theorem picked_charge {vcpus : VcpuPtr → Vcpu} {v w : VcpuPtr} (hne : w ≠ v) (hmem : w ∈ l)
    (hrun : (vcpus w).state = .running)
    (hle : (vcpus v).priorityRem ≤ (vcpus w).priorityRem) :
    (picked vcpus l v w).priorityRem.toNat =
      (vcpus w).priorityRem.toNat - (vcpus v).priorityRem.toNat := by
  have hcharged : charged vcpus l v w =
      { vcpus w with priorityRem := (vcpus w).priorityRem - (vcpus v).priorityRem } := by
    rw [charged, if_pos ⟨hmem, hne, hrun⟩]
  rw [picked, Function.update_of_ne hne, hcharged]
  exact UInt32.toNat_sub_of_le _ _ hle

theorem picked_rest {vcpus : VcpuPtr → Vcpu} {v w : VcpuPtr} (hne : w ≠ v)
    (hnot : ¬(w ∈ l ∧ (vcpus w).state = .running)) : picked vcpus l v w = vcpus w := by
  rw [picked, Function.update_of_ne hne, charged, if_neg fun h => hnot ⟨h.1, h.2.2⟩]

/-- A fair pick is a step of stride scheduling among the RUNNING VCPUs of the ready list. -/
theorem fair_picks {hv : Hv} {picks : List Pick} {v : VcpuPtr} {q : Queue VcpuPtr}
    (hpriority : ∀ v, (hv.vcpus v).priority.toNat = period v)
    (hleast : ∀ w ∈ l, (hv.vcpus w).state = .running →
      (hv.vcpus v).priorityRem ≤ (hv.vcpus w).priorityRem) :
    Picks period {w | w ∈ l ∧ (hv.vcpus w).state = .running} (Shared.mk hv picks).ledger v
      (Shared.mk { hv with vcpus := picked hv.vcpus l v, readyList := q } (.fair v :: picks)).ledger
    where
  least := fun w hw => hleast w hw.1 hw.2
  restart := by
    show (picked hv.vcpus l v v).priorityRem.toNat = period v
    rw [picked, Function.update_self, hpriority v]
  charge := fun w hw hne => picked_charge hne hw.1 hw.2 (hleast w hw.1 hw.2)
  rest := fun w hnot hne => by
    show (picked hv.vcpus l v w).priorityRem.toNat = _
    rw [picked_rest hne hnot]
    rfl
  count := by simp [Shared.ledger, Shared.count]
  others := fun w hne => by
    have hpick : Pick.fair v ≠ .fair w := fun h => hne (Pick.fair.inj h).symm
    simp [Shared.ledger, Shared.count, hpick]

theorem ledger_of_ne (hv hv' : Hv) {picks : List Pick} {pick : Pick}
    (hrem : ∀ w, (hv'.vcpus w).priorityRem = (hv.vcpus w).priorityRem)
    (hpick : ∀ w, pick ≠ .fair w) :
    (Shared.mk hv' (pick :: picks)).ledger = (Shared.mk hv picks).ledger := by
  simp [Shared.ledger, Shared.count, hrem, hpick]

/-- A call of the scheduler keeps the invariant.  Only a fair pick changes the ledger. -/
theorem Inv.outcome {hv hv' : Hv} {picks : List Pick} {pick : Pick} {l' : List VcpuPtr}
    (h : Inv l n period steady ⟨hv, picks⟩) (hl : l' ~r l) (hsteady : ∀ v ∈ steady, v ∈ l)
    (ho : Outcome hv n l' pick hv') : Inv l n period steady ⟨hv', pick :: picks⟩ := by
  obtain ⟨l'', hrot, hholds⟩ := ho.rotated
  refine ⟨⟨l'', hrot.trans hl, hholds⟩, fun v => ?_,
    fun v hv => (ho.state v).trans (h.running v hv), ?_⟩
  · rw [ho.priority v, h.priority v]
  obtain ⟨time, hbalanced⟩ := h.balanced
  cases ho with
  | critical pre v post q split calm urgent holds =>
    refine ⟨time, ?_⟩
    rw [ledger_of_ne hv]
    · exact hbalanced
    · intro w
      simp only [Hv.setVcpu_apply]
      split_ifs with heq
      · rw [heq]
        rfl
      · rfl
    · simp
  | fair v q mem calm running low least holds =>
    refine ⟨_, hbalanced.pick (fair_picks h.priority least) (hl.mem_iff.mp mem) fun w hw => ?_⟩
    exact ⟨hl.mem_iff.mpr (hsteady w hw), h.running w hw⟩
  | idle q calm high holds =>
    refine ⟨time, ?_⟩
    rw [ledger_of_ne hv]
    · exact hbalanced
    · exact fun w => rfl
    · simp

theorem Inv.step (h : Inv l n period steady s) (nodup : l.Nodup) (hsteady : ∀ v ∈ steady, v ∈ l)
    (p : Platform) (e : Event) (he : ∀ v ∈ steady, e ≠ .setState v .blocked) :
    ∃ t, step p s e = some t ∧ Inv l n period steady t := by
  cases e with
  | schedule =>
    obtain ⟨l', hl, hholds⟩ := h.list
    obtain ⟨pick, hv', hcall, ho⟩ := roundRobinScheduler_outcome hholds (hl.nodup_iff.mpr nodup)
    exact ⟨_, by simp only [Share.step, hcall], h.outcome hl hsteady ho⟩
  | switchTo aux => exact ⟨_, rfl, h.switchTo p aux⟩
  | deliver target => exact ⟨_, rfl, h.deliver target⟩
  | setState v state =>
    refine ⟨_, rfl, h.setState fun hv => ?_⟩
    cases state with
    | running => rfl
    | blocked => exact absurd rfl (he v hv)

/-- With the remainders within the priorities, the next call charges each VCPU without a wrap. -/
theorem Inv.noWrap (h : Inv l n period steady s) (nodup : l.Nodup) : NoWrap s.hv l := by
  obtain ⟨time, hbalanced⟩ := h.balanced
  constructor
  · intro v hv
    rw [UInt32.le_iff_toNat_le, h.priority v]
    exact hbalanced.rem_le v hv
  · intro v hv' hcall w hw hne hrun
    obtain ⟨l', hl, hholds⟩ := h.list
    obtain ⟨pick, hv'', hcall', ho⟩ := roundRobinScheduler_outcome hholds (hl.nodup_iff.mpr nodup)
    rw [hcall, Except.ok.injEq, Prod.mk.injEq] at hcall'
    obtain ⟨rfl, rfl⟩ := hcall'
    cases ho with
    | fair v q mem calm running low least holds =>
      have hmem : w ∈ l' := hl.mem_iff.mpr hw
      have hle := least w hmem hrun
      rw [picked_charge hne hmem hrun hle]
      exact Nat.sub_add_cancel (UInt32.le_iff_toNat_le.mp hle)

/-- The VCPUs of a ready list when scheduling starts. -/
structure Start (hv : Hv) (n : Nat) (l : List VcpuPtr) : Prop where
  ready : hv.readyList.Holds n l
  nodup : l.Nodup
  rem : ∀ v ∈ l, (hv.vcpus v).priorityRem = (hv.vcpus v).priority

theorem Start.inv {hv : Hv} (h : Start hv n l) (steady : Set VcpuPtr)
    (hsteady : ∀ v ∈ steady, v ∈ l)
    (hrunning : ∀ v ∈ steady, (hv.vcpus v).state = .running) :
    Inv l n (fun v => (hv.vcpus v).priority.toNat) steady ⟨hv, []⟩ where
  list := ⟨l, List.IsRotated.refl l, h.ready⟩
  priority := fun _ => rfl
  running := hrunning
  balanced := ⟨0, Balanced.start (fun v hv => congrArg UInt32.toNat (h.rem v hv)) (fun _ => rfl)
    hsteady⟩

/-- From a list of distinct VCPUs whose remainders start at their priorities, every run is defined,
no remainder wraps, and two VCPUs that stay RUNNING are picked in inverse proportion to their
priorities. -/
theorem proportional_share (p : Platform) {hv : Hv} (start : Start hv n l) (es : List Event) :
    ∃ s, run (step p) ⟨hv, []⟩ es = some s ∧ NoWrap s.hv l ∧
      ∀ v ∈ l, ∀ w ∈ l, StaysRunning hv es v → StaysRunning hv es w →
        |(s.count v * (hv.vcpus v).priority.toNat : Int) -
            s.count w * (hv.vcpus w).priority.toNat| ≤
          max ((hv.vcpus v).priority.toNat : Int) (hv.vcpus w).priority.toNat := by
  have hinv := start.inv {v | v ∈ l ∧ StaysRunning hv es v} (fun v hv => hv.1)
    fun v hv => hv.2.1
  obtain ⟨s, hrun, hs⟩ := run_defined (fun s e he hs =>
    Inv.step hs start.nodup (fun v hv => hv.1) p e fun v hv heq => hv.2.2 (heq ▸ he)) hinv
  refine ⟨s, hrun, hs.noWrap start.nodup, ?_⟩
  intro v hv w hw hstay_v hstay_w
  obtain ⟨time, hbalanced⟩ := hs.balanced
  exact hbalanced.share (fun v hv => hv.1) ⟨hv, hstay_v⟩ ⟨hw, hstay_w⟩

theorem Booted.start {b : Boot} {n : Nat} {confs : List VmConf} (h : Booted b n confs) :
    Start b.hv n (List.range confs.length) where
  ready := h.ready
  nodup := List.nodup_range
  rem := fun v hv => by
    have hfresh := h.vcpus v (List.mem_range.mp hv)
    rw [hfresh.priorityRem, hfresh.priority]

theorem proportional_share_pingPong :
    ∃ s, run (step .pic32mz) ⟨initializeMachines .pic32mz .cleared pingPong, []⟩
        [.schedule, .schedule, .deliver 0, .schedule, .setState 0 .running, .schedule] = some s ∧
      NoWrap s.hv [0, 1] ∧ |(s.count 0 * 100 : Int) - s.count 1 * 100| ≤ 100 := by
  have hstart := Booted.start (initializeMachines_booted .pic32mz .cleared pingPong)
  obtain ⟨s, hrun, hnoWrap, hshare⟩ := proportional_share .pic32mz hstart
    [.schedule, .schedule, .deliver 0, .schedule, .setState 0 .running, .schedule]
  exact ⟨s, hrun, hnoWrap,
    hshare 0 (by decide) 1 (by decide) ⟨rfl, by decide⟩ ⟨rfl, by decide⟩⟩

end PrplHypervisor.Kernel.Share
