import PrplHypervisor.Kernel.Context

/-! The scheduler (`sys/kernel/scheduler.c`) and what one call of it does.  `Outcome` lists the
three ways in which `round_robin_scheduler` returns; everything later is derived from it. -/

namespace PrplHypervisor.Kernel

open Arch

/-- How `round_robin_scheduler` returns: from the search loop with a critical VCPU, after the update
loop with the VCPU of the lowest remainder, or with `NULL`. -/
inductive Pick
  | critical (vcpu : VcpuPtr)
  | fair (vcpu : VcpuPtr)
  | idle
  deriving DecidableEq, Repr

/-- The pointer that `round_robin_scheduler` returns. -/
def Pick.vcpu : Pick → Option VcpuPtr
  | .critical v => some v
  | .fair v => some v
  | .idle => none

/-- The step that both loops start with: the head of the ready list goes to its tail. -/
def rotateReady (hv : Hv) : Except Fault (VcpuPtr × Hv) :=
  match queueRemhead hv.readyList with
  | (none, _) => .error .error1
  | (some vcpu, q) =>
    let (ret, q) := queueAddtail q (some vcpu)
    if ret ≠ 0 then .error .error2 else .ok (vcpu, { hv with readyList := q })

/-- What the search loop ends with. -/
inductive Search
  | critical (vcpu : VcpuPtr)
  | best (vcpuAux : Option VcpuPtr)
  deriving DecidableEq, Repr

/-- The VCPU is critical and can run. -/
def Urgent (vcpu : Vcpu) : Prop := vcpu.critical ≠ 0 ∧ vcpu.state = .running

instance (vcpu : Vcpu) : Decidable (Urgent vcpu) := inferInstanceAs (Decidable (_ ∧ _))

/-- A critical VCPU as the search loop returns it. -/
def Vcpu.served (vcpu : Vcpu) : Vcpu := { vcpu with critical := 0, bgjobs := vcpu.bgjobs + 1 }

/-- The first loop of `round_robin_scheduler`, with `n` iterations left. -/
def searchLoop : Nat → UInt32 → Option VcpuPtr → Hv → Except Fault (Search × Hv)
  | 0, _, vcpuAux, hv => .ok (.best vcpuAux, hv)
  | n + 1, highestp, vcpuAux, hv => do
    let (v, hv) ← rotateReady hv
    let vcpu := hv.vcpus v
    if Urgent vcpu then
      .ok (.critical v, { hv.setVcpu v vcpu.served with pending := hv.pending - 1 })
    else if highestp > vcpu.priorityRem ∧ vcpu.state = .running then
      searchLoop n vcpu.priorityRem (some v) hv
    else searchLoop n highestp vcpuAux hv

/-- The second loop: every other running VCPU gives up the remainder of `vcpuAux`. -/
def updateLoop : Nat → VcpuPtr → Hv → Except Fault Hv
  | 0, _, hv => .ok hv
  | n + 1, vcpuAux, hv => do
    let (v, hv) ← rotateReady hv
    let vcpu := hv.vcpus v
    if v ≠ vcpuAux ∧ vcpu.state = .running then
      updateLoop n vcpuAux (hv.setVcpu v
        { vcpu with priorityRem := vcpu.priorityRem - (hv.vcpus vcpuAux).priorityRem })
    else updateLoop n vcpuAux hv

def roundRobinScheduler (hv : Hv) : Except Fault (Pick × Hv) := do
  let k := (queueCount hv.readyList).toNat
  match ← searchLoop k 255 none hv with
  | (.critical v, hv) => .ok (.critical v, hv)
  | (.best none, hv) => .ok (.idle, hv)
  | (.best (some vcpuAux), hv) =>
    let hv ← updateLoop k vcpuAux hv
    let vcpu := hv.vcpus vcpuAux
    .ok (.fair vcpuAux, hv.setVcpu vcpuAux
      { vcpu with priorityRem := vcpu.priority, bgjobs := vcpu.bgjobs + 1 })

def fastInterruptDelivery (hv : Hv) (target : VcpuPtr) : Hv :=
  if hv.executing ≠ some target then
    if (hv.vcpus target).critical = 0 then
      { hv.setVcpu target { hv.vcpus target with critical := 1 } with pending := hv.pending + 1 }
    else hv
  else hv

def SYSTEM_TICK_US : UInt32 := 1000

/-- `TICKS_BEFORE_SCHEDULING`, for a quantum of `quantum` milliseconds. -/
def ticksBeforeScheduling (quantum : UInt32) : UInt32 := quantum / (SYSTEM_TICK_US / 1000)

/-- The conditions under which `run_scheduler` calls the scheduler. -/
def mustSchedule (quantum : UInt32) (hv : Hv) : Prop :=
  hv.tickCount % ticksBeforeScheduling quantum = 0 ∨ hv.pending ≠ 0 ∨
    ∃ v ∈ hv.executing, (hv.vcpus v).state = .blocked

instance (quantum : UInt32) (hv : Hv) : Decidable (mustSchedule quantum hv) :=
  inferInstanceAs (Decidable (_ ∨ _ ∨ _))

def runScheduler (p : Platform) (quantum : UInt32) (hv : Hv) : Except Fault Hv := do
  let hv ←
    if mustSchedule quantum hv then do
      let (pick, hv) ← roundRobinScheduler hv
      .ok (contextSwitch p hv pick.vcpu)
    else .ok hv
  .ok { hv with tickCount := hv.tickCount + 1 }

/-- The loop of `get_vcpu_from_id` over the indexes `i` of the ready list, `n` of them left. -/
def findVcpu (hv : Hv) (id : UInt32) : Nat → Nat → Except Fault (Option VcpuPtr)
  | 0, _ => .ok none
  | n + 1, i =>
    match queueGet hv.readyList i with
    | none => .error .nullPointer
    | some vcpu => if (hv.vcpus vcpu).id = id then .ok (some vcpu) else findVcpu hv id n (i + 1)

def getVcpuFromId (hv : Hv) (id : UInt32) : Except Fault (Option VcpuPtr) :=
  findVcpu hv id (queueCount hv.readyList).toNat 0

/-- A VCPU starts or stops waiting for a device, as the drivers do. -/
def setState (hv : Hv) (v : VcpuPtr) (state : VcpuState) : Hv :=
  hv.setVcpu v { hv.vcpus v with state := state }

/-! ### The loops over the ready list -/

theorem rotateReady_holds {hv : Hv} {n : Nat} {v : VcpuPtr} {l : List VcpuPtr}
    (h : hv.readyList.Holds n (v :: l)) :
    ∃ q, rotateReady hv = .ok (v, { hv with readyList := q }) ∧ q.Holds n (l ++ [v]) := by
  obtain ⟨q1, hrem, h1⟩ := h.remhead
  have hroom : l.length < n := by
    have := h.fits
    simpa [Nat.succ_le_iff] using this
  obtain ⟨q2, hadd, h2⟩ := h1.addtail hroom v
  exact ⟨q2, by simp [rotateReady, hrem, hadd], h2⟩

/-- The VCPU that the search loop prefers, on the list it goes through. -/
def best (vcpus : VcpuPtr → Vcpu) : List VcpuPtr → UInt32 → Option VcpuPtr → Option VcpuPtr
  | [], _, aux => aux
  | v :: l, highestp, aux =>
    if highestp > (vcpus v).priorityRem ∧ (vcpus v).state = .running then
      best vcpus l (vcpus v).priorityRem (some v)
    else best vcpus l highestp aux

/-- Without a critical VCPU that can run, the search loop goes once around the list. -/
theorem searchLoop_calm {n : Nat} (rest : List VcpuPtr) : ∀ (around : List VcpuPtr)
    (highestp : UInt32) (aux : Option VcpuPtr) (hv : Hv),
    hv.readyList.Holds n (rest ++ around) → (∀ v ∈ rest, ¬Urgent (hv.vcpus v)) →
    ∃ q, searchLoop rest.length highestp aux hv =
        .ok (.best (best hv.vcpus rest highestp aux), { hv with readyList := q }) ∧
      q.Holds n (around ++ rest) := by
  induction rest with
  | nil =>
    intro around highestp aux hv h _
    exact ⟨hv.readyList, rfl, by simpa using h⟩
  | cons v rest ih =>
    intro around highestp aux hv h calm
    obtain ⟨q, hrot, hq⟩ := rotateReady_holds h
    have hnot : ¬Urgent (hv.vcpus v) := calm v List.mem_cons_self
    have step := fun highestp aux => ih (around ++ [v]) highestp aux { hv with readyList := q }
      (by simpa using hq) fun w hw => calm w (List.mem_cons_of_mem _ hw)
    simp only [List.append_assoc, List.singleton_append] at step
    simp only [List.length_cons, searchLoop, hrot, best, bind, Except.bind, hnot, if_false]
    split
    · exact step _ _
    · exact step _ _

/-- The search loop returns at the first critical VCPU that can run. -/
theorem searchLoop_urgent {n : Nat} (pre : List VcpuPtr) : ∀ (k : Nat) (v : VcpuPtr)
    (around : List VcpuPtr) (highestp : UInt32) (aux : Option VcpuPtr) (hv : Hv),
    hv.readyList.Holds n (pre ++ v :: around) → (∀ w ∈ pre, ¬Urgent (hv.vcpus w)) →
    Urgent (hv.vcpus v) →
    ∃ q, searchLoop (pre.length + (k + 1)) highestp aux hv =
        .ok (.critical v, { hv.setVcpu v (hv.vcpus v).served with
          readyList := q, pending := hv.pending - 1 }) ∧
      q.Holds n (around ++ (pre ++ [v])) := by
  induction pre with
  | nil =>
    intro k v around highestp aux hv h _ urgent
    obtain ⟨q, hrot, hq⟩ := rotateReady_holds h
    refine ⟨q, ?_, hq⟩
    simp only [List.length_nil, searchLoop, hrot, bind, Except.bind, urgent, if_true]
    rfl
  | cons w pre ih =>
    intro k v around highestp aux hv h calm urgent
    obtain ⟨q, hrot, hq⟩ := rotateReady_holds h
    have hnot : ¬Urgent (hv.vcpus w) := calm w List.mem_cons_self
    have step := fun highestp aux =>
      ih k v (around ++ [w]) highestp aux { hv with readyList := q } (by simpa using hq)
        (fun u hu => calm u (List.mem_cons_of_mem _ hu)) urgent
    simp only [List.append_assoc, List.singleton_append] at step
    rw [List.length_cons, Nat.add_right_comm]
    simp only [searchLoop, hrot, bind, Except.bind, hnot, if_false]
    split
    · exact step _ _
    · exact step _ _

/-- The VCPUs after the update loop over `l`. -/
def charged (vcpus : VcpuPtr → Vcpu) (l : List VcpuPtr) (aux : VcpuPtr) (v : VcpuPtr) : Vcpu :=
  if v ∈ l ∧ v ≠ aux ∧ (vcpus v).state = .running then
    { vcpus v with priorityRem := (vcpus v).priorityRem - (vcpus aux).priorityRem }
  else vcpus v

theorem charged_nil (vcpus : VcpuPtr → Vcpu) (aux : VcpuPtr) : charged vcpus [] aux = vcpus := by
  funext v
  simp [charged]

theorem charged_self (vcpus : VcpuPtr → Vcpu) (l : List VcpuPtr) (aux : VcpuPtr) :
    charged vcpus l aux aux = vcpus aux := by
  simp [charged]

/-- The update loop reaches each VCPU of a list without repetition once. -/
theorem updateLoop_eq {n : Nat} {aux : VcpuPtr} (rest : List VcpuPtr) : ∀ (around : List VcpuPtr)
    (hv : Hv), hv.readyList.Holds n (rest ++ around) → rest.Nodup →
    ∃ q, updateLoop rest.length aux hv =
        .ok { hv with vcpus := charged hv.vcpus rest aux, readyList := q } ∧
      q.Holds n (around ++ rest) := by
  induction rest with
  | nil =>
    intro around hv h _
    exact ⟨hv.readyList, by simp [updateLoop, charged_nil], by simpa using h⟩
  | cons v rest ih =>
    intro around hv h nodup
    obtain ⟨fresh, nodup⟩ := List.nodup_cons.mp nodup
    obtain ⟨q, hrot, hq⟩ := rotateReady_holds h
    simp only [List.length_cons, updateLoop, hrot, bind, Except.bind]
    split
    · -- the rest of the loop reads the same remainder of `aux`, which is not `v`
      rename_i hcharge
      obtain ⟨q', hrec, hq'⟩ := ih (around ++ [v]) (({ hv with readyList := q } : Hv).setVcpu v
        { hv.vcpus v with
          priorityRem := (hv.vcpus v).priorityRem - (hv.vcpus aux).priorityRem })
        (by simpa using hq) nodup
      refine ⟨q', ?_, by simpa using hq'⟩
      rw [hrec]
      have heq : ∀ w, charged (({ hv with readyList := q } : Hv).setVcpu v
          { hv.vcpus v with
            priorityRem := (hv.vcpus v).priorityRem - (hv.vcpus aux).priorityRem }).vcpus
          rest aux w = charged hv.vcpus (v :: rest) aux w := by
        intro w
        have haux : aux ≠ v := Ne.symm hcharge.1
        by_cases hw : w = v
        · subst hw
          simp [charged, fresh, hcharge]
        · simp [charged, hw, haux]
      simp only [Hv.setVcpu] at heq ⊢
      rw [funext heq]
    · rename_i hskip
      obtain ⟨q', hrec, hq'⟩ := ih (around ++ [v]) { hv with readyList := q }
        (by simpa using hq) nodup
      refine ⟨q', ?_, by simpa using hq'⟩
      rw [hrec]
      have heq : ∀ w, charged hv.vcpus rest aux w = charged hv.vcpus (v :: rest) aux w := by
        intro w
        by_cases hw : w = v
        · subst hw
          have hno : ¬(w ∈ w :: rest ∧ w ≠ aux ∧ (hv.vcpus w).state = .running) :=
            fun h => hskip h.2
          simp only [charged, hno, fresh, false_and, if_false]
        · simp [charged, hw]
      rw [funext heq]

/-- The search keeps a VCPU it starts with, or finds one that can run with the lowest remainder. -/
theorem best_spec (vcpus : VcpuPtr → Vcpu) (l : List VcpuPtr) (highestp : UInt32)
    (aux : Option VcpuPtr) :
    (best vcpus l highestp aux = aux ∧
        ∀ w ∈ l, (vcpus w).state = .running → highestp ≤ (vcpus w).priorityRem) ∨
      ∃ v ∈ l, best vcpus l highestp aux = some v ∧ (vcpus v).state = .running ∧
        (vcpus v).priorityRem < highestp ∧
        ∀ w ∈ l, (vcpus w).state = .running → (vcpus v).priorityRem ≤ (vcpus w).priorityRem := by
  induction l generalizing highestp aux with
  | nil => exact Or.inl ⟨rfl, by simp⟩
  | cons v l ih =>
    by_cases hv : highestp > (vcpus v).priorityRem ∧ (vcpus v).state = .running
    · rw [best, if_pos hv]
      rcases ih (vcpus v).priorityRem (some v) with ⟨heq, hlow⟩ | ⟨w, hw, heq, hrun, hlt, hmin⟩
      · refine Or.inr ⟨v, List.mem_cons_self, heq, hv.2, hv.1, ?_⟩
        simpa using hlow
      · refine Or.inr ⟨w, List.mem_cons_of_mem _ hw, heq, hrun, UInt32.lt_trans hlt hv.1, ?_⟩
        intro u hu hurun
        rcases List.mem_cons.mp hu with rfl | hu
        · exact UInt32.le_of_lt hlt
        · exact hmin u hu hurun
    · rw [best, if_neg hv]
      have hhead : (vcpus v).state = .running → highestp ≤ (vcpus v).priorityRem := by
        intro hrun
        exact UInt32.not_lt.mp fun hlt => hv ⟨hlt, hrun⟩
      rcases ih highestp aux with ⟨heq, hlow⟩ | ⟨w, hw, heq, hrun, hlt, hmin⟩
      · refine Or.inl ⟨heq, ?_⟩
        intro u hu hurun
        rcases List.mem_cons.mp hu with rfl | hu
        · exact hhead hurun
        · exact hlow u hu hurun
      · refine Or.inr ⟨w, List.mem_cons_of_mem _ hw, heq, hrun, hlt, ?_⟩
        intro u hu hurun
        rcases List.mem_cons.mp hu with rfl | hu
        · exact UInt32.le_trans (UInt32.le_of_lt hlt) (hhead hurun)
        · exact hmin u hu hurun

/-! ### One call of the scheduler -/

/-- The VCPUs after a fair pick of `v`. -/
def picked (vcpus : VcpuPtr → Vcpu) (l : List VcpuPtr) (v : VcpuPtr) : VcpuPtr → Vcpu :=
  Function.update (charged vcpus l v) v
    { vcpus v with priorityRem := (vcpus v).priority, bgjobs := (vcpus v).bgjobs + 1 }

/-- The results of `round_robin_scheduler` on the ready list `l`. -/
inductive Outcome (hv : Hv) (n : Nat) (l : List VcpuPtr) : Pick → Hv → Prop
  /-- The first critical VCPU of the list that can run is served; the list is rotated past it. -/
  | critical (pre : List VcpuPtr) (v : VcpuPtr) (post : List VcpuPtr) (q : Queue VcpuPtr)
      (split : l = pre ++ v :: post) (calm : ∀ w ∈ pre, ¬Urgent (hv.vcpus w))
      (urgent : Urgent (hv.vcpus v)) (holds : q.Holds n (post ++ (pre ++ [v]))) :
      Outcome hv n l (.critical v) { hv.setVcpu v (hv.vcpus v).served with
        readyList := q, pending := hv.pending - 1 }
  /-- The VCPU with the lowest remainder starts its priority over. -/
  | fair (v : VcpuPtr) (q : Queue VcpuPtr) (mem : v ∈ l) (calm : ∀ w ∈ l, ¬Urgent (hv.vcpus w))
      (running : (hv.vcpus v).state = .running) (low : (hv.vcpus v).priorityRem < 255)
      (least : ∀ w ∈ l, (hv.vcpus w).state = .running →
        (hv.vcpus v).priorityRem ≤ (hv.vcpus w).priorityRem)
      (holds : q.Holds n l) :
      Outcome hv n l (.fair v) { hv with vcpus := picked hv.vcpus l v, readyList := q }
  /-- No VCPU can run with a remainder below 255. -/
  | idle (q : Queue VcpuPtr) (calm : ∀ w ∈ l, ¬Urgent (hv.vcpus w))
      (high : ∀ w ∈ l, (hv.vcpus w).state = .running → 255 ≤ (hv.vcpus w).priorityRem)
      (holds : q.Holds n l) : Outcome hv n l .idle { hv with readyList := q }

theorem first_urgent (vcpus : VcpuPtr → Vcpu) (l : List VcpuPtr) :
    (∀ w ∈ l, ¬Urgent (vcpus w)) ∨ ∃ pre v post, l = pre ++ v :: post ∧
      (∀ w ∈ pre, ¬Urgent (vcpus w)) ∧ Urgent (vcpus v) := by
  induction l with
  | nil => exact Or.inl (by simp)
  | cons v l ih =>
    by_cases hv : Urgent (vcpus v)
    · exact Or.inr ⟨[], v, l, rfl, by simp, hv⟩
    · rcases ih with calm | ⟨pre, w, post, rfl, calm, urgent⟩
      · exact Or.inl (by simpa using ⟨hv, calm⟩)
      · exact Or.inr ⟨v :: pre, w, post, rfl, by simpa using ⟨hv, calm⟩, urgent⟩

/-- Without a critical VCPU that can run, the VCPU that the search prefers is returned. -/
theorem roundRobinScheduler_fair {hv : Hv} {n : Nat} {l : List VcpuPtr} {v : VcpuPtr}
    (h : hv.readyList.Holds n l) (nodup : l.Nodup) (calm : ∀ w ∈ l, ¬Urgent (hv.vcpus w))
    (hbest : best hv.vcpus l 255 none = some v) :
    ∃ q, roundRobinScheduler hv =
        .ok (.fair v, { hv with vcpus := picked hv.vcpus l v, readyList := q }) ∧ q.Holds n l := by
  have hcount : (queueCount hv.readyList).toNat = l.length := by
    rw [h.count]
    rfl
  obtain ⟨q, hsearch, hq⟩ := searchLoop_calm l [] 255 none hv (by simpa using h) calm
  rw [List.nil_append] at hq
  rw [hbest] at hsearch
  obtain ⟨q', hupdate, hq'⟩ := @updateLoop_eq n v l [] { hv with readyList := q }
    (by simpa using hq) nodup
  rw [List.nil_append] at hq'
  refine ⟨q', ?_, hq'⟩
  simp only [roundRobinScheduler, hcount, hsearch, hupdate, bind, Except.bind, charged_self]
  rfl

/-- `round_robin_scheduler` returns, in one of the three ways. -/
theorem roundRobinScheduler_outcome {hv : Hv} {n : Nat} {l : List VcpuPtr}
    (h : hv.readyList.Holds n l) (nodup : l.Nodup) :
    ∃ pick hv', roundRobinScheduler hv = .ok (pick, hv') ∧ Outcome hv n l pick hv' := by
  have hcount : (queueCount hv.readyList).toNat = l.length := by
    rw [h.count]
    rfl
  rcases first_urgent hv.vcpus l with calm | ⟨pre, v, post, hl, calm, urgent⟩
  · rcases best_spec hv.vcpus l 255 none with ⟨hnone, high⟩ | ⟨v, mem, hbest, running, low, least⟩
    · obtain ⟨q, hsearch, hq⟩ := searchLoop_calm l [] 255 none hv (by simpa using h) calm
      rw [List.nil_append] at hq
      rw [hnone] at hsearch
      refine ⟨.idle, _, ?_, .idle q calm high hq⟩
      simp only [roundRobinScheduler, hcount, hsearch, bind, Except.bind]
    · obtain ⟨q, hcall, hq⟩ := roundRobinScheduler_fair h nodup calm hbest
      exact ⟨.fair v, _, hcall, .fair v q mem calm running low least hq⟩
  · have hk : l.length = pre.length + (post.length + 1) := by
      rw [hl, List.length_append, List.length_cons]
    obtain ⟨q, hsearch, hq⟩ :=
      searchLoop_urgent pre post.length v post 255 none hv (hl ▸ h) calm urgent
    refine ⟨.critical v, _, ?_, .critical pre v post q hl calm urgent hq⟩
    simp only [roundRobinScheduler, hcount, hk, hsearch, bind, Except.bind]

end PrplHypervisor.Kernel
