import PrplHypervisor.Drivers.InterVm

/-! The message queues over runs.  The ring of a VCPU holds the accepted messages that its owner has
not received yet, in order, so what a VCPU receives is a prefix of what was accepted for it. -/

namespace PrplHypervisor.Drivers

open Arch Kernel Lib.Ring Lib.Runs

/-- A message as the sender gives it and the receiver gets it. -/
structure Packet where
  sourceId : UInt32
  size : UInt32
  bytes : List UInt8
  deriving DecidableEq, Repr

/-- The message in a slot of a ring. -/
def Packet.ofSlot (m : Message) : Packet where
  sourceId := m.sourceId
  size := m.size
  bytes := (List.range m.size.toNat).map m.message

/-- The messages in a ring, oldest first. -/
def queued (messages : MessageBuffer) : List Packet :=
  (window messages.messageList messages.outIndex.toNat messages.numMessages.toNat
    MESSAGELIST_SZ.toNat).map Packet.ofSlot

/-- The ring `messages` is well formed and holds the messages of `queue`, oldest first. -/
structure HoldsQueue (messages : MessageBuffer) (queue : List Packet) : Prop where
  inIndex : messages.inIndex < MESSAGELIST_SZ
  outIndex : messages.outIndex < MESSAGELIST_SZ
  numMessages : messages.numMessages ≤ MESSAGELIST_SZ
  wrap : messages.inIndex.toNat =
    (messages.outIndex.toNat + messages.numMessages.toNat) % MESSAGELIST_SZ.toNat
  sizes : ∀ i < MESSAGELIST_SZ.toNat, (messages.messageList i).size ≤ MESSAGE_SZ
  queue : queued messages = queue

theorem emptyMessages_holds : HoldsQueue emptyMessages [] where
  inIndex := by decide
  outIndex := by decide
  numMessages := by decide
  wrap := by decide
  sizes := fun _ _ => by simp [emptyMessages]
  queue := by simp [queued, emptyMessages]

theorem toNat_next {i : UInt32} (h : i < MESSAGELIST_SZ) :
    ((i + 1) % MESSAGELIST_SZ).toNat = (i.toNat + 1) % MESSAGELIST_SZ.toNat := by
  have hlt : i.toNat < 5 := UInt32.lt_iff_toNat_lt.mp h
  rw [UInt32.toNat_mod, UInt32.toNat_add, UInt32.toNat_one, Nat.mod_eq_of_lt (a := i.toNat + 1)]
  omega

theorem next_lt (i : UInt32) : (i + 1) % MESSAGELIST_SZ < MESSAGELIST_SZ := by
  rw [UInt32.lt_iff_toNat_lt, UInt32.toNat_mod]
  exact Nat.mod_lt _ (by decide)

/-- The indexes of a ring with `MESSAGELIST_SZ` slots. -/
structure RingIndexes (slotIn slotOut num : UInt32) : Prop where
  inIndex : slotIn < MESSAGELIST_SZ
  outIndex : slotOut < MESSAGELIST_SZ
  numMessages : num ≤ MESSAGELIST_SZ
  wrap : slotIn.toNat = (slotOut.toNat + num.toNat) % MESSAGELIST_SZ.toNat

namespace RingIndexes

variable {slotIn slotOut num : UInt32} {α : Type*} {slots : Nat → α}

theorem lt_of_room (h : RingIndexes slotIn slotOut num) (room : num ≠ MESSAGELIST_SZ) :
    num.toNat < MESSAGELIST_SZ.toNat :=
  Nat.lt_of_le_of_ne (UInt32.le_iff_toNat_le.mp h.numMessages)
    fun heq => room (UInt32.toNat_inj.mp heq)

theorem toNat_succ (h : RingIndexes slotIn slotOut num) (room : num ≠ MESSAGELIST_SZ) :
    (num + 1).toNat = num.toNat + 1 := by
  have hlt := h.lt_of_room room
  have hsmall : MESSAGELIST_SZ.toNat = 5 := rfl
  rw [UInt32.toNat_add, UInt32.toNat_one, Nat.mod_eq_of_lt]
  omega

theorem toNat_pred (nonempty : num ≠ 0) : num.toNat = (num - 1).toNat + 1 := by
  have hpos : (1 : UInt32) ≤ num := by
    rw [UInt32.le_iff_toNat_le, UInt32.toNat_one]
    exact Nat.one_le_iff_ne_zero.mpr fun heq => nonempty (UInt32.toNat_inj.mp heq)
  rw [UInt32.toNat_sub_of_le _ _ hpos]
  exact (Nat.sub_add_cancel (UInt32.le_iff_toNat_le.mp hpos)).symm

theorem push (h : RingIndexes slotIn slotOut num) (room : num ≠ MESSAGELIST_SZ) :
    RingIndexes ((slotIn + 1) % MESSAGELIST_SZ) slotOut (num + 1) where
  inIndex := next_lt slotIn
  outIndex := h.outIndex
  numMessages := by
    rw [UInt32.le_iff_toNat_le, h.toNat_succ room]
    exact h.lt_of_room room
  wrap := by
    rw [toNat_next h.inIndex, h.wrap, tail_slot_succ, h.toNat_succ room]

theorem pop (h : RingIndexes slotIn slotOut num) (nonempty : num ≠ 0) :
    RingIndexes slotIn ((slotOut + 1) % MESSAGELIST_SZ) (num - 1) where
  inIndex := h.inIndex
  outIndex := next_lt slotOut
  numMessages := by
    refine UInt32.le_trans ?_ h.numMessages
    rw [UInt32.le_iff_toNat_le, toNat_pred nonempty]
    exact Nat.le_succ _
  wrap := by
    rw [toNat_next h.outIndex, head_slot_succ, ← toNat_pred nonempty, h.wrap]

theorem window_push (h : RingIndexes slotIn slotOut num) (room : num ≠ MESSAGELIST_SZ) (x : α) :
    window (Function.update slots slotIn.toNat x) slotOut.toNat (num + 1).toNat
        MESSAGELIST_SZ.toNat =
      window slots slotOut.toNat num.toNat MESSAGELIST_SZ.toNat ++ [x] := by
  rw [h.toNat_succ room, h.wrap, Lib.Ring.window_push (h.lt_of_room room)]

theorem window_pop (h : RingIndexes slotIn slotOut num) (nonempty : num ≠ 0) :
    window slots slotOut.toNat num.toNat MESSAGELIST_SZ.toNat = slots slotOut.toNat ::
      window slots ((slotOut + 1) % MESSAGELIST_SZ).toNat (num - 1).toNat MESSAGELIST_SZ.toNat := by
  rw [toNat_next h.outIndex, toNat_pred nonempty,
    window_succ (UInt32.lt_iff_toNat_lt.mp h.outIndex)]

end RingIndexes

theorem HoldsQueue.indexes {messages : MessageBuffer} {queue : List Packet}
    (h : HoldsQueue messages queue) :
    RingIndexes messages.inIndex messages.outIndex messages.numMessages :=
  ⟨h.inIndex, h.outIndex, h.numMessages, h.wrap⟩

theorem HoldsQueue.store {messages : MessageBuffer} {queue : List Packet}
    (h : HoldsQueue messages queue) (room : messages.numMessages ≠ MESSAGELIST_SZ)
    {sourceId size : UInt32} (hsize : size ≤ MESSAGE_SZ) (buffer : Nat → UInt8) :
    HoldsQueue (storeMessage messages sourceId size buffer)
      (queue ++ [⟨sourceId, size, (List.range size.toNat).map buffer⟩]) := by
  have hnext := h.indexes.push room
  refine ⟨hnext.inIndex, hnext.outIndex, hnext.numMessages, hnext.wrap, ?_, ?_⟩
  · intro i hi
    simp only [storeMessage, Function.update_apply]
    split_ifs
    · exact hsize
    · exact h.sizes i hi
  · simp only [queued, storeMessage]
    rw [h.indexes.window_push room, List.map_append, ← h.queue, queued]
    congr 2
    simp only [List.map_singleton, Packet.ofSlot, List.cons.injEq, and_true, Packet.mk.injEq,
      true_and]
    refine List.map_congr_left fun i hi => ?_
    rw [if_pos (List.mem_range.mp hi)]

theorem HoldsQueue.release {messages : MessageBuffer} {queue : List Packet}
    (h : HoldsQueue messages queue) (nonempty : messages.numMessages ≠ 0) :
    ∃ rest, queue = Packet.ofSlot (messages.messageList messages.outIndex.toNat) :: rest ∧
      HoldsQueue (releaseMessage messages) rest := by
  have hnext := h.indexes.pop nonempty
  have hwindow := h.queue
  rw [queued, h.indexes.window_pop nonempty, List.map_cons] at hwindow
  exact ⟨_, hwindow.symm, hnext.inIndex, hnext.outIndex, hnext.numMessages, hnext.wrap, h.sizes,
    rfl⟩

/-! ### Runs -/

/-- The hypervisor with the messages that were accepted for each VCPU and those that it received. -/
structure Comm where
  hv : Hv
  accepted : VcpuPtr → List Packet
  received : VcpuPtr → List Packet

/-- The state after a hypercall that ends in `hv` stored `packet` in the ring of `v`. -/
def Comm.accept (s : Comm) (hv : Hv) (v : VcpuPtr) (packet : Packet) : Comm :=
  { s with hv := hv, accepted := Function.update s.accepted v (s.accepted v ++ [packet]) }

/-- The state after a hypercall that ends in `hv` gave `packet` to `v`. -/
def Comm.receive (s : Comm) (hv : Hv) (v : VcpuPtr) (packet : Packet) : Comm :=
  { s with hv := hv, received := Function.update s.received v (s.received v ++ [packet]) }

/-- The hypervisor when the VCPU `caller` makes a hypercall with the argument registers `args`. -/
def hypercall (p : Platform) (hv : Hv) (caller : VcpuPtr) (args : List (Nat × UInt32)) : Hv :=
  args.foldl (fun hv arg => setGuestGPR p hv arg.1 arg.2) (contextSwitch p hv (some caller))

/-- A step of the kernel, a context switch, or a hypercall of the VCPU `caller`.  `buffer` is what
the caller's memory holds at its message. -/
inductive CommEvent
  | kernel (e : Event)
  | switchTo (aux : Option VcpuPtr)
  | send (caller : VcpuPtr) (targetId messagePtr messageSize : UInt32) (buffer : Nat → UInt8)
  | recv (caller : VcpuPtr) (messagePtr : UInt32)

def sendArgs (targetId messagePtr messageSize : UInt32) : List (Nat × UInt32) :=
  [(REG_A0, targetId), (REG_A1, messagePtr), (REG_A2, messageSize)]

def commStep (p : Platform) (quantum : UInt32) (s : Comm) : CommEvent → Option Comm
  | .kernel e => (step p quantum s.hv e).map fun hv => { s with hv := hv }
  | .switchTo aux => some { s with hv := contextSwitch p s.hv aux }
  | .send caller targetId messagePtr messageSize buffer =>
    match intervmSendMsg p buffer
        (hypercall p s.hv caller (sendArgs targetId messagePtr messageSize)) with
    | .error _ => none
    | .ok (none, hv) => some { s with hv := hv }
    | .ok (some v, hv) => some (s.accept hv v ⟨(s.hv.vcpus caller).vm.id, messageSize,
        (List.range messageSize.toNat).map buffer⟩)
  | .recv caller messagePtr =>
    match intervmRecvMsg p (hypercall p s.hv caller [(REG_A0, messagePtr)]) with
    | .error _ => none
    | .ok (none, hv) => some { s with hv := hv }
    | .ok (some bytes, hv) => some (s.receive hv caller
        ⟨moveFromPreviousGuestGPR p hv.cpu REG_A0, moveFromPreviousGuestGPR p hv.cpu REG_V0, bytes⟩)

theorem hypercall_same (p : Platform) (hv : Hv) (caller : VcpuPtr) (args : List (Nat × UInt32)) :
    SameKernel hv (hypercall p hv caller args) := by
  have hargs : ∀ (args : List (Nat × UInt32)) (hv' : Hv), SameKernel hv hv' →
      SameKernel hv (args.foldl (fun hv arg => setGuestGPR p hv arg.1 arg.2) hv') := by
    intro args
    induction args with
    | nil => exact fun hv' h => h
    | cons arg args ih =>
      exact fun hv' h => ih _ ⟨h.sched, h.vm, h.messages, h.readyList, h.pending, h.tickCount⟩
  exact hargs args _ (contextSwitch_same p hv (some caller))

theorem hypercall_executing (p : Platform) (hv : Hv) (caller : VcpuPtr)
    (args : List (Nat × UInt32)) : (hypercall p hv caller args).executing = some caller := by
  have hargs : ∀ (args : List (Nat × UInt32)) (hv' : Hv),
      (args.foldl (fun hv arg => setGuestGPR p hv arg.1 arg.2) hv').executing = hv'.executing := by
    intro args
    induction args with
    | nil => exact fun hv' => rfl
    | cons arg args ih => exact fun hv' => ih _
  rw [hypercall, hargs, contextSwitch_executing]

theorem hypercall_sendSize (p : Platform) (hv : Hv) (caller : VcpuPtr)
    (targetId messagePtr messageSize : UInt32) :
    moveFromPreviousGuestGPR p
      (hypercall p hv caller (sendArgs targetId messagePtr messageSize)).cpu REG_A2 =
        messageSize := by
  simp [hypercall, sendArgs, setGuestGPR]

theorem hypercall_sendTarget (p : Platform) (hv : Hv) (caller : VcpuPtr)
    (targetId messagePtr messageSize : UInt32) :
    moveFromPreviousGuestGPR p
      (hypercall p hv caller (sendArgs targetId messagePtr messageSize)).cpu REG_A0 = targetId := by
  simp only [hypercall, sendArgs, setGuestGPR, List.foldl_cons, List.foldl_nil]
  rw [moveFrom_moveTo_of_ne _ _ (by decide), moveFrom_moveTo_of_ne _ _ (by decide), moveFrom_moveTo]

theorem Outcome.messages {hv hv' : Hv} {n : Nat} {l : List VcpuPtr} {pick : Pick}
    (h : Outcome hv n l pick hv') (w : VcpuPtr) :
    (hv'.vcpus w).messages = (hv.vcpus w).messages := by
  obtain ⟨_, _, _, heq⟩ := h.vcpu w
  rw [heq]

theorem step_messages {hv hv' : Hv} {n : Nat} (h : Ready hv n) {p : Platform} {quantum : UInt32}
    {e : Event} (hstep : step p quantum hv e = some hv') (w : VcpuPtr) :
    (hv'.vcpus w).messages = (hv.vcpus w).messages := by
  cases e with
  | tick =>
    obtain ⟨l, hl, hholds⟩ := h.list
    rcases runScheduler_cases p quantum hholds (IsRotated.nodup_range hl) with
      ⟨_, hrun⟩ | ⟨_, pick, hv'', ho, hrun⟩
    · rw [step, hrun] at hstep
      obtain rfl := Option.some.inj hstep
      rfl
    · rw [step, hrun] at hstep
      obtain rfl := Option.some.inj hstep
      exact ((contextSwitch_same p hv'' pick.vcpu).messages w).trans (Outcome.messages ho w)
  | deliver target =>
    obtain rfl := Option.some.inj hstep
    obtain ⟨critical, heq⟩ := fastInterruptDelivery_vcpu hv target w
    rw [heq]
  | setState v state =>
    obtain rfl := Option.some.inj hstep
    obtain ⟨s, heq⟩ := setState_vcpu hv v w state
    rw [heq]

theorem Ready.setVcpu {hv : Hv} {n : Nat} (h : Ready hv n) (v : VcpuPtr) {vcpu : Vcpu}
    (hid : vcpu.id = (hv.vcpus v).id) (hvm : vcpu.vm = (hv.vcpus v).vm) :
    Ready (hv.setVcpu v vcpu) n := by
  refine ⟨h.list, fun w hw => ?_, fun w hw => ?_⟩
  · rw [Hv.setVcpu_apply]
    split_ifs with heq
    · rw [hid, ← heq, h.ids w hw]
    · exact h.ids w hw
  · rw [Hv.setVcpu_apply]
    split_ifs with heq
    · rw [hvm, ← heq, h.vmIds w hw]
    · exact h.vmIds w hw

theorem Ready.setCpu {hv : Hv} {n : Nat} (h : Ready hv n) (cpu : Cpu) :
    Ready { hv with cpu := cpu } n := ⟨h.list, h.ids, h.vmIds⟩

theorem Ready.setGuestGPR {hv : Hv} {n : Nat} (h : Ready hv n) (p : Platform) (reg : Nat)
    (value : UInt32) : Ready (setGuestGPR p hv reg value) n := Ready.setCpu h _

theorem SendOutcome.ready {p : Platform} {buffer : Nat → UInt8} {hv hv' : Hv} {n : Nat}
    {caller : VcpuPtr} {r : Option VcpuPtr} (h : SendOutcome p buffer hv n caller r hv')
    (hready : Ready hv n) : Ready hv' n := by
  cases h with
  | rejected code => exact Ready.setGuestGPR hready p REG_V0 code
  | full v mem init full =>
    apply Ready.setGuestGPR
    apply Ready.setVcpu hready v
    · rfl
    · rfl
  | stored v mem init room size cpu guestctl2 =>
    apply Kernel.Ready.fastInterruptDelivery
    apply Ready.setVcpu (Ready.setCpu hready cpu) v
    · rfl
    · rfl

theorem RecvOutcome.ready {p : Platform} {hv hv' : Hv} {n : Nat} {caller : VcpuPtr}
    {r : Option (List UInt8)} (h : RecvOutcome p hv caller r hv') (hready : Ready hv n) :
    Ready hv' n := by
  cases h with
  | empty empty => exact Ready.setGuestGPR hready p REG_V0 MESSAGE_EMPTY
  | received nonempty message head cpu size sourceId guestctl2 =>
    apply Ready.setVcpu (Ready.setCpu hready cpu) caller
    · rfl
    · rfl

theorem SendOutcome.messages_none {p : Platform} {buffer : Nat → UInt8} {hv hv' : Hv} {n : Nat}
    {caller : VcpuPtr} (h : SendOutcome p buffer hv n caller none hv') (w : VcpuPtr) :
    (hv'.vcpus w).messages = (hv.vcpus w).messages := by
  cases h with
  | rejected code => rfl
  | full v mem init full =>
    simp only [setGuestGPR, Hv.setVcpu_apply]
    split_ifs with heq
    · rw [heq]
    · rfl

theorem SendOutcome.messages_some {p : Platform} {buffer : Nat → UInt8} {hv hv' : Hv} {n : Nat}
    {caller v : VcpuPtr} (h : SendOutcome p buffer hv n caller (some v) hv') :
    (∀ w, w ≠ v → (hv'.vcpus w).messages = (hv.vcpus w).messages) ∧
      (hv'.vcpus v).messages = storeMessage (hv.vcpus v).messages (hv.vcpus caller).vm.id
        (moveFromPreviousGuestGPR p hv.cpu REG_A2) buffer ∧
      (hv.vcpus v).messages.numMessages ≠ MESSAGELIST_SZ ∧
      moveFromPreviousGuestGPR p hv.cpu REG_A2 ≤ MESSAGE_SZ := by
  cases h with
  | stored v mem init room size cpu guestctl2 =>
    refine ⟨fun w hw => ?_, ?_, room, size⟩
    · obtain ⟨critical, heq⟩ := fastInterruptDelivery_vcpu _ v w
      rw [heq]
      simp [hw]
    · obtain ⟨critical, heq⟩ := fastInterruptDelivery_vcpu _ v v
      rw [heq]
      simp

/-- The rings and the logs of `n` VCPUs agree. -/
structure Queued (s : Comm) (n : Nat) : Prop where
  ready : Ready s.hv n
  queue : ∀ v < n, ∃ queue, HoldsQueue (s.hv.vcpus v).messages queue ∧
    s.accepted v = s.received v ++ queue

theorem Queued.frame {s : Comm} {n : Nat} (h : Queued s n) {hv : Hv} (hready : Ready hv n)
    (hmessages : ∀ v, (hv.vcpus v).messages = (s.hv.vcpus v).messages) :
    Queued { s with hv := hv } n := by
  refine ⟨hready, fun v hv => ?_⟩
  obtain ⟨queue, hholds, heq⟩ := h.queue v hv
  exact ⟨queue, by rw [hmessages v]; exact hholds, heq⟩

theorem Queued.send {s : Comm} {n : Nat} (h : Queued s n) (p : Platform) (quantum : UInt32)
    (caller : VcpuPtr) (targetId messagePtr messageSize : UInt32) (buffer : Nat → UInt8) :
    ∃ t, commStep p quantum s (.send caller targetId messagePtr messageSize buffer) = some t ∧
      Queued t n := by
  have hsame := hypercall_same p s.hv caller (sendArgs targetId messagePtr messageSize)
  have hready := h.ready.same hsame
  obtain ⟨r, hv', hcall, ho⟩ := intervmSendMsg_outcome (p := p) hready
    (hypercall_executing p s.hv caller _) buffer
  cases r with
  | none =>
    refine ⟨_, by simp only [commStep, hcall], h.frame (ho.ready hready) fun v => ?_⟩
    rw [ho.messages_none v, hsame.messages v]
  | some v =>
    refine ⟨_, by simp only [commStep, hcall]; rfl, ho.ready hready, fun w hw => ?_⟩
    obtain ⟨hothers, hstored, hroom, hsize⟩ := ho.messages_some
    obtain ⟨queue, hholds, heq⟩ := h.queue w hw
    rw [hypercall_sendSize] at hstored hsize
    rw [hsame.messages v, hsame.vm caller] at hstored
    rw [hsame.messages v] at hroom
    by_cases hwv : w = v
    · subst hwv
      refine ⟨_, hstored ▸ hholds.store hroom hsize buffer, ?_⟩
      simp [Comm.accept, heq]
    · refine ⟨queue, ?_, ?_⟩
      · show HoldsQueue (hv'.vcpus w).messages queue
        rw [hothers w hwv, hsame.messages w]
        exact hholds
      · simpa [Comm.accept, hwv] using heq

theorem Queued.recv {s : Comm} {n : Nat} (h : Queued s n) (p : Platform) (quantum : UInt32)
    (caller : VcpuPtr) (messagePtr : UInt32) :
    ∃ t, commStep p quantum s (.recv caller messagePtr) = some t ∧ Queued t n := by
  have hsame := hypercall_same p s.hv caller [(REG_A0, messagePtr)]
  have hready := h.ready.same hsame
  obtain ⟨r, hv', hcall, ho⟩ := intervmRecvMsg_outcome (p := p)
    (hypercall_executing p s.hv caller [(REG_A0, messagePtr)])
  have hnext := RecvOutcome.ready ho hready
  cases ho with
  | empty empty =>
    exact ⟨_, by simp only [commStep, hcall], h.frame hnext fun v => hsame.messages v⟩
  | received nonempty message head cpu size sourceId guestctl2 =>
    refine ⟨_, by simp only [commStep, hcall]; rfl, hnext, fun w hw => ?_⟩
    obtain ⟨queue, hholds, heq⟩ := h.queue w hw
    by_cases hwv : w = caller
    · subst hwv
      rw [hsame.messages w] at nonempty head
      obtain ⟨rest, hqueue, hrest⟩ := hholds.release nonempty
      refine ⟨rest, ?_, ?_⟩
      · simp only [Comm.receive, Hv.setVcpu_self, hsame.messages w]
        exact hrest
      · simp only [Comm.receive, Function.update_self, heq, hqueue, List.append_assoc,
          List.singleton_append,
          Hv.setVcpu_cpu, size, sourceId, head]
        rfl
    · refine ⟨queue, ?_, ?_⟩
      · simp only [Comm.receive, Hv.setVcpu_of_ne _ _ hwv, hsame.messages w]
        exact hholds
      · simpa [Comm.receive, hwv] using heq

theorem Queued.step {s : Comm} {n : Nat} (h : Queued s n) (p : Platform) (quantum : UInt32)
    (e : CommEvent) : ∃ t, commStep p quantum s e = some t ∧ Queued t n := by
  cases e with
  | kernel e =>
    obtain ⟨hv', hstep, hready⟩ := h.ready.step p quantum e
    exact ⟨_, by rw [commStep, hstep]; rfl, h.frame hready (step_messages h.ready hstep)⟩
  | switchTo aux =>
    have hsame := contextSwitch_same p s.hv aux
    exact ⟨_, rfl, h.frame (h.ready.same hsame) hsame.messages⟩
  | send caller targetId messagePtr messageSize buffer =>
    exact h.send p quantum caller targetId messagePtr messageSize buffer
  | recv caller messagePtr => exact h.recv p quantum caller messagePtr

/-- The hypervisor after `initializeMachines`, with empty logs. -/
def commStart (p : Platform) (power : Power) (vmconf : List VmConf) : Comm where
  hv := initializeMachines p power vmconf
  accepted := fun _ => []
  received := fun _ => []

theorem commStart_queued (p : Platform) (power : Power) (vmconf : List VmConf) :
    Queued (commStart p power vmconf) vmconf.length := by
  have hbooted := initializeMachines_booted p power vmconf
  refine ⟨hbooted.isReady, fun v hv => ⟨[], ?_, rfl⟩⟩
  show HoldsQueue ((vmconf.foldl (createVm p) _).hv.vcpus v).messages []
  rw [(hbooted.vcpus v hv).messages]
  exact emptyMessages_holds

/-- The queue of the VCPU `v`. -/
structure QueueIntegrity (s : Comm) (v : VcpuPtr) : Prop where
  inIndex : (s.hv.vcpus v).messages.inIndex < MESSAGELIST_SZ
  outIndex : (s.hv.vcpus v).messages.outIndex < MESSAGELIST_SZ
  numMessages : (s.hv.vcpus v).messages.numMessages ≤ MESSAGELIST_SZ
  wrap : (s.hv.vcpus v).messages.inIndex.toNat = ((s.hv.vcpus v).messages.outIndex.toNat +
    (s.hv.vcpus v).messages.numMessages.toNat) % MESSAGELIST_SZ.toNat
  sizes : ∀ i < MESSAGELIST_SZ.toNat, ((s.hv.vcpus v).messages.messageList i).size ≤ MESSAGE_SZ
  inOrder : s.received v <+: s.accepted v
  waiting : (s.accepted v).drop (s.received v).length = queued (s.hv.vcpus v).messages

/-- A send that is rejected and a receive that finds nothing leave every ring as it is. -/
structure RejectsCleanly (p : Platform) (hv : Hv) : Prop where
  send : ∀ caller targetId messagePtr messageSize buffer hv',
    intervmSendMsg p buffer (hypercall p hv caller (sendArgs targetId messagePtr messageSize)) =
      .ok (none, hv') → ∀ w, (hv'.vcpus w).messages = (hv.vcpus w).messages
  recv : ∀ caller messagePtr hv',
    intervmRecvMsg p (hypercall p hv caller [(REG_A0, messagePtr)]) = .ok (none, hv') →
      ∀ w, (hv'.vcpus w).messages = (hv.vcpus w).messages

theorem Queued.integrity {s : Comm} {n : Nat} (h : Queued s n) {v : VcpuPtr} (hv : v < n) :
    QueueIntegrity s v := by
  obtain ⟨queue, hholds, heq⟩ := h.queue v hv
  refine ⟨hholds.inIndex, hholds.outIndex, hholds.numMessages, hholds.wrap, hholds.sizes, ?_, ?_⟩
  · exact heq ▸ List.prefix_append _ _
  · rw [heq, List.drop_left, hholds.queue]

theorem Ready.rejectsCleanly {hv : Hv} {n : Nat} (h : Ready hv n) (p : Platform) :
    RejectsCleanly p hv := by
  constructor
  · intro caller targetId messagePtr messageSize buffer hv' hcall w
    have hsame := hypercall_same p hv caller (sendArgs targetId messagePtr messageSize)
    obtain ⟨r, hv'', hcall', ho⟩ := intervmSendMsg_outcome (p := p) (h.same hsame)
      (hypercall_executing p hv caller _) buffer
    rw [hcall, Except.ok.injEq, Prod.mk.injEq] at hcall'
    obtain ⟨rfl, rfl⟩ := hcall'
    rw [ho.messages_none w, hsame.messages w]
  · intro caller messagePtr hv' hcall w
    have hsame := hypercall_same p hv caller [(REG_A0, messagePtr)]
    obtain ⟨r, hv'', hcall', ho⟩ := intervmRecvMsg_outcome (p := p)
      (hypercall_executing p hv caller [(REG_A0, messagePtr)])
    rw [hcall, Except.ok.injEq, Prod.mk.injEq] at hcall'
    obtain ⟨rfl, rfl⟩ := hcall'
    cases ho with
    | empty empty => exact hsame.messages w

/-- From the creation of the VMs on, every run is defined; each VCPU receives a prefix of what was
accepted for it, the rest is in its ring, and a call that is turned down leaves the rings as they
are. -/
theorem messageQueue_integrity (p : Platform) (quantum : UInt32) (power : Power)
    (vmconf : List VmConf) (es : List CommEvent) :
    ∃ s, run (commStep p quantum) (commStart p power vmconf) es = some s ∧
      (∀ v < vmconf.length, QueueIntegrity s v) ∧ RejectsCleanly p s.hv := by
  obtain ⟨s, hrun, h⟩ := run_defined (fun _ e _ hs => Queued.step hs p quantum e)
    (commStart_queued p power vmconf)
  exact ⟨s, hrun, fun v hv => h.integrity hv, Ready.rejectsCleanly h.ready p⟩

end PrplHypervisor.Drivers
