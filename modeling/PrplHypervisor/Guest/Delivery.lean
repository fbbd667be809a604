import PrplHypervisor.Guest.Network

/-! Messages from end to end: from an accepted send, through the ring of the target's VCPU and the
list of its guest, to `ReceiveMessage`.  The interrupt routine takes one step for each hypercall, so
other guests can run between two of them.  Nothing is lost or reordered, but a slot of the guest's
list is one byte shorter than the largest message. -/

namespace PrplHypervisor.Guest

open Arch Kernel Drivers Lib.Ring Lib.Runs

/-- `MESSAGE_SZ` of the guest's library: the size of the array in a slot of its list. -/
def GUEST_MESSAGE_SZ : UInt32 := 255

/-- One iteration of the loop of `irq_network`: the value of `ret` for the next one, if the loop
goes on. -/
def irqIteration (p : Platform) (v : VcpuPtr) (slot : UInt32 → UInt32) (ret : UInt32) (s : Net) :
    Option (Option UInt32 × Net) :=
  let list := s.lists v
  if ret ≠ 0 ∧ list.numMessages < MESSAGELIST_SZ then
    match ipcRecv p v (slot list.inIndex) s.hv with
    | .error _ => none
    | .ok ((ret, sourceId, bytes), hv) =>
      let message := Message.receive (list.messages list.inIndex.toNat) ret sourceId bytes
      let list := { list with
        messages := Function.update list.messages list.inIndex.toNat message }
      if ret = MESSAGE_EMPTY then some (none, Net.setList { s with hv := hv } v list)
      else some (some ret, Net.setList { s with hv := hv } v { list with
        inIndex := (list.inIndex + 1) % MESSAGELIST_SZ
        numMessages := list.numMessages + 1 })
  else some (none, s)

/-- The loop of `irq_network` is a sequence of iterations. -/
theorem irqLoop_succ (p : Platform) (v : VcpuPtr) (slot : UInt32 → UInt32) (k : Nat) (ret : UInt32)
    (s : Net) : irqLoop p v slot (k + 1) ret s =
      (irqIteration p v slot ret s).bind fun r =>
        match r with
        | (none, t) => some t
        | (some ret, t) => irqLoop p v slot k ret t := by
  rw [irqLoop, irqIteration]
  dsimp only
  split_ifs with hloop
  · cases ipcRecv p v (slot (s.lists v).inIndex) s.hv with
    | error e => rfl
    | ok r =>
      dsimp only
      split_ifs <;> rfl
  · rfl

/-- The hypervisor and the guests' lists, `ret` of each guest that runs `irq_network`, and the
messages accepted for each VCPU, moved to its list, and given to the callers of `ReceiveMessage`. -/
structure Delivery where
  net : Net
  routine : VcpuPtr → Option UInt32
  accepted : VcpuPtr → List Packet
  moved : VcpuPtr → List Packet
  dequeued : VcpuPtr → List Packet

def Delivery.setHv (s : Delivery) (hv : Hv) : Delivery := { s with net := { s.net with hv := hv } }

/-- A step of the kernel, a context switch, `SendMessage` by the guest of `caller`, the start of
`irq_network` in the guest of `v`, one iteration of its loop, or `ReceiveMessage`. -/
inductive DeliveryEvent
  | kernel (e : Event)
  | switchTo (aux : Option VcpuPtr)
  | sendMessage (caller : VcpuPtr) (targetId message size : UInt32) (buffer : Nat → UInt8)
  | irqEnter (v : VcpuPtr)
  | irqIterate (v : VcpuPtr) (slot : UInt32 → UInt32)
  | receiveMessage (v : VcpuPtr) (bufsz : UInt32) (block : Bool)

def deliveryStep (p : Platform) (quantum : UInt32) (s : Delivery) : DeliveryEvent → Option Delivery
  | .kernel e => (step p quantum s.net.hv e).map s.setHv
  | .switchTo aux => some (s.setHv (contextSwitch p s.net.hv aux))
  | .sendMessage caller targetId message size buffer =>
    match intervmSendMsg p buffer
        (hypercall p s.net.hv caller (sendArgs targetId message size)) with
    | .error _ => none
    | .ok (none, hv) => some (s.setHv hv)
    | .ok (some v, hv) => some { s.setHv hv with
        accepted := Function.update s.accepted v (s.accepted v ++
          [⟨(s.net.hv.vcpus caller).vm.id, size, (List.range size.toNat).map buffer⟩]) }
  | .irqEnter v =>
    if s.routine v = none ∧ (s.net.lists v).numMessages ≠ MESSAGELIST_SZ then
      some { s with routine := Function.update s.routine v (some 1) }
    else some s
  | .irqIterate v slot =>
    match s.routine v with
    | none => some s
    | some ret =>
      match irqIteration p v slot ret s.net with
      | none => none
      | some (none, net) => some { s with
          net := net, routine := Function.update s.routine v none }
      | some (some ret, net) =>
        let message := (net.lists v).messages (s.net.lists v).inIndex.toNat
        some { s with
          net := net
          routine := Function.update s.routine v (some ret)
          moved := Function.update s.moved v (s.moved v ++ [Packet.ofSlot message]) }
  | .receiveMessage v bufsz block =>
    -- the library disables the interrupt that runs `irq_network`
    match s.routine v, receiveMessage (s.net.lists v) bufsz block with
    | some _, _ => some s
    | none, none => some s
    | none, some ((_, none), list) => some { s with net := s.net.setList v list }
    | none, some ((size, some (source, bytes)), list) => some { s with
        net := s.net.setList v list
        dequeued := Function.update s.dequeued v (s.dequeued v ++ [⟨source, size, bytes⟩]) }

/-- The guests of the `n` VCPUs receive with a buffer that is large enough. -/
def DeliveryEvent.Valid (n : Nat) : DeliveryEvent → Prop
  | .irqIterate v _ => v < n
  | .receiveMessage v bufsz _ => v < n ∧ MESSAGE_SZ ≤ bufsz
  | _ => True

instance (n : Nat) : (e : DeliveryEvent) → Decidable (e.Valid n)
  | .irqIterate v _ => inferInstanceAs (Decidable (v < n))
  | .receiveMessage v bufsz _ => inferInstanceAs (Decidable (v < n ∧ MESSAGE_SZ ≤ bufsz))
  | .kernel _ | .switchTo _ | .sendMessage .. | .irqEnter _ => isTrue trivial

/-! ### The list of a guest -/

/-- The messages in a guest's list, oldest first. -/
def held (list : MessageList) : List Packet :=
  (window list.messages list.outIndex.toNat list.numMessages.toNat MESSAGELIST_SZ.toNat).map
    Packet.ofSlot

/-- The list is well formed and holds the messages of `queue`. -/
structure ListHolds (list : MessageList) (queue : List Packet) : Prop where
  indexes : RingIndexes list.inIndex list.outIndex list.numMessages
  sizes : ∀ m ∈ queue, m.size ≤ MESSAGE_SZ
  queue : held list = queue

variable {list : MessageList} {queue : List Packet}

theorem ListHolds.push (h : ListHolds list queue) (room : list.numMessages < MESSAGELIST_SZ)
    {m : Message} (hsize : m.size ≤ MESSAGE_SZ) :
    ListHolds { list with
      messages := Function.update list.messages list.inIndex.toNat m
      inIndex := (list.inIndex + 1) % MESSAGELIST_SZ
      numMessages := list.numMessages + 1 } (queue ++ [Packet.ofSlot m]) where
  indexes := h.indexes.push (UInt32.ne_of_lt room)
  sizes := by
    intro x hx
    rcases List.mem_append.mp hx with hx | hx
    · exact h.sizes x hx
    · obtain rfl := List.mem_singleton.mp hx
      exact hsize
  queue := by
    simp only [held]
    rw [h.indexes.window_push (UInt32.ne_of_lt room), List.map_append, ← h.queue, held]
    rfl

/-- A slot that is not in use can hold anything. -/
theorem ListHolds.scratch (h : ListHolds list queue) (room : list.numMessages < MESSAGELIST_SZ)
    (m : Message) :
    ListHolds { list with messages := Function.update list.messages list.inIndex.toNat m }
      queue where
  indexes := h.indexes
  sizes := h.sizes
  queue := by
    rw [← h.queue, held, held]
    dsimp only
    rw [h.indexes.wrap, window_update_next (h.indexes.lt_of_room (UInt32.ne_of_lt room))]

theorem ListHolds.pop (h : ListHolds list queue) (nonempty : list.numMessages ≠ 0) :
    ∃ rest, queue = Packet.ofSlot (list.messages list.outIndex.toNat) :: rest ∧
      ListHolds { list with
        outIndex := (list.outIndex + 1) % MESSAGELIST_SZ
        numMessages := list.numMessages - 1 } rest := by
  have hwindow := h.queue
  rw [held, h.indexes.window_pop nonempty, List.map_cons] at hwindow
  refine ⟨_, hwindow.symm, h.indexes.pop nonempty, fun m hm => ?_, rfl⟩
  exact h.sizes m (hwindow ▸ List.mem_cons_of_mem _ hm)

/-- What `ipc_recv` stores in a slot is the message that the hypervisor sent. -/
theorem ofSlot_receive (old m : Message) :
    Packet.ofSlot (Message.receive old m.size m.sourceId (some (Packet.ofSlot m).bytes)) =
      Packet.ofSlot m := by
  simp only [Packet.ofSlot, Message.receive, Packet.mk.injEq, true_and]
  refine List.map_congr_left fun i hi => ?_
  rw [List.getD_eq_getElem?_getD, List.getElem?_map, List.getElem?_range (List.mem_range.mp hi)]
  rfl

/-! ### Runs -/

/-- The messages accepted for `v` were given to the callers of `ReceiveMessage`, or are in the
guest's list, or wait in the ring of the VCPU. -/
structure Channel (s : Delivery) (v : VcpuPtr) (held waiting : List Packet) : Prop where
  list : ListHolds (s.net.lists v) held
  ring : HoldsQueue (s.net.hv.vcpus v).messages waiting
  moved : s.moved v = s.dequeued v ++ held
  accepted : s.accepted v = s.moved v ++ waiting

structure Delivering (s : Delivery) (n : Nat) : Prop where
  ready : Ready s.net.hv n
  channel : ∀ v < n, ∃ held waiting, Channel s v held waiting

variable {p : Platform} {quantum : UInt32} {s t : Delivery} {n : Nat} {v : VcpuPtr}

/-- A step that changes no ring and none of the guests' data. -/
theorem Delivering.setHv (h : Delivering s n) {hv : Hv} (hready : Ready hv n)
    (hmessages : ∀ v, (hv.vcpus v).messages = (s.net.hv.vcpus v).messages) :
    Delivering (s.setHv hv) n where
  ready := hready
  channel := by
    intro v hlt
    obtain ⟨held, waiting, hc⟩ := h.channel v hlt
    exact ⟨held, waiting, hc.list, (hmessages v).symm ▸ hc.ring, hc.moved, hc.accepted⟩

theorem Delivering.sendMessage (h : Delivering s n) (p : Platform) (quantum : UInt32)
    (caller : VcpuPtr) (targetId message size : UInt32) (buffer : Nat → UInt8) :
    ∃ t, deliveryStep p quantum s (.sendMessage caller targetId message size buffer) = some t ∧
      Delivering t n ∧ t.moved = s.moved := by
  have hsame := hypercall_same p s.net.hv caller (sendArgs targetId message size)
  have hready := h.ready.same hsame
  obtain ⟨r, hv', hcall, ho⟩ := intervmSendMsg_outcome (p := p) hready
    (hypercall_executing p s.net.hv caller _) buffer
  cases r with
  | none =>
    refine ⟨_, by simp only [deliveryStep, hcall], h.setHv (ho.ready hready) fun v => ?_, rfl⟩
    rw [ho.messages_none v, hsame.messages v]
  | some v =>
    refine ⟨_, by simp only [deliveryStep, hcall]; rfl, ⟨ho.ready hready, fun w hw => ?_⟩, ?_⟩
    swap
    · rfl
    obtain ⟨hothers, hstored, hroom, hsize⟩ := ho.messages_some
    rw [hypercall_sendSize] at hstored hsize
    rw [hsame.messages v, hsame.vm caller] at hstored
    rw [hsame.messages v] at hroom
    obtain ⟨held, waiting, hc⟩ := h.channel w hw
    by_cases hwv : w = v
    · subst hwv
      refine ⟨held, _, hc.list, hstored ▸ hc.ring.store hroom hsize buffer, hc.moved, ?_⟩
      simp [Delivery.setHv, hc.accepted]
    · refine ⟨held, waiting, hc.list, ?_, hc.moved, ?_⟩
      · show HoldsQueue (hv'.vcpus w).messages waiting
        rw [hothers w hwv, hsame.messages w]
        exact hc.ring
      · simpa [Delivery.setHv, hwv] using hc.accepted

/-- What an iteration does when the ring of its VCPU holds `waiting` and its list holds `held`. -/
inductive Iterated (s : Net) (n : Nat) (v : VcpuPtr) (held waiting : List Packet) (ret : UInt32) :
    Option UInt32 → Net → Prop
  | stop (stop : ¬(ret ≠ 0 ∧ (s.lists v).numMessages < MESSAGELIST_SZ)) :
      Iterated s n v held waiting ret none s
  | empty (hv : Hv) (list : MessageList) (nil : waiting = []) (ready : Ready hv n)
      (others : ∀ w, w ≠ v → (hv.vcpus w).messages = (s.hv.vcpus w).messages)
      (ring : HoldsQueue (hv.vcpus v).messages []) (holds : ListHolds list held) :
      Iterated s n v held waiting ret none (Net.setList { s with hv := hv } v list)
  | moves (hv : Hv) (list : MessageList) (next : UInt32) (m : Packet) (rest : List Packet)
      (loop : ret ≠ 0 ∧ (s.lists v).numMessages < MESSAGELIST_SZ) (cons : waiting = m :: rest)
      (ready : Ready hv n)
      (others : ∀ w, w ≠ v → (hv.vcpus w).messages = (s.hv.vcpus w).messages)
      (ring : HoldsQueue (hv.vcpus v).messages rest) (holds : ListHolds list (held ++ [m]))
      (slot : Packet.ofSlot (list.messages (s.lists v).inIndex.toNat) = m) :
      Iterated s n v held waiting ret (some next) (Net.setList { s with hv := hv } v list)

theorem irqIteration_cases {s : Net} {held waiting : List Packet} (hready : Ready s.hv n)
    (hlist : ListHolds (s.lists v) held) (hring : HoldsQueue (s.hv.vcpus v).messages waiting)
    (slot : UInt32 → UInt32) (ret : UInt32) :
    ∃ next net, irqIteration p v slot ret s = some (next, net) ∧
      Iterated s n v held waiting ret next net := by
  unfold irqIteration
  dsimp only
  split_ifs with hloop
  · obtain ⟨ret', sourceId, bytes, hv', hrecv, hnext, hothers, -, hcases⟩ :=
      ipcRecv_cases (p := p) hready hring (slot (s.lists v).inIndex)
    simp only [hrecv]
    rcases hcases with ⟨hnil, hret, hempty⟩ | ⟨m, rest, hcons, hret, hsource, hbytes, hsize, hrest⟩
    · rw [if_pos hret]
      exact ⟨_, _, rfl, .empty hv' _ hnil hnext hothers hempty (hlist.scratch hloop.2 _)⟩
    · have hnot : ret' ≠ MESSAGE_EMPTY := by
        intro hempty
        rw [← hret, hempty] at hsize
        exact absurd hsize (by decide)
      rw [if_neg hnot, hret, hsource, hbytes]
      have hpush := hlist.push hloop.2 (m := Message.receive
        ((s.lists v).messages (s.lists v).inIndex.toNat) m.size m.sourceId
          (some (Packet.ofSlot m).bytes)) hsize
      rw [ofSlot_receive] at hpush
      refine ⟨_, _, rfl, .moves hv' _ m.size _ rest hloop hcons hnext hothers hrest hpush ?_⟩
      dsimp only
      rw [Function.update_self, ofSlot_receive]
  · exact ⟨none, s, rfl, .stop hloop⟩

/-- Every message that was moved to a guest's list fits in the array of its slot. -/
def AllStored (s : Delivery) (n : Nat) : Prop :=
  ∀ v < n, ∀ m ∈ s.moved v, m.size ≤ GUEST_MESSAGE_SZ

/-- The condition on a step: an iteration of `irq_network` that takes a message takes one that is
shorter than the largest one. -/
def Fits (s : Delivery) : DeliveryEvent → Prop
  | .irqIterate v _ => ∀ ret ∈ s.routine v, ret ≠ 0 ∧ (s.net.lists v).numMessages < MESSAGELIST_SZ →
      ∀ m ∈ (queued (s.net.hv.vcpus v).messages).head?, m.size ≤ GUEST_MESSAGE_SZ
  | _ => True

theorem allStored_congr (hmoved : t.moved = s.moved) : AllStored t n ↔ AllStored s n := by
  rw [AllStored, hmoved, AllStored]

theorem allStored_push {m : Packet} (hlt : v < n)
    (hmoved : t.moved = Function.update s.moved v (s.moved v ++ [m])) :
    AllStored t n ↔ AllStored s n ∧ m.size ≤ GUEST_MESSAGE_SZ := by
  constructor
  · intro h
    refine ⟨fun w hw x hx => h w hw x ?_, h v hlt m ?_⟩
    · rw [hmoved, Function.update_apply]
      split_ifs with hwv
      · exact List.mem_append_left _ (hwv ▸ hx)
      · exact hx
    · rw [hmoved, Function.update_self]
      exact List.mem_append_right _ List.mem_cons_self
  · rintro ⟨h, hm⟩ w hw x hx
    rw [hmoved, Function.update_apply] at hx
    split_ifs at hx with hwv
    · rcases List.mem_append.mp hx with hx | hx
      · exact h w hw x (hwv ▸ hx)
      · exact List.mem_singleton.mp hx ▸ hm
    · exact h w hw x hx

/-- The VCPU `v` takes a step of its own, and the channels of the others stay as they are. -/
theorem Delivering.own (h : Delivering s n) (hready : Ready t.net.hv n)
    (hrings : ∀ w, w ≠ v → (t.net.hv.vcpus w).messages = (s.net.hv.vcpus w).messages)
    (hlists : ∀ w, w ≠ v → t.net.lists w = s.net.lists w)
    (haccepted : t.accepted = s.accepted) (hmoved : ∀ w, w ≠ v → t.moved w = s.moved w)
    (hdequeued : ∀ w, w ≠ v → t.dequeued w = s.dequeued w)
    (hv : v < n → ∃ held waiting, Channel t v held waiting) : Delivering t n where
  ready := hready
  channel := by
    intro w hw
    by_cases hwv : w = v
    · exact hwv ▸ hv (hwv ▸ hw)
    · obtain ⟨held, waiting, hc⟩ := h.channel w hw
      refine ⟨held, waiting, ?_, ?_, ?_, ?_⟩
      · rw [hlists w hwv]
        exact hc.list
      · rw [hrings w hwv]
        exact hc.ring
      · rw [hmoved w hwv, hdequeued w hwv]
        exact hc.moved
      · rw [haccepted, hmoved w hwv]
        exact hc.accepted

theorem Delivering.irqIterate (h : Delivering s n) (p : Platform) (quantum : UInt32) (hlt : v < n)
    (slot : UInt32 → UInt32) :
    ∃ t, deliveryStep p quantum s (.irqIterate v slot) = some t ∧ Delivering t n ∧
      (AllStored t n ↔ AllStored s n ∧ Fits s (.irqIterate v slot)) := by
  obtain ⟨held, waiting, hc⟩ := h.channel v hlt
  have hqueued : queued (s.net.hv.vcpus v).messages = waiting := hc.ring.queue
  cases hroutine : s.routine v with
  | none =>
    refine ⟨s, by simp only [deliveryStep, hroutine], h, (and_iff_left ?_).symm⟩
    intro ret hret
    rw [hroutine] at hret
    cases hret
  | some ret =>
    obtain ⟨next, net, hiter, hcases⟩ :=
      irqIteration_cases (p := p) h.ready hc.list hc.ring slot ret
    simp only [deliveryStep, hroutine, hiter, Fits, Option.mem_def, Option.some.injEq, forall_eq',
      hqueued]
    cases hcases with
    | stop stop =>
      refine ⟨_, rfl, ⟨h.ready, fun w hw => ?_⟩, ?_⟩
      · obtain ⟨held, waiting, hc⟩ := h.channel w hw
        exact ⟨held, waiting, hc.list, hc.ring, hc.moved, hc.accepted⟩
      · rw [allStored_congr (s := s) rfl]
        exact (and_iff_left fun hloop => absurd hloop stop).symm
    | empty hv list nil ready others ring holds =>
      refine ⟨_, rfl, ?_, ?_⟩
      · refine h.own (v := v) ready others (fun w hw => Function.update_of_ne hw _ _) rfl
          (fun _ _ => rfl) (fun _ _ => rfl) fun _ =>
            ⟨held, [], ?_, ring, hc.moved, nil ▸ hc.accepted⟩
        simpa only [Net.setList, Function.update_self] using holds
      · rw [allStored_congr (s := s) rfl, nil]
        exact (and_iff_left fun _ m hm => by cases hm).symm
    | moves hv list next m rest loop cons ready others ring holds slot =>
      refine ⟨_, rfl, ?_, ?_⟩
      · refine h.own (v := v) ready others (fun w hw => Function.update_of_ne hw _ _) rfl
          (fun w hw => Function.update_of_ne hw _ _) (fun _ _ => rfl)
          fun _ => ⟨held ++ [m], rest, ?_, ring, ?_, ?_⟩
        · simpa only [Net.setList, Function.update_self] using holds
        · simp only [Net.setList, Function.update_self, slot, hc.moved, List.append_assoc]
        · simp only [Net.setList, Function.update_self, slot, hc.accepted, cons, List.append_assoc,
            List.singleton_append]
      · rw [allStored_push (s := s) (m := m) hlt
          (by simp only [Net.setList, Function.update_self, slot]), cons]
        exact and_congr_right fun _ =>
          ⟨fun hm _ x hx => Option.some.inj hx ▸ hm, fun hfits => hfits loop m rfl⟩

theorem Delivering.receiveMessage (h : Delivering s n) (p : Platform) (quantum : UInt32)
    {bufsz : UInt32} (hlt : v < n) (hbufsz : MESSAGE_SZ ≤ bufsz) (block : Bool) :
    ∃ t, deliveryStep p quantum s (.receiveMessage v bufsz block) = some t ∧ Delivering t n ∧
      t.moved = s.moved := by
  obtain ⟨held, waiting, hc⟩ := h.channel v hlt
  cases hroutine : s.routine v with
  | some ret => exact ⟨s, by simp only [deliveryStep, hroutine], h, rfl⟩
  | none =>
    by_cases hempty : (s.net.lists v).numMessages = 0
    · cases block with
      | true =>
        exact ⟨s, by simp only [deliveryStep, hroutine, Guest.receiveMessage, hempty, if_true], h,
          rfl⟩
      | false =>
        refine ⟨_, by simp only [deliveryStep, hroutine, Guest.receiveMessage, hempty, if_true,
          Bool.false_eq_true, if_false]; rfl, ?_, ?_⟩
        · refine h.own (v := v) h.ready (fun _ _ => rfl)
            (fun w hw => Function.update_of_ne hw _ _) rfl
            (fun _ _ => rfl) (fun _ _ => rfl)
            fun _ => ⟨held, waiting, ?_, hc.ring, hc.moved, hc.accepted⟩
          simpa only [Net.setList, Function.update_self] using hc.list
        · rfl
    · obtain ⟨rest, hcons, hrest⟩ := hc.list.pop hempty
      have hsize : ((s.net.lists v).messages (s.net.lists v).outIndex.toNat).size ≤ MESSAGE_SZ :=
        hc.list.sizes _ (hcons ▸ List.mem_cons_self)
      have hwhole : ¬((s.net.lists v).messages (s.net.lists v).outIndex.toNat).size > bufsz :=
        UInt32.not_lt.mpr (UInt32.le_trans hsize hbufsz)
      refine ⟨_, by simp only [deliveryStep, hroutine, Guest.receiveMessage, if_neg hempty,
        if_neg hwhole]; rfl, ?_, ?_⟩
      · refine h.own (v := v) h.ready (fun _ _ => rfl)
          (fun w hw => Function.update_of_ne hw _ _) rfl
          (fun _ _ => rfl) (fun w hw => Function.update_of_ne hw _ _)
          fun _ => ⟨rest, waiting, ?_, hc.ring, ?_, hc.accepted⟩
        · simpa only [Net.setList, Function.update_self] using hrest
        · simp only [Function.update_self, hc.moved, hcons, List.append_assoc,
            List.singleton_append]
          rfl
      · rfl

theorem Delivering.irqEnter (h : Delivering s n) (p : Platform) (quantum : UInt32) (v : VcpuPtr) :
    ∃ t, deliveryStep p quantum s (.irqEnter v) = some t ∧ Delivering t n ∧ t.moved = s.moved := by
  simp only [deliveryStep]
  split_ifs
  · refine ⟨_, rfl, ⟨h.ready, fun w hw => ?_⟩, rfl⟩
    obtain ⟨held, waiting, hc⟩ := h.channel w hw
    exact ⟨held, waiting, hc.list, hc.ring, hc.moved, hc.accepted⟩
  · exact ⟨s, rfl, h, rfl⟩

/-- The step lemma: every step is defined and keeps the channels, and only a step that takes a
message of the largest size leaves one that was not stored. -/
theorem Delivering.step (h : Delivering s n) (p : Platform) (quantum : UInt32) (e : DeliveryEvent)
    (hvalid : e.Valid n) :
    ∃ t, deliveryStep p quantum s e = some t ∧ Delivering t n ∧
      (AllStored t n ↔ AllStored s n ∧ Fits s e) := by
  have hframe : ∀ {t : Delivery}, t.moved = s.moved → (AllStored t n ↔ AllStored s n ∧ True) :=
    fun hmoved => (allStored_congr hmoved).trans (and_iff_left trivial).symm
  cases e with
  | kernel e =>
    obtain ⟨hv', hstep, hready⟩ := h.ready.step p quantum e
    exact ⟨_, by rw [deliveryStep, hstep]; rfl, h.setHv hready (step_messages h.ready hstep),
      hframe rfl⟩
  | switchTo aux =>
    have hsame := contextSwitch_same p s.net.hv aux
    exact ⟨_, rfl, h.setHv (h.ready.same hsame) hsame.messages, hframe rfl⟩
  | sendMessage caller targetId message size buffer =>
    obtain ⟨t, hstep, hnext, hmoved⟩ := h.sendMessage p quantum caller targetId message size buffer
    exact ⟨t, hstep, hnext, hframe hmoved⟩
  | irqEnter v =>
    obtain ⟨t, hstep, hnext, hmoved⟩ := h.irqEnter p quantum v
    exact ⟨t, hstep, hnext, hframe hmoved⟩
  | irqIterate v slot => exact h.irqIterate p quantum hvalid slot
  | receiveMessage v bufsz block =>
    obtain ⟨t, hstep, hnext, hmoved⟩ := h.receiveMessage p quantum hvalid.1 hvalid.2 block
    exact ⟨t, hstep, hnext, hframe hmoved⟩

/-- The hypervisor after `initializeMachines`, with the lists as `init_network` leaves them. -/
def deliveryStart (p : Platform) (power : Power) (vmconf : List VmConf) : Delivery where
  net := netStart p power vmconf
  routine := fun _ => none
  accepted := fun _ => []
  moved := fun _ => []
  dequeued := fun _ => []

theorem deliveryStart_delivering (p : Platform) (power : Power) (vmconf : List VmConf) :
    Delivering (deliveryStart p power vmconf) vmconf.length := by
  have hbooted := initializeMachines_booted p power vmconf
  refine ⟨hbooted.isReady, fun v hv => ⟨[], [], ⟨⟨?_, ?_, ?_, ?_⟩, ?_, ?_⟩, ?_, rfl, rfl⟩⟩
  · exact (by decide : (0 : UInt32) < MESSAGELIST_SZ)
  · exact (by decide : (0 : UInt32) < MESSAGELIST_SZ)
  · exact (by decide : (0 : UInt32) ≤ MESSAGELIST_SZ)
  · rfl
  · exact fun m hm => by cases hm
  · rfl
  · show HoldsQueue ((vmconf.foldl (createVm p) _).hv.vcpus v).messages []
    rw [(hbooted.vcpus v hv).messages]
    exact emptyMessages_holds

/-- The ring of the guest of `v` is well formed, and what `ReceiveMessage` gave is the beginning of
what was accepted for `v`. -/
structure InOrder (s : Delivery) (v : VcpuPtr) : Prop where
  inIndex : (s.net.lists v).inIndex < MESSAGELIST_SZ
  outIndex : (s.net.lists v).outIndex < MESSAGELIST_SZ
  numMessages : (s.net.lists v).numMessages ≤ MESSAGELIST_SZ
  wrap : (s.net.lists v).inIndex.toNat =
    ((s.net.lists v).outIndex.toNat + (s.net.lists v).numMessages.toNat) % MESSAGELIST_SZ.toNat
  inOrder : s.dequeued v <+: s.accepted v

/-- Moreover, every message that `irq_network` moved is within the array of its slot. -/
structure EndToEnd (s : Delivery) (v : VcpuPtr) : Prop extends InOrder s v where
  stored : ∀ m ∈ s.moved v, m.size ≤ GUEST_MESSAGE_SZ

theorem Delivering.inOrder (h : Delivering s n) (hlt : v < n) : InOrder s v := by
  obtain ⟨held, waiting, hc⟩ := h.channel v hlt
  have hindexes := hc.list.indexes
  refine ⟨hindexes.inIndex, hindexes.outIndex, hindexes.numMessages, hindexes.wrap, ?_⟩
  rw [hc.accepted, hc.moved, List.append_assoc]
  exact List.prefix_append _ _

/-- In every run from the creation of the VMs on, each guest's list is well formed and messages
arrive unmodified and in order; and all are stored within their slots exactly when no iteration of
`irq_network` takes a message of 256 bytes. -/
theorem endToEnd_iff (p : Platform) (quantum : UInt32) (power : Power) (vmconf : List VmConf)
    (es : List DeliveryEvent) (hvalid : ∀ e ∈ es, e.Valid vmconf.length) :
    ∃ s, run (deliveryStep p quantum) (deliveryStart p power vmconf) es = some s ∧
      (∀ v < vmconf.length, InOrder s v) ∧
      ((∀ v < vmconf.length, EndToEnd s v) ↔
        Guarded (deliveryStep p quantum) Fits (deliveryStart p power vmconf) es) := by
  have hstart := deliveryStart_delivering p power vmconf
  obtain ⟨s, hrun, h⟩ := run_defined (P := fun s => Delivering s vmconf.length)
    (fun s e he hs => by
      obtain ⟨t, hstep, ht, _⟩ := Delivering.step hs p quantum e (hvalid e he)
      exact ⟨t, hstep, ht⟩) hstart
  have hiff : AllStored s vmconf.length ↔ AllStored (deliveryStart p power vmconf) vmconf.length ∧
      Guarded (deliveryStep p quantum) Fits (deliveryStart p power vmconf) es :=
    run_guarded_iff (I := fun s => Delivering s vmconf.length)
      (P := fun s => AllStored s vmconf.length)
      (fun s e t he hs hstep => by
        obtain ⟨u, hu, hD, hP⟩ := Delivering.step hs p quantum e (hvalid e he)
        obtain rfl := Option.some.inj (hstep.symm.trans hu)
        exact ⟨hD, hP⟩) hstart hrun
  have hnone : AllStored (deliveryStart p power vmconf) vmconf.length := fun v _ m hm => by cases hm
  refine ⟨s, hrun, fun v hv => h.inOrder hv, ?_⟩
  constructor
  · intro hend
    exact (hiff.mp fun v hv m hm => (hend v hv).stored m hm).2
  · intro hfits v hv
    exact ⟨h.inOrder hv, hiff.mpr ⟨hnone, hfits⟩ v hv⟩

theorem endToEnd_pingPong :
    ∃ s, run (deliveryStep .pic32mz 5) (deliveryStart .pic32mz .cleared pingPong)
        [.switchTo (some 1), .sendMessage 0 2 0x80000100 64 (fun _ => 7), .irqEnter 1,
          .irqIterate 1 (fun _ => 0x80000200), .irqIterate 1 (fun _ => 0x80000200),
          .receiveMessage 1 256 true] = some s ∧
      (∀ v < 2, InOrder s v) ∧
      ((∀ v < 2, EndToEnd s v) ↔
        Guarded (deliveryStep .pic32mz 5) Fits (deliveryStart .pic32mz .cleared pingPong)
          [.switchTo (some 1), .sendMessage 0 2 0x80000100 64 (fun _ => 7), .irqEnter 1,
            .irqIterate 1 (fun _ => 0x80000200), .irqIterate 1 (fun _ => 0x80000200),
            .receiveMessage 1 256 true]) :=
  endToEnd_iff .pic32mz 5 .cleared pingPong _ (by simp only [List.forall_mem_cons]; decide)

/-- A message of 256 bytes, which the hypervisor accepts, is moved to a slot of 255. -/
theorem message_overruns_slot :
    ∃ s, run (deliveryStep .pic32mz 5) (deliveryStart .pic32mz .cleared pingPong)
        [.switchTo (some 1), .sendMessage 0 2 0x80000100 256 (fun _ => 7), .irqEnter 1,
          .irqIterate 1 (fun _ => 0x80000200)] = some s ∧ ¬EndToEnd s 1 := by
  have hrun : (run (deliveryStep .pic32mz 5) (deliveryStart .pic32mz .cleared pingPong)
      [.switchTo (some 1), .sendMessage 0 2 0x80000100 256 (fun _ => 7), .irqEnter 1,
        .irqIterate 1 (fun _ => 0x80000200)]).any
      (fun s => (s.moved 1).any fun m => GUEST_MESSAGE_SZ < m.size) := by
    decide +kernel
  obtain ⟨s, hs, hany⟩ := (Option.any_eq_true _ _).mp hrun
  obtain ⟨m, hm, hbig⟩ := List.any_eq_true.mp hany
  exact ⟨s, hs, fun h => UInt32.not_le.mpr (of_decide_eq_true hbig) (h.stored m hm)⟩

end PrplHypervisor.Guest
