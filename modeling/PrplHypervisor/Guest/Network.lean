import PrplHypervisor.Drivers.MessageQueue

/-! The inter-VM interrupt, with the guest library that answers it
(`bare-metal-apps/lib/network.c`).  `irq_network` moves messages from the hypervisor's ring to the
guest's own until the guest's is full or a message of size 0 arrives, while every receive clears the
interrupt.  A run in which the routine always finds room, and a message of size 0 only at the end,
leaves no message without an interrupt. -/

namespace PrplHypervisor.Guest

open Arch Kernel Drivers Lib.Runs Lib.Words

/-- The guest's `struct message_list_t`. -/
structure MessageList where
  inIndex : UInt32
  outIndex : UInt32
  numMessages : UInt32
  messages : Nat → Message

/-- The hypervisor and the message list of each guest. -/
structure Net where
  hv : Hv
  lists : VcpuPtr → MessageList

def Net.setList (s : Net) (v : VcpuPtr) (list : MessageList) : Net :=
  { s with lists := Function.update s.lists v list }

/-- `ipc_recv`, called by the guest of `v`: the values of the registers V0 and A0 after the
hypercall, and the bytes written at `msg`. -/
def ipcRecv (p : Platform) (v : VcpuPtr) (msg : UInt32) (hv : Hv) :
    Except Fault ((UInt32 × UInt32 × Option (List UInt8)) × Hv) := do
  let (bytes, hv) ← intervmRecvMsg p (hypercall p hv v [(REG_A0, msg)])
  return ((moveFromPreviousGuestGPR p hv.cpu REG_V0, moveFromPreviousGuestGPR p hv.cpu REG_A0,
    bytes), hv)

/-- A slot after `ipc_recv` wrote to it. -/
def Message.receive (m : Message) (ret sourceId : UInt32) (bytes : Option (List UInt8)) :
    Message where
  sourceId := sourceId
  size := ret
  message := fun i => match bytes with
    | some bytes => bytes.getD i (m.message i)
    | none => m.message i

/-- The loop of `irq_network`, with at most `n` iterations.  The slot `in` of the list is at the
address `slot in`. -/
def irqLoop (p : Platform) (v : VcpuPtr) (slot : UInt32 → UInt32) :
    Nat → UInt32 → Net → Option Net
  | 0, _, _ => none
  | n + 1, ret, s =>
    let list := s.lists v
    -- `ret` is the size of the message before, so one of size 0 ends the loop
    if ret ≠ 0 ∧ list.numMessages < MESSAGELIST_SZ then
      match ipcRecv p v (slot list.inIndex) s.hv with
      | .error _ => none
      | .ok ((ret, sourceId, bytes), hv) =>
        let message := Message.receive (list.messages list.inIndex.toNat) ret sourceId bytes
        let list := { list with
          messages := Function.update list.messages list.inIndex.toNat message }
        if ret = MESSAGE_EMPTY then some (Net.setList { s with hv := hv } v list)
        else irqLoop p v slot n ret (Net.setList { s with hv := hv } v { list with
          inIndex := (list.inIndex + 1) % MESSAGELIST_SZ
          numMessages := list.numMessages + 1 })
    else some s

/-- `irq_network`, run by the guest of `v`.  Each iteration but the last fills a slot of the guest's
list, so there are at most `MESSAGELIST_SZ + 1`. -/
def irqNetwork (p : Platform) (v : VcpuPtr) (slot : UInt32 → UInt32) (s : Net) : Option Net :=
  if (s.lists v).numMessages = MESSAGELIST_SZ then some s
  else irqLoop p v slot (MESSAGELIST_SZ.toNat + 1) 1 s

/-- `ReceiveMessage`: the source, the size and the bytes given to the caller.  With an empty list
it returns 0, or spins and does not return when it may block. -/
def receiveMessage (list : MessageList) (bufsz : UInt32) (block : Bool) :
    Option ((UInt32 × Option (UInt32 × List UInt8)) × MessageList) :=
  if list.numMessages = 0 then
    if block then none else some ((0, none), list)
  else
    let message := list.messages list.outIndex.toNat
    let size := if message.size > bufsz then bufsz else message.size
    some ((size, some (message.sourceId, (List.range size.toNat).map message.message)),
      { list with
        outIndex := (list.outIndex + 1) % MESSAGELIST_SZ
        numMessages := list.numMessages - 1 })

/-- A step of the kernel, a context switch, a send, a receive that a guest makes directly, or a
complete run of one of the library's routines. -/
inductive NetEvent
  | kernel (e : Event)
  | switchTo (aux : Option VcpuPtr)
  | send (caller : VcpuPtr) (targetId messagePtr messageSize : UInt32) (buffer : Nat → UInt8)
  | recv (caller : VcpuPtr) (messagePtr : UInt32)
  | irqNetwork (v : VcpuPtr) (slot : UInt32 → UInt32)
  | receiveMessage (v : VcpuPtr) (bufsz : UInt32) (block : Bool)

def netStep (p : Platform) (quantum : UInt32) (s : Net) : NetEvent → Option Net
  | .kernel e => (step p quantum s.hv e).map fun hv => { s with hv := hv }
  | .switchTo aux => some { s with hv := contextSwitch p s.hv aux }
  | .send caller targetId messagePtr messageSize buffer =>
    match intervmSendMsg p buffer
        (hypercall p s.hv caller (sendArgs targetId messagePtr messageSize)) with
    | .error _ => none
    | .ok (_, hv) => some { s with hv := hv }
  | .recv caller messagePtr =>
    match ipcRecv p caller messagePtr s.hv with
    | .error _ => none
    | .ok (_, hv) => some { s with hv := hv }
  | .irqNetwork v slot => Guest.irqNetwork p v slot s
  | .receiveMessage v bufsz block =>
    match Guest.receiveMessage (s.lists v) bufsz block with
    | none => some s
    | some (_, list) => some (s.setList v list)

/-- The virtual interrupt of the inter-VM communication. -/
def interVmBit (p : Platform) : UInt32 := GUEST_INTERVM_INT <<< VI_SHIFT p

/-- It is pending for `v`, in the saved register or, while `v` executes, in the processor's. -/
def InterVmPending (p : Platform) (hv : Hv) (v : VcpuPtr) : Prop :=
  HasBits (hv.vcpus v).guestclt2 (interVmBit p) ∨
    (hv.executing = some v ∧ HasBits (getGuestCTL2 hv.cpu) (interVmBit p))

instance (p : Platform) (hv : Hv) (v : VcpuPtr) : Decidable (InterVmPending p hv v) :=
  inferInstanceAs (Decidable (_ ∨ _))

/-! ### What each step does to the saved registers -/

/-- A change that keeps the saved interrupt of every VCPU in `P`. -/
def KeepsBit (p : Platform) (P : VcpuPtr → Prop) (before after : Hv) : Prop :=
  ∀ v, P v → HasBits (before.vcpus v).guestclt2 (interVmBit p) →
    HasBits (after.vcpus v).guestclt2 (interVmBit p)

theorem KeepsBit.trans {p : Platform} {P : VcpuPtr → Prop} {a b c : Hv} (hab : KeepsBit p P a b)
    (hbc : KeepsBit p P b c) : KeepsBit p P a c := fun v hv h => hbc v hv (hab v hv h)

theorem KeepsBit.setVcpu (p : Platform) (hv : Hv) (v : VcpuPtr) (vcpu : Vcpu)
    (h : HasBits (hv.vcpus v).guestclt2 (interVmBit p) →
      HasBits vcpu.guestclt2 (interVmBit p)) :
    KeepsBit p (fun _ => True) hv (hv.setVcpu v vcpu) := by
  intro w _ hbits
  rw [Hv.setVcpu_apply]
  split_ifs with heq
  · exact h (heq ▸ hbits)
  · exact hbits

theorem contextSave_keepsBit (p : Platform) (hv : Hv) :
    KeepsBit p (fun _ => True) hv (contextSave p hv) := by
  unfold contextSave
  cases hv.executing with
  | none => exact fun v _ h => h
  | some v =>
    simp only
    split
    · exact KeepsBit.setVcpu p hv v _ fun h => h.or _
    · exact fun v _ h => h

/-- A context switch keeps the interrupt: it clears the timer's bit, which is another one. -/
theorem contextSwitch_keepsBit (p : Platform) (hv : Hv) (aux : Option VcpuPtr) :
    KeepsBit p (fun _ => True) hv (contextSwitch p hv aux) := by
  have htimer : ~~~(GUEST_TIMER_INT p <<< GUESTCLT2_GRIPL_SHIFT) &&& interVmBit p =
      interVmBit p := by
    cases p <;> decide
  unfold contextSwitch
  split
  · apply KeepsBit.trans (contextSave_keepsBit p hv)
    unfold contextRestore
    cases aux with
    | none => exact fun v _ h => h
    | some v => exact KeepsBit.setVcpu p (contextSave p hv) v _ fun h => h.and_not htimer
  · exact fun v _ h => h

theorem hypercall_keepsBit (p : Platform) (hv : Hv) (caller : VcpuPtr)
    (args : List (Nat × UInt32)) : KeepsBit p (fun _ => True) hv (hypercall p hv caller args) := by
  have hargs : ∀ (args : List (Nat × UInt32)) (hv' : Hv) (v : VcpuPtr),
      (args.foldl (fun hv arg => setGuestGPR p hv arg.1 arg.2) hv').vcpus v = hv'.vcpus v := by
    intro args
    induction args with
    | nil => exact fun hv' v => rfl
    | cons arg args ih => exact fun hv' v => ih _ v
  intro v _ h
  rw [hypercall, hargs]
  exact contextSwitch_keepsBit p hv (some caller) v trivial h

theorem step_keepsBit {hv hv' : Hv} {n : Nat} (h : Ready hv n) {p : Platform} {quantum : UInt32}
    {e : Event} (hstep : step p quantum hv e = some hv') :
    KeepsBit p (fun _ => True) hv hv' := by
  intro w _ hbits
  cases e with
  | tick =>
    obtain ⟨l, hl, hholds⟩ := h.list
    rcases runScheduler_cases p quantum hholds (IsRotated.nodup_range hl) with
      ⟨_, hrun⟩ | ⟨_, pick, hv'', ho, hrun⟩
    · rw [step, hrun] at hstep
      obtain rfl := Option.some.inj hstep
      exact hbits
    · rw [step, hrun] at hstep
      obtain rfl := Option.some.inj hstep
      obtain ⟨critical, priorityRem, bgjobs, heq⟩ := ho.vcpu w
      apply contextSwitch_keepsBit p hv'' pick.vcpu w trivial
      rw [heq]
      exact hbits
  | deliver target =>
    obtain rfl := Option.some.inj hstep
    obtain ⟨critical, heq⟩ := fastInterruptDelivery_vcpu hv target w
    rw [heq]
    exact hbits
  | setState v state =>
    obtain rfl := Option.some.inj hstep
    obtain ⟨s, heq⟩ := setState_vcpu hv v w state
    rw [heq]
    exact hbits

theorem SendOutcome.keepsBit {p : Platform} {buffer : Nat → UInt8} {hv hv' : Hv} {n : Nat}
    {caller : VcpuPtr} {r : Option VcpuPtr} (h : SendOutcome p buffer hv n caller r hv') :
    KeepsBit p (fun _ => True) hv hv' ∧
      ∀ v, r = some v → HasBits (hv'.vcpus v).guestclt2 (interVmBit p) := by
  cases h with
  | rejected code => exact ⟨fun v _ h => h, by simp⟩
  | full v mem init full =>
    exact ⟨KeepsBit.setVcpu p hv v _ fun h => h.or _, by simp⟩
  | stored v mem init room size cpu guestctl2 =>
    constructor
    · intro w _ hbits
      obtain ⟨critical, heq⟩ := fastInterruptDelivery_vcpu _ v w
      rw [heq]
      exact KeepsBit.setVcpu p { hv with cpu := cpu } v _ (fun h => h.or _) w trivial hbits
    · intro w hw
      obtain rfl := Option.some.inj hw
      obtain ⟨critical, heq⟩ := fastInterruptDelivery_vcpu _ v v
      rw [heq]
      simp only [Hv.setVcpu_self]
      exact hasBits_or_self _ (by cases p <;> decide)

/-! ### Draining a ring -/

/-- The rings of `n` VCPUs are well formed, and those of the VCPUs in `P` have the interrupt saved
while they hold a message. -/
structure Alerted (p : Platform) (P : VcpuPtr → Prop) (n : Nat) (hv : Hv) : Prop where
  ready : Ready hv n
  holds : ∀ v < n, HoldsQueue (hv.vcpus v).messages (queued (hv.vcpus v).messages)
  saved : ∀ v < n, P v → queued (hv.vcpus v).messages ≠ [] →
    HasBits (hv.vcpus v).guestclt2 (interVmBit p)

variable {p : Platform} {P : VcpuPtr → Prop} {n : Nat} {hv hv' : Hv} {v : VcpuPtr}

theorem HoldsQueue.self {messages : MessageBuffer} {queue : List Packet}
    (h : HoldsQueue messages queue) : HoldsQueue messages (queued messages) :=
  h.queue.symm ▸ h

theorem Alerted.frame (h : Alerted p P n hv) (hready : Ready hv' n)
    (hmessages : ∀ v, (hv'.vcpus v).messages = (hv.vcpus v).messages)
    (hkeeps : KeepsBit p (fun _ => True) hv hv') : Alerted p P n hv' where
  ready := hready
  holds := fun v hv => by
    rw [hmessages v]
    exact h.holds v hv
  saved := fun v hv hP hne => by
    rw [hmessages v] at hne
    exact hkeeps v trivial (h.saved v hv hP hne)

theorem Alerted.drop (h : Alerted p P n hv) : Alerted p (fun w => P w ∧ w ≠ v) n hv where
  ready := h.ready
  holds := h.holds
  saved := fun w hw hP => h.saved w hw hP.1

theorem Alerted.add (h : Alerted p (fun w => P w ∧ w ≠ v) n hv)
    (hempty : queued (hv.vcpus v).messages = []) : Alerted p P n hv where
  ready := h.ready
  holds := h.holds
  saved := fun w hw hP hne => h.saved w hw ⟨hP, fun heq => hne (heq ▸ hempty)⟩ hne

theorem queued_nil_iff {messages : MessageBuffer} {queue : List Packet}
    (h : HoldsQueue messages queue) : messages.numMessages = 0 ↔ queue = [] := by
  rw [← h.queue, ← List.length_eq_zero_iff, queued, List.length_map, Lib.Ring.length_window,
    ← UInt32.toNat_inj, UInt32.toNat_zero]

/-- What a receive by the guest of `v` returns, and what it leaves in its ring. -/
theorem ipcRecv_cases (hready : Ready hv n) {queue : List Packet}
    (hholds : HoldsQueue (hv.vcpus v).messages queue) (msg : UInt32) :
    ∃ ret sourceId bytes after, ipcRecv p v msg hv = .ok ((ret, sourceId, bytes), after) ∧
      Ready after n ∧ (∀ w, w ≠ v → (after.vcpus w).messages = (hv.vcpus w).messages) ∧
      KeepsBit p (· ≠ v) hv after ∧
      ((queue = [] ∧ ret = MESSAGE_EMPTY ∧ HoldsQueue (after.vcpus v).messages []) ∨
        ∃ m : Message, ∃ rest, queue = Packet.ofSlot m :: rest ∧ ret = m.size ∧
          sourceId = m.sourceId ∧ bytes = some (Packet.ofSlot m).bytes ∧ m.size ≤ MESSAGE_SZ ∧
          HoldsQueue (after.vcpus v).messages rest) := by
  have hsame := hypercall_same p hv v [(REG_A0, msg)]
  have hkeeps := hypercall_keepsBit p hv v [(REG_A0, msg)]
  obtain ⟨r, after, hcall, ho⟩ := intervmRecvMsg_outcome (p := p)
    (hypercall_executing p hv v [(REG_A0, msg)])
  have hnext := RecvOutcome.ready ho (hready.same hsame)
  refine ⟨_, _, _, _, by simp only [ipcRecv, hcall, bind, Except.bind]; rfl, hnext, ?_⟩
  cases ho with
  | empty empty =>
    rw [hsame.messages v] at empty
    have hnil := (queued_nil_iff hholds).mp empty
    refine ⟨fun w _ => hsame.messages w, fun w _ => hkeeps w trivial,
      Or.inl ⟨hnil, by simp [setGuestGPR], ?_⟩⟩
    exact (hsame.messages v).symm ▸ hnil ▸ hholds
  | received nonempty message head cpu size sourceId guestctl2 =>
    rw [hsame.messages v] at nonempty head
    obtain ⟨rest, hqueue, hrest⟩ := hholds.release nonempty
    refine ⟨fun w hw => ?_, fun w hw hbits => ?_,
      Or.inr ⟨message, rest, head ▸ hqueue, size, sourceId, rfl, ?_, ?_⟩⟩
    · simp only [Hv.setVcpu_of_ne _ _ hw]
      exact hsame.messages w
    · simp only [Hv.setVcpu_of_ne _ _ hw]
      exact hkeeps w trivial hbits
    · exact head ▸ hholds.sizes _ (UInt32.lt_iff_toNat_lt.mp hholds.outIndex)
    · simpa only [Hv.setVcpu_self, hsame.messages v] using hrest

theorem Alerted.ipcRecv (h : Alerted p (fun w => P w ∧ w ≠ v) n hv) (hv' : v < n)
    (msg : UInt32) :
    ∃ ret sourceId bytes after, Guest.ipcRecv p v msg hv = .ok ((ret, sourceId, bytes), after) ∧
      Alerted p (fun w => P w ∧ w ≠ v) n after ∧
      ((ret = MESSAGE_EMPTY ∧ queued (hv.vcpus v).messages = [] ∧
          queued (after.vcpus v).messages = []) ∨
        ∃ m, queued (hv.vcpus v).messages = m :: queued (after.vcpus v).messages ∧
          ret = m.size ∧ ret ≠ MESSAGE_EMPTY) := by
  obtain ⟨ret, sourceId, bytes, after, hcall, hready, hothers, hkeeps, hcases⟩ :=
    ipcRecv_cases (p := p) h.ready (h.holds v hv') msg
  refine ⟨ret, sourceId, bytes, after, hcall, ⟨hready, fun w hw => ?_, fun w hw hP hne => ?_⟩, ?_⟩
  · by_cases hwv : w = v
    · subst hwv
      rcases hcases with ⟨-, -, hrest⟩ | ⟨m, rest, -, -, -, -, -, hrest⟩
      · exact HoldsQueue.self hrest
      · exact HoldsQueue.self hrest
    · rw [hothers w hwv]
      exact h.holds w hw
  · rw [hothers w hP.2] at hne
    exact hkeeps w hP.2 (h.saved w hw hP hne)
  · rcases hcases with ⟨hnil, hret, hrest⟩ | ⟨m, rest, hqueue, hret, -, -, hsize, hrest⟩
    · exact Or.inl ⟨hret, hnil, hrest.queue⟩
    · refine Or.inr ⟨Packet.ofSlot m, ?_, hret, fun hempty => ?_⟩
      · rw [hqueue, hrest.queue]
      · rw [← hret, hempty] at hsize
        exact absurd hsize (by decide)

/-- The guest's list has room for what the ring holds, and only the last message can have size 0:
then the loop empties the ring.  By induction on the messages in it. -/
theorem irqLoop_drains (slot : UInt32 → UInt32) (hv' : v < n) (queue : List Packet) :
    ∀ (k : Nat) (ret : UInt32) (s : Net), Alerted p (fun w => P w ∧ w ≠ v) n s.hv →
      queued (s.hv.vcpus v).messages = queue →
      queue.length + (s.lists v).numMessages.toNat ≤ MESSAGELIST_SZ.toNat →
      MESSAGELIST_SZ.toNat < k + (s.lists v).numMessages.toNat → (queue ≠ [] → ret ≠ 0) →
      (∀ m ∈ queue.dropLast, m.size ≠ 0) →
      ∃ t, irqLoop p v slot k ret s = some t ∧ Alerted p (fun w => P w ∧ w ≠ v) n t.hv ∧
        queued (t.hv.vcpus v).messages = [] := by
  induction queue with
  | nil =>
    -- a further receive finds no message
    intro k ret s h hqueue hroom hfuel _ _
    obtain ⟨k, rfl⟩ : ∃ j, k = j + 1 := ⟨k - 1, by simp only [List.length_nil] at hroom; omega⟩
    rw [irqLoop]
    split_ifs with hloop
    · obtain ⟨ret', sourceId, bytes, after, hrecv, hafter, hcases⟩ :=
        h.ipcRecv hv' (slot (s.lists v).inIndex)
      rcases hcases with ⟨hret, _, hnil⟩ | ⟨m, hm, _, _⟩
      · simp only [hrecv, if_pos hret]
        exact ⟨_, rfl, hafter, hnil⟩
      · rw [hqueue] at hm
        cases hm
    · exact ⟨s, rfl, h, hqueue⟩
  | cons m rest ih =>
    -- `m` goes to the guest's list, and ends the loop only when it is the last message
    intro k ret s h hqueue hroom hfuel hret hsizes
    simp only [List.length_cons] at hroom
    obtain ⟨k, rfl⟩ : ∃ j, k = j + 1 := ⟨k - 1, by omega⟩
    have hlt : (s.lists v).numMessages < MESSAGELIST_SZ := UInt32.lt_iff_toNat_lt.mpr (by omega)
    have hnum : ((s.lists v).numMessages + 1).toNat = (s.lists v).numMessages.toNat + 1 := by
      have hsmall : MESSAGELIST_SZ.toNat = 5 := rfl
      rw [UInt32.toNat_add, UInt32.toNat_one, Nat.mod_eq_of_lt]
      omega
    obtain ⟨ret', sourceId, bytes, after, hrecv, hafter, hcases⟩ :=
      h.ipcRecv hv' (slot (s.lists v).inIndex)
    rw [irqLoop, if_pos ⟨hret (List.cons_ne_nil m rest), hlt⟩]
    rcases hcases with ⟨_, hnil, _⟩ | ⟨m', hm, hsize, hnonempty⟩
    · rw [hqueue] at hnil
      cases hnil
    · rw [hqueue] at hm
      obtain ⟨rfl, hrest⟩ := List.cons.inj hm
      simp only [hrecv, if_neg hnonempty]
      refine ih k ret' _ hafter hrest.symm ?_ ?_ ?_ ?_
      · simp only [Net.setList, Function.update_self, hnum]
        omega
      · simp only [Net.setList, Function.update_self, hnum]
        omega
      · intro hne
        rw [hsize]
        exact hsizes m (by rw [List.dropLast_cons_of_ne_nil hne]; exact List.mem_cons_self)
      · intro m' hm'
        apply hsizes m'
        cases rest with
        | nil => cases hm'
        | cons x xs => exact List.mem_cons_of_mem _ hm'

/-! ### Runs -/

/-- The condition on a step.  A receive leaves nothing in the ring; `irq_network` returns at once
because the guest's list is full, or finds room there for every message of the ring, of which only
the last may have size 0. -/
def Drains (n : Nat) (s : Net) : NetEvent → Prop
  | .recv v _ => v < n ∧ (queued (s.hv.vcpus v).messages).length ≤ 1
  | .irqNetwork v _ => v < n ∧ (MESSAGELIST_SZ ≤ (s.lists v).numMessages ∨
      ((queued (s.hv.vcpus v).messages).length + (s.lists v).numMessages.toNat ≤
          MESSAGELIST_SZ.toNat ∧
        ∀ m ∈ (queued (s.hv.vcpus v).messages).dropLast, m.size ≠ 0))
  | _ => True

instance (n : Nat) (s : Net) : (e : NetEvent) → Decidable (Drains n s e)
  | .recv _ _ => inferInstanceAs (Decidable (_ ∧ _))
  | .irqNetwork _ _ => inferInstanceAs (Decidable (_ ∧ (_ ∨ _)))
  | .kernel _ | .switchTo _ | .send .. | .receiveMessage .. => isTrue trivial

theorem Alerted.send (h : Alerted p P n hv) (caller : VcpuPtr)
    (targetId messagePtr messageSize : UInt32) (buffer : Nat → UInt8) :
    ∃ r hv', intervmSendMsg p buffer
        (hypercall p hv caller (sendArgs targetId messagePtr messageSize)) = .ok (r, hv') ∧
      Alerted p P n hv' := by
  have hsame := hypercall_same p hv caller (sendArgs targetId messagePtr messageSize)
  have hentry := h.frame (h.ready.same hsame) hsame.messages
    (hypercall_keepsBit p hv caller (sendArgs targetId messagePtr messageSize))
  obtain ⟨r, hv', hcall, ho⟩ := intervmSendMsg_outcome (p := p) (h.ready.same hsame)
    (hypercall_executing p hv caller _) buffer
  refine ⟨r, hv', hcall, ?_⟩
  obtain ⟨hkeeps, hset⟩ := SendOutcome.keepsBit ho
  cases r with
  | none => exact hentry.frame (ho.ready hentry.ready) ho.messages_none hkeeps
  | some v =>
    obtain ⟨hothers, hstored, hroom, hsize⟩ := ho.messages_some
    refine ⟨ho.ready hentry.ready, fun w hw => ?_, fun w hw hP hne => ?_⟩
    · by_cases hwv : w = v
      · subst hwv
        rw [hstored]
        exact HoldsQueue.self ((hentry.holds w hw).store hroom hsize buffer)
      · rw [hothers w hwv]
        exact hentry.holds w hw
    · by_cases hwv : w = v
      · exact hwv ▸ hset v rfl
      · rw [hothers w hwv] at hne
        exact hkeeps w trivial (hentry.saved w hw hP hne)

theorem Alerted.irqNetwork {s : Net} (h : Alerted p P n s.hv) (slot : UInt32 → UInt32)
    (hdrains : Drains n s (.irqNetwork v slot)) :
    ∃ t, Guest.irqNetwork p v slot s = some t ∧ Alerted p P n t.hv := by
  obtain ⟨hlt, hfull | ⟨hroom, hsizes⟩⟩ := hdrains
  · refine ⟨s, ?_, h⟩
    rw [Guest.irqNetwork]
    split_ifs with heq
    · rfl
    · have hnot : ¬((1 : UInt32) ≠ 0 ∧ (s.lists v).numMessages < MESSAGELIST_SZ) :=
        fun hloop => UInt32.not_lt.mpr hfull hloop.2
      rw [irqLoop, if_neg hnot]
  · rw [Guest.irqNetwork]
    split_ifs with heq
    · exact ⟨s, rfl, h⟩
    · obtain ⟨t, hloop, halerted, hempty⟩ :=
        irqLoop_drains slot hlt _ (MESSAGELIST_SZ.toNat + 1) 1 s
        (h.drop (v := v)) rfl hroom (by omega) (fun _ => by decide) hsizes
      exact ⟨t, hloop, halerted.add hempty⟩

theorem Alerted.step {s : Net} (h : Alerted p P n s.hv) (quantum : UInt32) (e : NetEvent)
    (hdrains : Drains n s e) : ∃ t, netStep p quantum s e = some t ∧ Alerted p P n t.hv := by
  cases e with
  | kernel e =>
    obtain ⟨hv', hstep, hready⟩ := h.ready.step p quantum e
    exact ⟨_, by rw [netStep, hstep]; rfl,
      h.frame hready (step_messages h.ready hstep) (step_keepsBit h.ready hstep)⟩
  | switchTo aux =>
    have hsame := contextSwitch_same p s.hv aux
    exact ⟨_, rfl, h.frame (h.ready.same hsame) hsame.messages (contextSwitch_keepsBit p s.hv aux)⟩
  | send caller targetId messagePtr messageSize buffer =>
    obtain ⟨r, hv', hcall, hnext⟩ := h.send caller targetId messagePtr messageSize buffer
    exact ⟨_, by simp only [netStep, hcall]; rfl, hnext⟩
  | recv caller messagePtr =>
    obtain ⟨hlt, hlength⟩ := hdrains
    obtain ⟨ret, sourceId, bytes, after, hrecv, hafter, hcases⟩ :=
      (h.drop (v := caller)).ipcRecv hlt messagePtr
    refine ⟨_, by simp only [netStep, hrecv]; rfl, Alerted.add hafter ?_⟩
    rcases hcases with ⟨_, _, hnil⟩ | ⟨m, hm, _, _⟩
    · exact hnil
    · rw [hm, List.length_cons] at hlength
      exact List.length_eq_zero_iff.mp (Nat.le_zero.mp (Nat.le_of_succ_le_succ hlength))
  | irqNetwork v slot => exact h.irqNetwork slot hdrains
  | receiveMessage v bufsz block =>
    simp only [netStep]
    cases receiveMessage (s.lists v) bufsz block with
    | none => exact ⟨s, rfl, h⟩
    | some r => exact ⟨_, rfl, h⟩

/-- The hypervisor after `initializeMachines`, with guests whose message lists are cleared. -/
def netStart (p : Platform) (power : Power) (vmconf : List VmConf) : Net where
  hv := initializeMachines p power vmconf
  lists := fun _ => {
    inIndex := 0, outIndex := 0, numMessages := 0
    messages := fun _ => { sourceId := 0, size := 0, message := fun _ => 0 } }

theorem netStart_alerted (p : Platform) (power : Power) (vmconf : List VmConf) :
    Alerted p (fun _ => True) vmconf.length (netStart p power vmconf).hv := by
  have hbooted := initializeMachines_booted p power vmconf
  have hmessages : ∀ v < vmconf.length,
      ((netStart p power vmconf).hv.vcpus v).messages = emptyMessages :=
    fun v hv => (hbooted.vcpus v hv).messages
  refine ⟨hbooted.isReady, fun v hv => ?_, fun v hv _ hne => ?_⟩
  · rw [hmessages v hv]
    exact HoldsQueue.self emptyMessages_holds
  · rw [hmessages v hv] at hne
    exact absurd emptyMessages_holds.queue hne

/-- In a run whose receives and interrupt routines leave no message behind, every VCPU whose ring
holds a message has the interrupt pending. -/
theorem no_stranded_message (p : Platform) (quantum : UInt32) (power : Power)
    (vmconf : List VmConf) (es : List NetEvent)
    (hdrains : Guarded (netStep p quantum) (Drains vmconf.length) (netStart p power vmconf) es) :
    ∃ s, run (netStep p quantum) (netStart p power vmconf) es = some s ∧
      ∀ v < vmconf.length, (s.hv.vcpus v).messages.numMessages ≠ 0 → InterVmPending p s.hv v := by
  obtain ⟨s, hrun, h⟩ := run_guarded (fun s e hs he => Alerted.step hs quantum e he)
    (netStart_alerted p power vmconf) hdrains
  refine ⟨s, hrun, fun v hv hnum => Or.inl (h.saved v hv trivial fun hnil => ?_)⟩
  exact hnum ((queued_nil_iff (h.holds v hv)).mpr hnil)

theorem no_stranded_message_pingPong :
    ∃ s, run (netStep .pic32mz 5) (netStart .pic32mz .cleared pingPong)
        [.switchTo (some 1), .send 0 2 0x80000100 4 (fun _ => 0),
          .irqNetwork 1 (fun _ => 0x80000200), .receiveMessage 1 16 true,
          .send 0 2 0x80000100 0 (fun _ => 0)] = some s ∧
      ∀ v < 2, (s.hv.vcpus v).messages.numMessages ≠ 0 → InterVmPending .pic32mz s.hv v :=
  no_stranded_message .pic32mz 5 .cleared pingPong _ (by decide +kernel)

/-- A message of size 4 behind one of size 0: the routine stops at the first one and leaves the
second one without an interrupt. -/
theorem message_stranded :
    ∃ s, run (netStep .pic32mz 5) (netStart .pic32mz .cleared pingPong)
        [.switchTo (some 1), .send 0 2 0x80000100 0 (fun _ => 0),
          .send 0 2 0x80000100 4 (fun _ => 0), .irqNetwork 1 (fun _ => 0x80000200)] = some s ∧
      (s.hv.vcpus 1).messages.numMessages = 1 ∧ s.hv.executing = some 1 ∧
      ¬InterVmPending .pic32mz s.hv 1 := by
  have hrun : (run (netStep .pic32mz 5) (netStart .pic32mz .cleared pingPong)
      [.switchTo (some 1), .send 0 2 0x80000100 0 (fun _ => 0),
        .send 0 2 0x80000100 4 (fun _ => 0), .irqNetwork 1 (fun _ => 0x80000200)]).any
      (fun s => (s.hv.vcpus 1).messages.numMessages = 1 ∧ s.hv.executing = some 1 ∧
        ¬InterVmPending .pic32mz s.hv 1) := by
    decide +kernel
  obtain ⟨s, hs, h⟩ := (Option.any_eq_true _ _).mp hrun
  exact ⟨s, hs, of_decide_eq_true h⟩

end PrplHypervisor.Guest
