import PrplHypervisor.Kernel.ReadyList

/-! The inter-VM communication driver (`drivers/inter-vm-comm.c`).  A send stores a message in the
ring of the target and a receive takes the oldest one of the caller.  `SendOutcome` and
`RecvOutcome` list the ways in which the two hypercalls return. -/

namespace PrplHypervisor.Drivers

open Arch Kernel Lib.Ring

def MESSAGE_VCPU_NOT_FOUND : UInt32 := -1
def MESSAGE_FULL : UInt32 := -2
def MESSAGE_TOO_BIG : UInt32 := -3
def MESSAGE_EMPTY : UInt32 := -4
def MESSAGE_VCPU_NOT_INIT : UInt32 := -5

def VI_SHIFT : Platform → UInt32
  | .pic32mz => GUESTCLT2_GRIPL_SHIFT
  | .baikalT1 => GUESTCLT2_VIP_SHIFT

/-- The TLB index of the temporary entry. -/
def MAPPED_INDEX : UInt32 := 0xf

/-- What a send stores in a ring: `memcpy` of `size` bytes into the slot `in`, and the ring's
fields. -/
def storeMessage (messages : MessageBuffer) (sourceId size : UInt32)
    (buffer : Nat → UInt8) : MessageBuffer :=
  let slot := messages.messageList messages.inIndex.toNat
  let message : Message := {
    sourceId := sourceId
    size := size
    message := fun i => if i < size.toNat then buffer i else slot.message i }
  { messages with
    messageList := Function.update messages.messageList messages.inIndex.toNat message
    numMessages := messages.numMessages + 1
    inIndex := (messages.inIndex + 1) % MESSAGELIST_SZ }

/-- A receive frees the slot `out`. -/
def releaseMessage (messages : MessageBuffer) : MessageBuffer :=
  { messages with
    numMessages := messages.numMessages - 1
    outIndex := (messages.outIndex + 1) % MESSAGELIST_SZ }

/-- Write a register of the guest that made the hypercall. -/
def setGuestGPR (p : Platform) (hv : Hv) (reg : Nat) (value : UInt32) : Hv :=
  { hv with cpu := moveToPreviousGuestGPR p hv.cpu reg value }

/-- `intervm_send_msg`, with the VCPU whose ring took the message.  `buffer` is what the guest's
memory holds at the mapped address. -/
def intervmSendMsg (p : Platform) (buffer : Nat → UInt8) (hv : Hv) :
    Except Fault (Option VcpuPtr × Hv) := do
  let targetId := moveFromPreviousGuestGPR p hv.cpu REG_A0
  let messagePtr := moveFromPreviousGuestGPR p hv.cpu REG_A1
  let messageSize := moveFromPreviousGuestGPR p hv.cpu REG_A2
  if messageSize > MESSAGE_SZ then return (none, setGuestGPR p hv REG_V0 MESSAGE_TOO_BIG)
  match ← getVcpuFromId hv targetId with
  | none => return (none, setGuestGPR p hv REG_V0 MESSAGE_VCPU_NOT_FOUND)
  | some v =>
    let vcpu := hv.vcpus v
    if vcpu.init ≠ 0 then return (none, setGuestGPR p hv REG_V0 MESSAGE_VCPU_NOT_INIT)
    if vcpu.messages.numMessages = MESSAGELIST_SZ then
      -- on Baikal-T1 another bit than the one that a stored message sets
      let hv := hv.setVcpu v { vcpu with
        guestclt2 := vcpu.guestclt2 ||| (GUEST_INTERVM_INT <<< GUESTCLT2_GRIPL_SHIFT) }
      return (none, setGuestGPR p hv REG_V0 MESSAGE_FULL)
    match hv.executing with
    | none => throw .nullPointer
    | some caller =>
      let vm := (hv.vcpus caller).vm
      let cpu := (tlbCreateEntry hv.cpu messagePtr vm.baseAddr messageSize MAPPED_INDEX
        NONCACHEABLE).2
      let hv := ({ hv with cpu := cpu } : Hv).setVcpu v { vcpu with
        messages := storeMessage vcpu.messages vm.id messageSize buffer
        guestclt2 := vcpu.guestclt2 ||| (GUEST_INTERVM_INT <<< VI_SHIFT p) }
      return (some v, fastInterruptDelivery (setGuestGPR p hv REG_V0 messageSize) v)

/-- `intervm_recv_msg`, with the bytes that it writes at the mapped address. -/
def intervmRecvMsg (p : Platform) (hv : Hv) : Except Fault (Option (List UInt8) × Hv) := do
  match hv.executing with
  | none => throw .nullPointer
  | some v =>
    let vcpu := hv.vcpus v
    if vcpu.messages.numMessages = 0 then
      return (none, setGuestGPR p hv REG_V0 MESSAGE_EMPTY)
    let messagePtr := moveFromPreviousGuestGPR p hv.cpu REG_A0
    let message := vcpu.messages.messageList vcpu.messages.outIndex.toNat
    let cpu := (tlbCreateEntry hv.cpu messagePtr vcpu.vm.baseAddr message.size MAPPED_INDEX
      NONCACHEABLE).2
    let hv := setGuestGPR p { hv with cpu := cpu } REG_V0 message.size
    let hv := setGuestGPR p hv REG_A0 message.sourceId
    -- the interrupt is cleared even if the ring holds further messages
    let cpu := setGuestCTL2 hv.cpu
      (getGuestCTL2 hv.cpu &&& ~~~(GUEST_INTERVM_INT <<< VI_SHIFT p))
    let hv := ({ hv with cpu := cpu } : Hv).setVcpu v { vcpu with
      messages := releaseMessage vcpu.messages
      guestclt2 := vcpu.guestclt2 &&& ~~~(GUEST_INTERVM_INT <<< VI_SHIFT p) }
    return (some ((List.range message.size.toNat).map message.message), hv)

/-! ### How the hypercalls return -/

variable {p : Platform} {buffer : Nat → UInt8} {hv hv' : Hv} {n : Nat} {caller : VcpuPtr}

/-- The results of a send by `caller`. -/
inductive SendOutcome (p : Platform) (buffer : Nat → UInt8) (hv : Hv) (n : Nat)
    (caller : VcpuPtr) : Option VcpuPtr → Hv → Prop
  | rejected (code : UInt32) :
      SendOutcome p buffer hv n caller none (setGuestGPR p hv REG_V0 code)
  | full (v : VcpuPtr) (mem : v < n) (init : (hv.vcpus v).init = 0)
      (full : (hv.vcpus v).messages.numMessages = MESSAGELIST_SZ) :
      SendOutcome p buffer hv n caller none (setGuestGPR p (hv.setVcpu v { hv.vcpus v with
        guestclt2 := (hv.vcpus v).guestclt2 ||| (GUEST_INTERVM_INT <<< GUESTCLT2_GRIPL_SHIFT) })
        REG_V0 MESSAGE_FULL)
  | stored (v : VcpuPtr) (mem : v < n) (init : (hv.vcpus v).init = 0)
      (room : (hv.vcpus v).messages.numMessages ≠ MESSAGELIST_SZ)
      (size : moveFromPreviousGuestGPR p hv.cpu REG_A2 ≤ MESSAGE_SZ) (cpu : Cpu)
      (guestctl2 : cpu.guestctl2 = hv.cpu.guestctl2) :
      SendOutcome p buffer hv n caller (some v)
        (fastInterruptDelivery (({ hv with cpu := cpu } : Hv).setVcpu v { hv.vcpus v with
          messages := storeMessage (hv.vcpus v).messages (hv.vcpus caller).vm.id
            (moveFromPreviousGuestGPR p hv.cpu REG_A2) buffer
          guestclt2 := (hv.vcpus v).guestclt2 ||| (GUEST_INTERVM_INT <<< VI_SHIFT p) }) v)

/-- The results of a receive by `caller`. -/
inductive RecvOutcome (p : Platform) (hv : Hv) (caller : VcpuPtr) : Option (List UInt8) → Hv → Prop
  | empty (empty : (hv.vcpus caller).messages.numMessages = 0) :
      RecvOutcome p hv caller none (setGuestGPR p hv REG_V0 MESSAGE_EMPTY)
  | received (nonempty : (hv.vcpus caller).messages.numMessages ≠ 0) (message : Message)
      (head : message = (hv.vcpus caller).messages.messageList
        (hv.vcpus caller).messages.outIndex.toNat) (cpu : Cpu)
      (size : moveFromPreviousGuestGPR p cpu REG_V0 = message.size)
      (sourceId : moveFromPreviousGuestGPR p cpu REG_A0 = message.sourceId)
      (guestctl2 : cpu.guestctl2 =
        hv.cpu.guestctl2 &&& ~~~(GUEST_INTERVM_INT <<< VI_SHIFT p)) :
      RecvOutcome p hv caller (some ((List.range message.size.toNat).map message.message))
        (({ hv with cpu := cpu } : Hv).setVcpu caller { hv.vcpus caller with
          messages := releaseMessage (hv.vcpus caller).messages
          guestclt2 := (hv.vcpus caller).guestclt2 &&& ~~~(GUEST_INTERVM_INT <<< VI_SHIFT p) })

theorem getVcpuFromId_lt (h : Ready hv n) (id : UInt32) :
    ∃ r, getVcpuFromId hv id = .ok r ∧ ∀ v, r = some v → v < n := by
  obtain ⟨l, hl, hholds⟩ := h.list
  refine ⟨_, getVcpuFromId_eq hholds id, fun v hv => ?_⟩
  exact List.mem_range.mp (hl.mem_iff.mp (List.mem_of_find?_eq_some hv))

theorem intervmSendMsg_outcome (h : Ready hv n) (hexec : hv.executing = some caller)
    (buffer : Nat → UInt8) :
    ∃ r hv', intervmSendMsg p buffer hv = .ok (r, hv') ∧
      SendOutcome p buffer hv n caller r hv' := by
  obtain ⟨r, hfind, hr⟩ := getVcpuFromId_lt h (moveFromPreviousGuestGPR p hv.cpu REG_A0)
  by_cases hbig : moveFromPreviousGuestGPR p hv.cpu REG_A2 > MESSAGE_SZ
  · refine ⟨none, _, ?_, .rejected MESSAGE_TOO_BIG⟩
    simp only [intervmSendMsg, if_pos hbig]
    rfl
  cases r with
  | none =>
    refine ⟨none, _, ?_, .rejected MESSAGE_VCPU_NOT_FOUND⟩
    simp only [intervmSendMsg, if_neg hbig, hfind, bind, Except.bind]
    rfl
  | some v =>
    have hlt := hr v rfl
    by_cases hinit : (hv.vcpus v).init ≠ 0
    · refine ⟨none, _, ?_, .rejected MESSAGE_VCPU_NOT_INIT⟩
      simp only [intervmSendMsg, if_neg hbig, hfind, bind, Except.bind, if_pos hinit]
      rfl
    by_cases hfull : (hv.vcpus v).messages.numMessages = MESSAGELIST_SZ
    · refine ⟨none, _, ?_, .full v hlt (not_not.mp hinit) hfull⟩
      simp only [intervmSendMsg, if_neg hbig, hfind, bind, Except.bind, if_neg hinit, if_pos hfull]
      rfl
    · refine ⟨some v, _, ?_, .stored v hlt (not_not.mp hinit) hfull (UInt32.not_lt.mp hbig)
        (moveToPreviousGuestGPR p (tlbCreateEntry hv.cpu
          (moveFromPreviousGuestGPR p hv.cpu REG_A1) (hv.vcpus caller).vm.baseAddr
          (moveFromPreviousGuestGPR p hv.cpu REG_A2) MAPPED_INDEX NONCACHEABLE).2 REG_V0
          (moveFromPreviousGuestGPR p hv.cpu REG_A2)) (by simp)⟩
      simp only [intervmSendMsg, if_neg hbig, hfind, bind, Except.bind, if_neg hinit,
        if_neg hfull, hexec]
      rfl

/-- A send that stores its message has found the target, with room for it. -/
theorem intervmSendMsg_stored {buffer : Nat → UInt8} {v : VcpuPtr}
    (h : intervmSendMsg p buffer hv = .ok (some v, hv')) :
    moveFromPreviousGuestGPR p hv.cpu REG_A2 ≤ MESSAGE_SZ ∧
      getVcpuFromId hv (moveFromPreviousGuestGPR p hv.cpu REG_A0) = .ok (some v) ∧
      (hv.vcpus v).init = 0 ∧ (hv.vcpus v).messages.numMessages ≠ MESSAGELIST_SZ := by
  by_cases hbig : moveFromPreviousGuestGPR p hv.cpu REG_A2 > MESSAGE_SZ
  · simp only [intervmSendMsg, if_pos hbig] at h
    cases h
  cases htarget : getVcpuFromId hv (moveFromPreviousGuestGPR p hv.cpu REG_A0) with
  | error f =>
    simp only [intervmSendMsg, if_neg hbig, htarget, bind, Except.bind] at h
    cases h
  | ok target =>
    cases target with
    | none =>
      simp only [intervmSendMsg, if_neg hbig, htarget, bind, Except.bind] at h
      cases h
    | some w =>
      by_cases hinit : (hv.vcpus w).init ≠ 0
      · simp only [intervmSendMsg, if_neg hbig, htarget, bind, Except.bind, if_pos hinit] at h
        cases h
      by_cases hfull : (hv.vcpus w).messages.numMessages = MESSAGELIST_SZ
      · simp only [intervmSendMsg, if_neg hbig, htarget, bind, Except.bind, if_neg hinit,
          if_pos hfull] at h
        cases h
      · obtain rfl : w = v := by
          cases hexec : hv.executing with
          | none =>
            simp only [intervmSendMsg, if_neg hbig, htarget, bind, Except.bind, if_neg hinit,
              if_neg hfull, hexec] at h
            cases h
          | some caller =>
            simp only [intervmSendMsg, if_neg hbig, htarget, bind, Except.bind, if_neg hinit,
              if_neg hfull, hexec] at h
            exact Option.some.inj (Prod.mk.inj (Except.ok.inj h)).1
        exact ⟨UInt32.not_lt.mp hbig, rfl, not_not.mp hinit, hfull⟩

theorem moveFrom_setGuestCTL2 (p : Platform) (cpu : Cpu) (r : Nat) (x : UInt32) :
    moveFromPreviousGuestGPR p (setGuestCTL2 cpu x) r = moveFromPreviousGuestGPR p cpu r := by
  cases p <;> rfl

theorem moveFrom_moveTo_of_ne (p : Platform) (cpu : Cpu) {r s : Nat} (h : r ≠ s) (x : UInt32) :
    moveFromPreviousGuestGPR p (moveToPreviousGuestGPR p cpu s x) r =
      moveFromPreviousGuestGPR p cpu r := by
  cases p <;>
    simp [moveFromPreviousGuestGPR, moveToPreviousGuestGPR, getPreviousShadowSet, h]

theorem intervmRecvMsg_outcome (hexec : hv.executing = some caller) :
    ∃ r hv', intervmRecvMsg p hv = .ok (r, hv') ∧ RecvOutcome p hv caller r hv' := by
  by_cases hempty : (hv.vcpus caller).messages.numMessages = 0
  · refine ⟨none, _, ?_, .empty hempty⟩
    simp only [intervmRecvMsg, hexec, if_pos hempty]
    rfl
  · set message := (hv.vcpus caller).messages.messageList
      (hv.vcpus caller).messages.outIndex.toNat with hmessage
    set cpu := (tlbCreateEntry hv.cpu (moveFromPreviousGuestGPR p hv.cpu REG_A0)
      (hv.vcpus caller).vm.baseAddr message.size MAPPED_INDEX NONCACHEABLE).2 with hcpu
    set hv2 := setGuestGPR p (setGuestGPR p { hv with cpu := cpu } REG_V0 message.size) REG_A0
      message.sourceId with hhv2
    refine ⟨_, _, ?_, .received hempty message hmessage (setGuestCTL2 hv2.cpu
      (getGuestCTL2 hv2.cpu &&& ~~~(GUEST_INTERVM_INT <<< VI_SHIFT p))) ?_ ?_ ?_⟩
    · simp only [intervmRecvMsg, hexec, if_neg hempty]
      rfl
    · rw [moveFrom_setGuestCTL2, hhv2, setGuestGPR, moveFrom_moveTo_of_ne p _ (by decide),
        setGuestGPR, moveFrom_moveTo]
    · rw [moveFrom_setGuestCTL2, hhv2, setGuestGPR, moveFrom_moveTo]
    · simp [setGuestCTL2, getGuestCTL2, hhv2, hcpu, setGuestGPR]

end PrplHypervisor.Drivers
