import PrplHypervisor.Drivers.GuestBuffer
import PrplHypervisor.Drivers.MessageQueue
import PrplHypervisor.Kernel.Libc

/-! The hypercalls that copy between a buffer of the guest and an object of the hypervisor:
`send_frame` (`pic32mz-ethernet.c` and the shared driver), `usb_send_data` and `get_descriptor`
(`pic32mz-usb.c`), and those of the inter-VM communication.  Only the last ones compare the size
with that of the object. -/

namespace PrplHypervisor.Drivers

open Arch Kernel Lib.Runs Lib.Partial Lib.Words

/-- The size of `buffer_tx`. -/
def BUFFER_TX_SZ : Nat := 64

/-- `sizeof(struct descriptor_receive)`: 18 bytes, padded to a word, and three words. -/
def SIZEOF_DESCRIPTOR_RECEIVE : UInt32 := 32

/-- The states of `usb_transfer_status`. -/
inductive TransferState
  | idle
  | start
  | sending
  | waitTxInt
  | done
  deriving DecidableEq, Repr

/-- An object that a hypercall copies to or from.  `message v slot` is the array of bytes in a slot
of the ring of `v`. -/
inductive HvObject
  | txBuf
  | bufferTx
  | descriptorData
  | message (v : VcpuPtr) (slot : UInt32)
  deriving DecidableEq, Repr

def HvObject.size : HvObject → Nat
  | .txBuf => MTU
  | .bufferTx => BUFFER_TX_SZ
  | .descriptorData => SIZEOF_DESCRIPTOR_RECEIVE.toNat
  | .message _ _ => MESSAGE_SZ.toNat

/-- The slot is one of the ring. -/
def HvObject.Exists : HvObject → Prop
  | .message _ slot => slot < MESSAGELIST_SZ
  | _ => True

/-- The static data of the drivers.  The memory behind the address of an array is given from its
first byte on, beyond its end too.  `transmitted` are the frames that the controller was given. -/
structure Objects where
  txBuf : Nat → UInt8
  bufferTx : Nat → UInt8
  descriptorData : Nat → UInt8
  transfer : TransferState
  transmitted : List (List UInt8)

/-- What an object holds. -/
def contents (hv : Hv) (o : Objects) : HvObject → Nat → UInt8
  | .txBuf => o.txBuf
  | .bufferTx => o.bufferTx
  | .descriptorData => o.descriptorData
  | .message v slot => ((hv.vcpus v).messages.messageList slot.toNat).message

/-- A call of `memcpy` with an address of the object and one in the window of the guest, which was
mapped with the size `window`. -/
structure GuestCopy where
  object : HvObject
  dst : UInt32
  src : UInt32
  bytes : UInt32
  window : UInt32
  deriving DecidableEq, Repr

/-- The byte indexes that are copied. -/
def GuestCopy.indexes (c : GuestCopy) : List Nat := memcpyIndexes c.dst c.src c.bytes

/-- How a handler returns: the copy it made, and whether it gave the request to a device or to
another VM. -/
structure CallEffect where
  hv : Hv
  objects : Objects
  copy : Option GuestCopy
  started : Bool

/-- The address that `tlbCreateEntry` returns. -/
def mappedAddress (hv : Hv) (address size useCache : UInt32) : Except Fault UInt32 :=
  match hv.executing with
  | none => .error .nullPointer
  | some v =>
    .ok (tlbCreateEntry hv.cpu address (hv.vcpus v).vm.baseAddr size MAPPED_INDEX useCache).1

/-- `en_ll_output`: the frame for the controller, if the size is one that it can send. -/
def enLlOutput (frame : Nat → UInt8) (size : UInt16) : Option (List UInt8) :=
  if 0 < size ∧ size.toNat ≤ MTU then some ((List.range size.toNat).map frame) else none

variable (p : Platform) (place : HvObject → UInt32)

/-- `send_frame` with its copy.  The objects are at the addresses `place`, and `buffer` is what the
guest's memory holds at the mapped address. -/
def sendFrameCopy (buffer : Nat → UInt8) (o : Objects) (hv : Hv) : Except Fault CallEffect := do
  let frame := moveFromPreviousGuestGPR p hv.cpu REG_A0
  let size := moveFromPreviousGuestGPR p hv.cpu REG_A1
  let mapped ← mappedAddress hv frame size CACHEABLE
  let hv ← sendFrame p hv
  let buf := MACH_PHYS_TO_VIRT (MACH_VIRT_TO_PHYS (place .txBuf))
  let txBuf := memcpy buf mapped size buffer o.txBuf
  -- the size is passed on as a 16-bit number
  let output := enLlOutput txBuf size.toUInt16
  return {
    hv := hv
    objects := { o with txBuf := txBuf, transmitted := o.transmitted ++ output.toList }
    copy := some ⟨.txBuf, buf, mapped, size, size⟩
    started := output.isSome }

/-- `usb_send_data` with its copy. -/
def usbSendDataCopy (buffer : Nat → UInt8) (o : Objects) (hv : Hv) : Except Fault CallEffect := do
  let buf := moveFromPreviousGuestGPR p hv.cpu REG_A0
  let size := moveFromPreviousGuestGPR p hv.cpu REG_A1
  let mapped ← mappedAddress hv buf size CACHEABLE
  let hv ← usbSendData p (o.transfer = .idle) hv
  let bufferTx := memcpy (place .bufferTx) mapped size buffer o.bufferTx
  return {
    hv := hv
    objects := { o with bufferTx := bufferTx, transfer := .start }
    copy := some ⟨.bufferTx, place .bufferTx, mapped, size, size⟩
    started := true }

/-- `get_descriptor` with its copy, which does not depend on the size. -/
def getDescriptorCopy (o : Objects) (hv : Hv) : Except Fault CallEffect := do
  let buf := moveFromPreviousGuestGPR p hv.cpu REG_A0
  let size := moveFromPreviousGuestGPR p hv.cpu REG_A1
  let mapped ← mappedAddress hv buf size CACHEABLE
  let hv ← getDescriptor p hv
  return {
    hv := hv
    objects := o
    copy := some ⟨.descriptorData, mapped, place .descriptorData, SIZEOF_DESCRIPTOR_RECEIVE, size⟩
    started := false }

/-- `intervm_send_msg` with its copy, when the message is stored. -/
def intervmSendMsgCopy (buffer : Nat → UInt8) (o : Objects) (hv : Hv) :
    Except Fault CallEffect := do
  let messagePtr := moveFromPreviousGuestGPR p hv.cpu REG_A1
  let messageSize := moveFromPreviousGuestGPR p hv.cpu REG_A2
  match ← intervmSendMsg p buffer hv with
  | (none, hv') => return { hv := hv', objects := o, copy := none, started := false }
  | (some v, hv') =>
    let mapped ← mappedAddress hv messagePtr messageSize NONCACHEABLE
    let object := .message v (hv.vcpus v).messages.inIndex
    return {
      hv := hv'
      objects := o
      copy := some ⟨object, place object, mapped, messageSize, messageSize⟩
      started := true }

/-- `intervm_recv_msg` with its copy, when there is a message. -/
def intervmRecvMsgCopy (o : Objects) (hv : Hv) : Except Fault CallEffect := do
  let messagePtr := moveFromPreviousGuestGPR p hv.cpu REG_A0
  match ← intervmRecvMsg p hv, hv.executing with
  | (some _, hv'), some v =>
    let messages := (hv.vcpus v).messages
    let messagesz := (messages.messageList messages.outIndex.toNat).size
    let mapped ← mappedAddress hv messagePtr messagesz NONCACHEABLE
    let object := .message v messages.outIndex
    return {
      hv := hv'
      objects := o
      copy := some ⟨object, mapped, place object, messagesz, messagesz⟩
      started := false }
  | (_, hv'), _ => return { hv := hv', objects := o, copy := none, started := false }

/-! ### Runs -/

/-- The hypercalls, with what the guest's argument registers and its memory hold. -/
inductive CopyCall
  | intervmSendMsg (targetId messagePtr messageSize : UInt32) (buffer : Nat → UInt8)
  | intervmRecvMsg (messagePtr : UInt32)
  | sendFrame (frame size : UInt32) (buffer : Nat → UInt8)
  | usbSendData (buf size : UInt32) (buffer : Nat → UInt8)
  | getDescriptor (buf size : UInt32)

def CopyCall.args : CopyCall → List (Nat × UInt32)
  | .intervmSendMsg targetId messagePtr messageSize _ => sendArgs targetId messagePtr messageSize
  | .intervmRecvMsg messagePtr => [(REG_A0, messagePtr)]
  | .sendFrame address size _ | .usbSendData address size _ | .getDescriptor address size =>
    [(REG_A0, address), (REG_A1, size)]

def CopyCall.effect (o : Objects) (hv : Hv) : CopyCall → Except Fault CallEffect
  | .intervmSendMsg _ _ _ buffer => intervmSendMsgCopy p place buffer o hv
  | .intervmRecvMsg _ => intervmRecvMsgCopy p place o hv
  | .sendFrame _ _ buffer => sendFrameCopy p place buffer o hv
  | .usbSendData _ _ buffer => usbSendDataCopy p place buffer o hv
  | .getDescriptor _ _ => getDescriptorCopy p place o hv

/-- The size that the guest asks for, and that of the object. -/
def CopyCall.request : CopyCall → Option (UInt32 × Nat)
  | .intervmSendMsg _ _ messageSize _ => some (messageSize, MESSAGE_SZ.toNat)
  | .intervmRecvMsg _ => none
  | .sendFrame _ size _ => some (size, HvObject.txBuf.size)
  | .usbSendData _ size _ => some (size, HvObject.bufferTx.size)
  | .getDescriptor _ size => some (size, HvObject.descriptorData.size)

/-- A hypercall that has returned, with what the objects held before it and what they hold after. -/
structure CallRecord where
  request : Option (UInt32 × Nat)
  copy : Option GuestCopy
  started : Bool
  v0 : UInt32
  before : HvObject → Nat → UInt8
  after : HvObject → Nat → UInt8

/-- The hypervisor with the data of its drivers and the hypercalls so far. -/
structure Copying where
  hv : Hv
  objects : Objects
  calls : List CallRecord

/-- A step of the kernel, a context switch, what the USB device leaves to the driver, or a hypercall
of one of the `n` VCPUs. -/
inductive CopyEvent (n : Nat)
  | kernel (e : Event)
  | switchTo (aux : Option VcpuPtr)
  | usbDevice (transfer : TransferState) (descriptorData : Nat → UInt8)
  | call (caller : Fin n) (c : CopyCall)

/-- The record of a call from `s` that ends with `r`. -/
def Copying.record (s : Copying) (c : CopyCall) (r : CallEffect) : CallRecord where
  request := c.request
  copy := r.copy
  started := r.started
  v0 := moveFromPreviousGuestGPR p r.hv.cpu REG_V0
  before := contents s.hv s.objects
  after := contents r.hv r.objects

def copyStep (quantum : UInt32) {n : Nat} (s : Copying) : CopyEvent n → Option Copying
  | .kernel e => (step p quantum s.hv e).map fun hv => { s with hv := hv }
  | .switchTo aux => some { s with hv := contextSwitch p s.hv aux }
  | .usbDevice transfer descriptorData => some { s with
      objects := { s.objects with transfer := transfer, descriptorData := descriptorData } }
  | .call caller c =>
    match c.effect p place s.objects (hypercall p s.hv caller c.args) with
    | .error _ => none
    | .ok r => some { hv := r.hv, objects := r.objects, calls := s.calls ++ [s.record p c r] }

/-- The hypervisor after `initializeMachines`, with the data `o` of the drivers. -/
def copyStart (power : Power) (vmconf : List VmConf) (o : Objects) : Copying where
  hv := initializeMachines p power vmconf
  objects := o
  calls := []

/-! ### The bounds of a copy -/

/-- The copy stays in the object, and in the part of the window that was asked for. -/
structure GuestCopy.Inside (c : GuestCopy) : Prop where
  isObject : c.object.Exists
  object : ∀ i ∈ c.indexes, i < c.object.size
  window : ∀ i ∈ c.indexes, i < c.window.toNat

/-- The hypercall ends with an error, without a copy and without an effect. -/
structure CallRecord.Refused (r : CallRecord) : Prop where
  error : 2 ^ 31 ≤ r.v0.toNat
  noCopy : ∀ c, r.copy = some c → c.indexes = []
  notStarted : r.started = false
  unchanged : r.after = r.before

structure CallRecord.Bounded (r : CallRecord) : Prop where
  inside : ∀ c, r.copy = some c → c.Inside
  oversized : ∀ size capacity, r.request = some (size, capacity) → capacity < size.toNat → r.Refused

/-- `memcpy` takes the size for a negative number, and `en_ll_output` sends nothing either. -/
def Discarded (dst src size : UInt32) : Prop :=
  HasBits (dst ||| src ||| size) 3 ∧ 2 ^ 31 ≤ size.toNat ∧
    ¬(0 < size.toUInt16 ∧ size.toUInt16.toNat ≤ MTU)

/-- The window address of `address` in a cacheable mapping for the VM with the RAM at `base`. -/
def windowAddress (address base : UInt32) : UInt32 := (address &&& 0xFFF) + base - 0x80000000

/-- The sizes with which a hypercall keeps the bounds, for a VM with the RAM at `base`. -/
def CopyCall.SizeFits (base : UInt32) : CopyCall → Prop
  | .intervmSendMsg .. | .intervmRecvMsg _ => True
  | .sendFrame frame size _ => size.toNat ≤ MTU ∨
      Discarded (MACH_PHYS_TO_VIRT (MACH_VIRT_TO_PHYS (place .txBuf)))
        (windowAddress frame base) size
  | .usbSendData _ size _ => size.toNat ≤ BUFFER_TX_SZ
  | .getDescriptor _ size => size = SIZEOF_DESCRIPTOR_RECEIVE

/-- The hypercalls of a step have sizes that fit. -/
def CopyEvent.SizeFits {n : Nat} (s : Copying) : CopyEvent n → Prop
  | .call caller c => c.SizeFits place (s.hv.vcpus caller).vm.baseAddr
  | _ => True

/-! ### The copies -/

variable {p} {place}

theorem GuestCopy.forall_indexes (c : GuestCopy) (n : Nat) :
    (∀ i ∈ c.indexes, i < n) ↔ memcpyCount c.dst c.src c.bytes ≤ n := by
  simp only [GuestCopy.indexes, mem_memcpyIndexes]
  constructor
  · intro hall
    by_contra hlt
    exact absurd (hall n (Nat.not_le.mp hlt)) (Nat.lt_irrefl n)
  · exact fun hle i hi => Nat.lt_of_lt_of_le hi hle

theorem GuestCopy.indexes_eq_nil (c : GuestCopy) :
    c.indexes = [] ↔ memcpyCount c.dst c.src c.bytes = 0 := by
  rw [GuestCopy.indexes, memcpyIndexes_eq, List.range_eq_nil]

/-- A copy of as many bytes as were asked for is in the window. -/
theorem GuestCopy.inside_of_le {c : GuestCopy} (hobject : c.object.Exists)
    (hbytes : c.bytes = c.window) (hle : c.bytes.toNat ≤ c.object.size) : c.Inside := by
  have hcount := memcpyCount_le c.dst c.src c.bytes
  refine ⟨hobject, (c.forall_indexes _).mpr (hcount.trans hle), (c.forall_indexes _).mpr ?_⟩
  rw [← hbytes]
  exact hcount

variable {hv hv' : Hv} {n : Nat} {caller : VcpuPtr} {o : Objects}

/-- The rings of the `n` VCPUs are those of some history of messages. -/
def RingsReady (hv : Hv) (n : Nat) : Prop := ∃ accepted received, Queued ⟨hv, accepted, received⟩ n

theorem RingsReady.same (h : RingsReady hv n) (hsame : SameKernel hv hv') : RingsReady hv' n := by
  obtain ⟨accepted, received, h⟩ := h
  exact ⟨accepted, received, h.frame (h.ready.same hsame) hsame.messages⟩

theorem RingsReady.setCpu (h : RingsReady hv n) (cpu : Cpu) : RingsReady { hv with cpu := cpu } n :=
  h.same ⟨fun _ => rfl, fun _ => rfl, fun _ => rfl, rfl, rfl, rfl⟩

theorem RingsReady.kernel (h : RingsReady hv n) (p : Platform) (quantum : UInt32) (e : Event) :
    ∃ hv', step p quantum hv e = some hv' ∧ RingsReady hv' n := by
  obtain ⟨accepted, received, h⟩ := h
  obtain ⟨hv', hstep, hready⟩ := h.ready.step p quantum e
  exact ⟨hv', hstep, accepted, received, h.frame hready (step_messages h.ready hstep)⟩

theorem RingsReady.holds (h : RingsReady hv n) {v : VcpuPtr} (hlt : v < n) :
    ∃ queue, HoldsQueue (hv.vcpus v).messages queue := by
  obtain ⟨accepted, received, h⟩ := h
  obtain ⟨queue, hholds, -⟩ := h.queue v hlt
  exact ⟨queue, hholds⟩

theorem RingsReady.send (h : RingsReady hv n) (p : Platform) (caller : VcpuPtr)
    (targetId messagePtr messageSize : UInt32) (buffer : Nat → UInt8) :
    ∃ target hv', intervmSendMsg p buffer
        (hypercall p hv caller (sendArgs targetId messagePtr messageSize)) = .ok (target, hv') ∧
      RingsReady hv' n := by
  obtain ⟨accepted, received, h⟩ := h
  obtain ⟨t, hstep, ht⟩ := h.send p 0 caller targetId messagePtr messageSize buffer
  simp only [commStep] at hstep
  split at hstep
  · cases hstep
  · rename_i hv' hcall
    cases hstep
    exact ⟨none, hv', hcall, accepted, received, ht⟩
  · rename_i v hv' hcall
    cases hstep
    exact ⟨some v, hv', hcall, _, received, ht⟩

theorem RingsReady.recv (h : RingsReady hv n) (p : Platform) (caller : VcpuPtr)
    (messagePtr : UInt32) :
    ∃ bytes hv', intervmRecvMsg p (hypercall p hv caller [(REG_A0, messagePtr)]) =
        .ok (bytes, hv') ∧ RingsReady hv' n := by
  obtain ⟨accepted, received, h⟩ := h
  obtain ⟨t, hstep, ht⟩ := h.recv p 0 caller messagePtr
  simp only [commStep] at hstep
  split at hstep
  · cases hstep
  · rename_i hv' hcall
    cases hstep
    exact ⟨none, hv', hcall, accepted, received, ht⟩
  · rename_i bytes hv' hcall
    cases hstep
    exact ⟨some bytes, hv', hcall, accepted, _, ht⟩

/-! ### One hypercall -/

/-- The hypercall with its mapping alone. -/
def CopyCall.mapping (o : Objects) : CopyCall → MappingCall
  | .intervmSendMsg _ _ _ buffer => .intervmSendMsg buffer
  | .intervmRecvMsg _ => .intervmRecvMsg
  | .sendFrame .. => .sendFrame
  | .usbSendData .. => .usbSendData (o.transfer = .idle)
  | .getDescriptor .. => .getDescriptor

/-- A handler with its copy leaves the state that the handler of `MappingCall` leaves. -/
theorem CopyCall.handler_eq {c : CopyCall} {r : CallEffect} (h : c.effect p place o hv = .ok r) :
    (c.mapping o).handler p hv = .ok r.hv := by
  cases c with
  | sendFrame | usbSendData | getDescriptor =>
    obtain ⟨mapped, -, h⟩ := bind_ok.mp h
    obtain ⟨hv', hcall, h⟩ := bind_ok.mp h
    cases h
    exact hcall
  | intervmSendMsg targetId messagePtr messageSize buffer =>
    obtain ⟨⟨target, hv'⟩, hcall, h⟩ := bind_ok.mp h
    show Prod.snd <$> Drivers.intervmSendMsg p buffer hv = _
    rw [hcall]
    cases target with
    | none =>
      cases h
      rfl
    | some v =>
      obtain ⟨mapped, -, h⟩ := bind_ok.mp h
      cases h
      rfl
  | intervmRecvMsg messagePtr =>
    obtain ⟨⟨bytes, hv'⟩, hcall, h⟩ := bind_ok.mp h
    show Prod.snd <$> Drivers.intervmRecvMsg p hv = _
    rw [hcall]
    cases bytes with
    | none =>
      cases h
      rfl
    | some bytes =>
      cases hexec : hv.executing with
      | none =>
        simp only [hexec] at h
        cases h
        rfl
      | some v =>
        simp only [hexec] at h
        obtain ⟨mapped, -, h⟩ := bind_ok.mp h
        cases h
        rfl

/-- The registers of a hypercall with a buffer and its size. -/
theorem hypercall_buffer (p : Platform) (hv : Hv) (caller : VcpuPtr) (address size : UInt32) :
    moveFromPreviousGuestGPR p (hypercall p hv caller [(REG_A0, address), (REG_A1, size)]).cpu
        REG_A0 = address ∧
      moveFromPreviousGuestGPR p (hypercall p hv caller [(REG_A0, address), (REG_A1, size)]).cpu
        REG_A1 = size := by
  simp only [hypercall, List.foldl_cons, List.foldl_nil, setGuestGPR, moveFrom_moveTo, and_true]
  rw [moveFrom_moveTo_of_ne p _ (by decide), moveFrom_moveTo]

theorem contents_eq {o' : Objects} (hmessages : ∀ v, (hv'.vcpus v).messages = (hv.vcpus v).messages)
    (htx : o'.txBuf = o.txBuf) (husb : o'.bufferTx = o.bufferTx)
    (hdescriptor : o'.descriptorData = o.descriptorData) : contents hv' o' = contents hv o := by
  funext object
  cases object with
  | txBuf => exact htx
  | bufferTx => exact husb
  | descriptorData => exact hdescriptor
  | message v slot =>
    simp only [contents]
    rw [hmessages v]

/-- A handler that copies what was asked for keeps the bounds when that fits in the object, and else
when it refuses. -/
theorem CallRecord.bounded_iff {r : CallRecord} {c : GuestCopy} {size : UInt32}
    (hrequest : r.request = some (size, c.object.size)) (hcopy : r.copy = some c)
    (hobject : c.object.Exists) (hbytes : c.bytes = size) (hwindow : c.window = size) :
    r.Bounded ↔ size.toNat ≤ c.object.size ∨ r.Refused := by
  constructor
  · intro h
    by_cases hle : size.toNat ≤ c.object.size
    · exact Or.inl hle
    · exact Or.inr (h.oversized size c.object.size hrequest (Nat.not_le.mp hle))
  · rintro (hle | hrefused)
    · refine ⟨fun c' hc' => ?_, fun size' capacity hreq hlt => ?_⟩
      · obtain rfl := Option.some.inj (hcopy.symm.trans hc')
        exact GuestCopy.inside_of_le hobject (hbytes.trans hwindow.symm) (hbytes ▸ hle)
      · rw [hrequest, Option.some.injEq, Prod.mk.injEq] at hreq
        obtain ⟨rfl, rfl⟩ := hreq
        exact absurd hlt (Nat.not_lt.mpr hle)
    · refine ⟨fun c' hc' => ?_, fun _ _ _ _ => hrefused⟩
      obtain rfl := Option.some.inj (hcopy.symm.trans hc')
      have hnone := hrefused.noCopy c hcopy
      refine ⟨hobject, ?_, ?_⟩
      · rw [hnone]
        exact fun i hi => absurd hi List.not_mem_nil
      · rw [hnone]
        exact fun i hi => absurd hi List.not_mem_nil

/-- A call without a copy keeps the bounds when it refuses what is oversized. -/
theorem CallRecord.bounded_of_none {r : CallRecord} (hcopy : r.copy = none)
    (hrefused : ∀ size capacity, r.request = some (size, capacity) → capacity < size.toNat →
      r.Refused) : r.Bounded := by
  refine ⟨fun c hc => ?_, hrefused⟩
  rw [hcopy] at hc
  cases hc

/-- The hypercall of `caller` returns from `s`, and keeps the bounds when its size fits. -/
def CallBounded (p : Platform) (place : HvObject → UInt32) (s : Copying) (n : Nat)
    (caller : VcpuPtr) (c : CopyCall) : Prop :=
  ∃ r, c.effect p place s.objects (hypercall p s.hv caller c.args) = .ok r ∧ RingsReady r.hv n ∧
    ((s.record p c r).Bounded ↔ c.SizeFits place (s.hv.vcpus caller).vm.baseAddr)

variable {s : Copying}

theorem memcpyCount_eq_zero {dst src bytes : UInt32} (hpos : 0 < bytes.toNat) :
    memcpyCount dst src bytes = 0 ↔ HasBits (dst ||| src ||| bytes) 3 ∧ 2 ^ 31 ≤ bytes.toNat := by
  unfold memcpyCount
  split_ifs with h
  · exact ⟨fun _ => h, fun _ => rfl⟩
  · exact ⟨fun hzero => absurd hzero hpos.ne', fun hbig => absurd hbig h⟩

theorem enLlOutput_isSome (frame : Nat → UInt8) (size : UInt16) :
    (enLlOutput frame size).isSome = false ↔ ¬(0 < size ∧ size.toNat ≤ MTU) := by
  unfold enLlOutput
  split_ifs with h
  · exact ⟨fun hfalse => Bool.noConfusion hfalse, fun hnot => absurd h hnot⟩
  · exact ⟨fun _ => h, fun _ => rfl⟩

/-- How `send_frame` returns, when it is called from `hv` by a VM with the RAM at `base`. -/
def frameSent (p : Platform) (place : HvObject → UInt32) (o : Objects) (hv : Hv)
    (base frame size : UInt32) (buffer : Nat → UInt8) : CallEffect :=
  let buf := MACH_PHYS_TO_VIRT (MACH_VIRT_TO_PHYS (place .txBuf))
  let mapped := windowAddress frame base
  let txBuf := memcpy buf mapped size buffer o.txBuf
  { hv := setGuestGPR p { hv with
      cpu := (tlbCreateEntry hv.cpu frame base size MAPPED_INDEX CACHEABLE).2 } REG_V0 size
    objects := { o with
      txBuf := txBuf
      transmitted := o.transmitted ++ (enLlOutput txBuf size.toUInt16).toList }
    copy := some ⟨.txBuf, buf, mapped, size, size⟩
    started := (enLlOutput txBuf size.toUInt16).isSome }

theorem sendFrame_effect (p : Platform) (place : HvObject → UInt32) (o : Objects) (hv : Hv)
    (caller : VcpuPtr) (frame size : UInt32) (buffer : Nat → UInt8) :
    sendFrameCopy p place buffer o (hypercall p hv caller [(REG_A0, frame), (REG_A1, size)]) =
      .ok (frameSent p place o (hypercall p hv caller [(REG_A0, frame), (REG_A1, size)])
        (hv.vcpus caller).vm.baseAddr frame size buffer) := by
  obtain ⟨hA0, hA1⟩ := hypercall_buffer p hv caller frame size
  have hexec := hypercall_executing p hv caller [(REG_A0, frame), (REG_A1, size)]
  have hsame := hypercall_same p hv caller [(REG_A0, frame), (REG_A1, size)]
  simp only [sendFrameCopy, sendFrame, mappedAddress, mapGuestBuffer, hexec, hA0, hA1,
    hsame.vm caller]
  rw [← hexec]
  rfl

theorem sendFrame_bounded (h : RingsReady s.hv n) (p : Platform) (place : HvObject → UInt32)
    (caller : VcpuPtr) (frame size : UInt32) (buffer : Nat → UInt8) :
    CallBounded p place s n caller (.sendFrame frame size buffer) := by
  have hcall := sendFrame_effect p place s.objects s.hv caller frame size buffer
  set hv := hypercall p s.hv caller [(REG_A0, frame), (REG_A1, size)] with hhv
  have hsame : SameKernel s.hv hv := hypercall_same ..
  set buf := MACH_PHYS_TO_VIRT (MACH_VIRT_TO_PHYS (place .txBuf)) with hbuf
  set mapped := windowAddress frame (s.hv.vcpus caller).vm.baseAddr with hmapped
  refine ⟨_, hcall, (h.same hsame).setCpu _, ?_⟩
  rw [CallRecord.bounded_iff (c := ⟨.txBuf, buf, mapped, size, size⟩) rfl rfl trivial rfl rfl]
  refine or_congr_right' fun hbig => ?_
  have hpos : 0 < size.toNat := Nat.lt_of_le_of_lt (Nat.zero_le _) (Nat.not_le.mp hbig)
  have hv0 : moveFromPreviousGuestGPR p (frameSent p place s.objects hv
      (s.hv.vcpus caller).vm.baseAddr frame size buffer).hv.cpu REG_V0 = size := moveFrom_moveTo ..
  constructor
  · intro hrefused
    have herror : 2 ^ 31 ≤ size.toNat := by
      rw [← hv0]
      exact hrefused.error
    have hnone := (GuestCopy.indexes_eq_nil _).mp (hrefused.noCopy _ rfl)
    exact ⟨((memcpyCount_eq_zero hpos).mp hnone).1, herror,
      (enLlOutput_isSome _ _).mp hrefused.notStarted⟩
  · rintro ⟨hbits, hnegative, hquiet⟩
    have hnone : memcpyCount buf mapped size = 0 :=
      (memcpyCount_eq_zero hpos).mpr ⟨hbits, hnegative⟩
    constructor
    · show 2 ^ 31 ≤ (moveFromPreviousGuestGPR p _ REG_V0).toNat
      rw [hv0]
      exact hnegative
    · intro c hc
      obtain rfl := Option.some.inj hc
      exact (GuestCopy.indexes_eq_nil _).mpr hnone
    · exact (enLlOutput_isSome _ _).mpr hquiet
    · exact contents_eq hsame.messages (memcpy_none _ _ hnone) rfl rfl

theorem usbSendData_bounded (h : RingsReady s.hv n) (p : Platform) (place : HvObject → UInt32)
    (caller : VcpuPtr) (buf size : UInt32) (buffer : Nat → UInt8) :
    CallBounded p place s n caller (.usbSendData buf size buffer) := by
  obtain ⟨hA0, hA1⟩ := hypercall_buffer p s.hv caller buf size
  set hv := hypercall p s.hv caller [(REG_A0, buf), (REG_A1, size)] with hhv
  have hexec : hv.executing = some caller := hypercall_executing ..
  have hsame : SameKernel s.hv hv := hypercall_same ..
  set mapped := windowAddress buf (s.hv.vcpus caller).vm.baseAddr with hmapped
  -- the register of a busy device is overwritten
  obtain ⟨cpu, hsend⟩ : ∃ cpu, usbSendData p (s.objects.transfer = .idle) hv =
      .ok { hv with cpu := cpu } := by
    unfold usbSendData mapGuestBuffer
    split_ifs <;> exact ⟨_, by simp only [setGuestGPR, hexec]; rfl⟩
  have hcall : usbSendDataCopy p place buffer s.objects hv = .ok {
      hv := { hv with cpu := cpu }
      objects := { s.objects with
        bufferTx := memcpy (place .bufferTx) mapped size buffer s.objects.bufferTx
        transfer := .start }
      copy := some ⟨.bufferTx, place .bufferTx, mapped, size, size⟩
      started := true } := by
    simp only [usbSendDataCopy, hsend, mappedAddress, hexec, hA0, hA1, hsame.vm caller]
    rfl
  refine ⟨_, hcall, (h.same hsame).setCpu _, ?_⟩
  rw [CallRecord.bounded_iff (c := ⟨.bufferTx, place .bufferTx, mapped, size, size⟩) rfl rfl trivial
    rfl rfl]
  exact or_iff_left fun hrefused => Bool.noConfusion hrefused.notStarted

theorem getDescriptor_bounded (h : RingsReady s.hv n) (p : Platform) (place : HvObject → UInt32)
    (caller : VcpuPtr) (buf size : UInt32) :
    CallBounded p place s n caller (.getDescriptor buf size) := by
  obtain ⟨hA0, hA1⟩ := hypercall_buffer p s.hv caller buf size
  set hv := hypercall p s.hv caller [(REG_A0, buf), (REG_A1, size)] with hhv
  have hexec : hv.executing = some caller := hypercall_executing ..
  have hsame : SameKernel s.hv hv := hypercall_same ..
  set mapped := windowAddress buf (s.hv.vcpus caller).vm.baseAddr with hmapped
  have hcall : getDescriptorCopy p place s.objects hv = .ok {
      hv := setGuestGPR p { hv with cpu := (tlbCreateEntry hv.cpu buf
        (s.hv.vcpus caller).vm.baseAddr size MAPPED_INDEX CACHEABLE).2 } REG_V0 size
      objects := s.objects
      copy := some ⟨.descriptorData, mapped, place .descriptorData, SIZEOF_DESCRIPTOR_RECEIVE, size⟩
      started := false } := by
    simp only [getDescriptorCopy, getDescriptor, mappedAddress, mapGuestBuffer, hexec, hA0, hA1,
      hsame.vm caller]
    rfl
  refine ⟨_, hcall, (h.same hsame).setCpu _, ?_⟩
  set c : GuestCopy :=
    ⟨.descriptorData, mapped, place .descriptorData, SIZEOF_DESCRIPTOR_RECEIVE, size⟩ with hc
  have hcount : memcpyCount c.dst c.src SIZEOF_DESCRIPTOR_RECEIVE = 32 :=
    memcpyCount_of_lt c.dst c.src (by decide)
  constructor
  · intro hbounded
    have hle : 32 ≤ size.toNat := by
      rw [← hcount]
      exact (c.forall_indexes _).mp (hbounded.inside c rfl).window
    have hge : ¬32 < size.toNat := by
      intro hlt
      have hnone : memcpyCount c.dst c.src SIZEOF_DESCRIPTOR_RECEIVE = 0 :=
        c.indexes_eq_nil.mp ((hbounded.oversized size 32 rfl hlt).noCopy c rfl)
      omega
    apply UInt32.toNat_inj.mp
    show size.toNat = 32
    omega
  · intro hsize
    have hsize : size = SIZEOF_DESCRIPTOR_RECEIVE := hsize
    refine ⟨fun c' hc' => ?_, fun size' capacity hreq hlt => ?_⟩
    · obtain rfl := Option.some.inj hc'
      exact GuestCopy.inside_of_le trivial hsize.symm (le_refl _)
    · obtain ⟨rfl, rfl⟩ := Prod.mk.inj (Option.some.inj hreq)
      rw [hsize] at hlt
      exact absurd hlt (Nat.lt_irrefl _)

theorem intervmSendMsg_bounded (h : RingsReady s.hv n) (p : Platform) (place : HvObject → UInt32)
    (caller : VcpuPtr) (targetId messagePtr messageSize : UInt32) (buffer : Nat → UInt8) :
    CallBounded p place s n caller (.intervmSendMsg targetId messagePtr messageSize buffer) := by
  have hA2 := hypercall_sendSize p s.hv caller targetId messagePtr messageSize
  obtain ⟨target, hv', hsend, hready⟩ := h.send p caller targetId messagePtr messageSize buffer
  set hv := hypercall p s.hv caller (sendArgs targetId messagePtr messageSize) with hhv
  have hexec : hv.executing = some caller := hypercall_executing ..
  have hsame : SameKernel s.hv hv := hypercall_same ..
  cases target with
  | none =>
    have hcall : intervmSendMsgCopy p place buffer s.objects hv =
        .ok { hv := hv', objects := s.objects, copy := none, started := false } := by
      simp only [intervmSendMsgCopy, hsend]
      rfl
    refine ⟨_, hcall, hready, iff_of_true (CallRecord.bounded_of_none rfl ?_) trivial⟩
    intro size capacity hreq hlt
    obtain ⟨rfl, rfl⟩ := Prod.mk.inj (Option.some.inj hreq)
    have hbig : moveFromPreviousGuestGPR p hv.cpu REG_A2 > MESSAGE_SZ := by
      rw [hA2]
      exact UInt32.lt_iff_toNat_lt.mpr hlt
    rw [intervmSendMsg, if_pos hbig] at hsend
    cases hsend
    refine ⟨?_, fun c hc => absurd hc.symm (Option.some_ne_none c), rfl,
      contents_eq hsame.messages rfl rfl rfl⟩
    show 2 ^ 31 ≤ (moveFromPreviousGuestGPR p (setGuestGPR p hv REG_V0 MESSAGE_TOO_BIG).cpu
      REG_V0).toNat
    rw [setGuestGPR, moveFrom_moveTo]
    decide
  | some v =>
    obtain ⟨accepted, received, hqueued⟩ := h.same hsame
    obtain ⟨r, hv'', hsend', ho⟩ := intervmSendMsg_outcome (p := p) hqueued.ready hexec buffer
    rw [hsend, Except.ok.injEq, Prod.mk.injEq] at hsend'
    obtain ⟨rfl, rfl⟩ := hsend'
    have hsize : messageSize ≤ MESSAGE_SZ := hA2 ▸ ho.messages_some.2.2.2
    have hlt : v < n := by
      cases ho with
      | stored v mem init room size cpu guestctl2 => exact mem
    obtain ⟨queue, hholds, -⟩ := hqueued.queue v hlt
    set object := HvObject.message v (hv.vcpus v).messages.inIndex with hobject
    obtain ⟨mapped, hmapped⟩ : ∃ mapped, mappedAddress hv
        (moveFromPreviousGuestGPR p hv.cpu REG_A1) messageSize NONCACHEABLE = .ok mapped :=
      ⟨_, by rw [mappedAddress, hexec]⟩
    have hcall : intervmSendMsgCopy p place buffer s.objects hv = .ok {
        hv := hv'
        objects := s.objects
        copy := some ⟨object, place object, mapped, messageSize, messageSize⟩
        started := true } := by
      simp only [intervmSendMsgCopy, hsend, hA2]
      rw [hmapped]
      rfl
    refine ⟨_, hcall, hready, iff_of_true ?_ trivial⟩
    rw [CallRecord.bounded_iff (c := ⟨object, place object, mapped, messageSize, messageSize⟩)
      rfl rfl hholds.inIndex rfl rfl]
    exact Or.inl (UInt32.le_iff_toNat_le.mp hsize)

theorem intervmRecvMsg_bounded (h : RingsReady s.hv n) (p : Platform) (place : HvObject → UInt32)
    (hcaller : caller < n) (messagePtr : UInt32) :
    CallBounded p place s n caller (.intervmRecvMsg messagePtr) := by
  obtain ⟨bytes, hv', hrecv, hready⟩ := h.recv p caller messagePtr
  set hv := hypercall p s.hv caller [(REG_A0, messagePtr)] with hhv
  have hexec : hv.executing = some caller := hypercall_executing ..
  have hsame : SameKernel s.hv hv := hypercall_same ..
  cases bytes with
  | none =>
    have hcall : intervmRecvMsgCopy p place s.objects hv =
        .ok { hv := hv', objects := s.objects, copy := none, started := false } := by
      simp only [intervmRecvMsgCopy, hrecv]
      rfl
    refine ⟨_, hcall, hready, iff_of_true (CallRecord.bounded_of_none rfl ?_) trivial⟩
    exact fun size capacity hreq => absurd hreq.symm (Option.some_ne_none _)
  | some bytes =>
    obtain ⟨queue, hholds⟩ := (h.same hsame).holds hcaller
    set messages := (hv.vcpus caller).messages with hmessages
    set object := HvObject.message caller messages.outIndex with hobject
    set messagesz := (messages.messageList messages.outIndex.toNat).size with hmessagesz
    obtain ⟨mapped, hmapped⟩ : ∃ mapped, mappedAddress hv
        (moveFromPreviousGuestGPR p hv.cpu REG_A0) messagesz NONCACHEABLE = .ok mapped :=
      ⟨_, by rw [mappedAddress, hexec]⟩
    have hcall : intervmRecvMsgCopy p place s.objects hv = .ok {
        hv := hv'
        objects := s.objects
        copy := some ⟨object, mapped, place object, messagesz, messagesz⟩
        started := false } := by
      simp only [intervmRecvMsgCopy, hrecv, hexec]
      show (mappedAddress _ _ messagesz _ >>= _) = _
      rw [hmapped]
      rfl
    have hsize : messagesz ≤ MESSAGE_SZ :=
      hholds.sizes _ (UInt32.lt_iff_toNat_lt.mp hholds.outIndex)
    refine ⟨_, hcall, hready, iff_of_true ⟨fun c hc => ?_, fun size capacity hreq => ?_⟩ trivial⟩
    · obtain rfl := Option.some.inj hc
      exact GuestCopy.inside_of_le hholds.outIndex rfl (UInt32.le_iff_toNat_le.mp hsize)
    · exact absurd hreq.symm (Option.some_ne_none _)

theorem call_bounded (h : RingsReady s.hv n) (p : Platform) (place : HvObject → UInt32)
    (caller : Fin n) (c : CopyCall) : CallBounded p place s n caller c := by
  cases c with
  | intervmSendMsg targetId messagePtr messageSize buffer =>
    exact intervmSendMsg_bounded h p place caller targetId messagePtr messageSize buffer
  | intervmRecvMsg messagePtr => exact intervmRecvMsg_bounded h p place caller.isLt messagePtr
  | sendFrame frame size buffer => exact sendFrame_bounded h p place caller frame size buffer
  | usbSendData buf size buffer => exact usbSendData_bounded h p place caller buf size buffer
  | getDescriptor buf size => exact getDescriptor_bounded h p place caller buf size

/-! ### Every run -/

/-- All hypercalls so far have kept the bounds. -/
def Copying.Bounded (s : Copying) : Prop := ∀ r ∈ s.calls, r.Bounded

/-- A step is defined, and adds a call that keeps the bounds when its size fits. -/
theorem copyStep_bounded (h : RingsReady s.hv n) (p : Platform) (place : HvObject → UInt32)
    (quantum : UInt32) (e : CopyEvent n) :
    ∃ t, copyStep p place quantum s e = some t ∧ RingsReady t.hv n ∧
      (t.Bounded ↔ s.Bounded ∧ e.SizeFits place s) := by
  cases e with
  | kernel e =>
    obtain ⟨hv', hstep, hready⟩ := h.kernel p quantum e
    exact ⟨{ s with hv := hv' }, by rw [copyStep, hstep]; rfl, hready,
      (and_iff_left trivial).symm⟩
  | switchTo aux =>
    exact ⟨_, rfl, h.same (contextSwitch_same p s.hv aux), (and_iff_left trivial).symm⟩
  | usbDevice transfer descriptorData => exact ⟨_, rfl, h, (and_iff_left trivial).symm⟩
  | call caller c =>
    obtain ⟨r, hcall, hready, hbounded⟩ := call_bounded h p place caller c
    refine ⟨_, by rw [copyStep, hcall], hready, ?_⟩
    show (∀ r' ∈ s.calls ++ [s.record p c r], r'.Bounded) ↔ s.Bounded ∧ c.SizeFits place _
    rw [List.forall_mem_append, List.forall_mem_singleton, hbounded]
    rfl

theorem copyStart_ready (p : Platform) (power : Power) (vmconf : List VmConf) (o : Objects) :
    RingsReady (copyStart p power vmconf o).hv vmconf.length :=
  ⟨_, _, commStart_queued p power vmconf⟩

/-- Every run is defined, and all its hypercalls keep the bounds exactly when they have sizes that
fit. -/
theorem copyBounds_iff (p : Platform) (place : HvObject → UInt32) (quantum : UInt32) (power : Power)
    (vmconf : List VmConf) (o : Objects) (es : List (CopyEvent vmconf.length)) :
    ∃ s, run (copyStep p place quantum) (copyStart p power vmconf o) es = some s ∧
      (s.Bounded ↔ Guarded (copyStep p place quantum) (fun s e => e.SizeFits place s)
        (copyStart p power vmconf o) es) := by
  have hstart := copyStart_ready p power vmconf o
  obtain ⟨s, hrun, -⟩ : ∃ s, run (copyStep p place quantum) _ es = some s ∧ _ :=
    run_defined (P := fun s : Copying => RingsReady s.hv vmconf.length) (fun s e _ hs => by
      obtain ⟨t, hstep, hready, -⟩ := copyStep_bounded hs p place quantum e
      exact ⟨t, hstep, hready⟩) hstart
  refine ⟨s, hrun, ?_⟩
  have hnone : (copyStart p power vmconf o).Bounded := fun r hr => absurd hr List.not_mem_nil
  rw [run_guarded_iff (I := fun s : Copying => RingsReady s.hv vmconf.length) (P := Copying.Bounded)
    (fun s e t _ hs hstep => ?_) hstart hrun]
  · exact and_iff_right hnone
  · obtain ⟨t', hstep', hready, hbounded⟩ := copyStep_bounded hs p place quantum e
    obtain rfl := Option.some.inj (hstep.symm.trans hstep')
    exact ⟨hready, hbounded⟩

/-- The drivers' data at power-up. -/
def Objects.cleared : Objects where
  txBuf := fun _ => 0
  bufferTx := fun _ => 0
  descriptorData := fun _ => 0
  transfer := .idle
  transmitted := []

/-- A frame of one byte more than `tx_buf` has overwrites what lies behind it. -/
theorem frame_overruns_tx_buf :
    ∃ s, run (copyStep .pic32mz (fun _ => 0x80001000) 5)
        (copyStart .pic32mz .cleared pingPong .cleared)
        ([.call 0 (.sendFrame 0x80000100 1537 fun _ => 7)] : List (CopyEvent 2)) = some s ∧
      s.objects.txBuf MTU = 7 ∧ ¬s.Bounded := by
  set s := copyStart .pic32mz .cleared pingPong .cleared with hs
  have hcall := sendFrame_effect .pic32mz (fun _ => 0x80001000) s.objects s.hv (0 : Fin 2)
    0x80000100 1537 fun _ => 7
  obtain ⟨t, hstep, -, hiff⟩ := copyStep_bounded (n := 2)
    (copyStart_ready .pic32mz .cleared pingPong .cleared) .pic32mz (fun _ => 0x80001000) 5
    (.call 0 (.sendFrame 0x80000100 1537 fun _ => 7))
  refine ⟨t, run_cons_of_step hstep rfl, ?_, fun hbounded => ?_⟩
  · simp only [copyStep, CopyCall.effect, CopyCall.args] at hstep
    rw [hcall] at hstep
    obtain rfl := Option.some.inj hstep
    refine (memcpy_apply _ _ 1537 (fun _ => 7) _ MTU).trans (if_pos ?_)
    rw [memcpyCount_of_lt _ _ (by decide)]
    decide
  · rcases (hiff.mp hbounded).2 with hfits | hdiscarded
    · exact absurd hfits (by decide)
    · exact absurd hdiscarded.2.1 (by decide)

end PrplHypervisor.Drivers
