import PrplHypervisor.Drivers.CallRings
import PrplHypervisor.Drivers.GuestWindow
import PrplHypervisor.Drivers.Usb

/-! What the hypercalls do to memory.  They copy between the objects of the drivers and the window
of the guest's buffer, and get at a register for the guest, without checks but those of the inter-VM
communication.  A call is performed when all its accesses are where they belong; one that is not
ends in an exception of the hypervisor, or overwrites what lies behind an object. -/

namespace PrplHypervisor.Drivers

open Arch Kernel Lib.Partial

/-- An access to a byte of an object, to the buffer of the guest through its window, and to a word
at an address that the guest gives. -/
inductive MemAccess
  | object (o : HvObject) (i : Nat)
  | buffer (w : Window) (bytes offset : Nat)
  | word (address : UInt32)

/-- Where the objects are, and the physical addresses of the RAM of the guests. -/
structure MemoryMap where
  place : HvObject → UInt32
  ram : Nat → Bool

instance (o : HvObject) : Decidable o.Exists :=
  match o with
  | .message _ slot => inferInstanceAs (Decidable (slot < MESSAGELIST_SZ))
  | .txBuf | .bufferTx | .descriptorData => isTrue trivial

/-- The access is inside its object, in the RAM of the guests, or at a word boundary. -/
def MemAccess.Kept (m : MemoryMap) : MemAccess → Prop
  | .object o i => o.Exists ∧ i < o.size
  | .buffer w bytes offset => w.Has m.ram bytes offset
  | .word address => 4 ∣ address.toNat

instance (m : MemoryMap) (a : MemAccess) : Decidable (a.Kept m) :=
  match a with
  | .object _ _ => inferInstanceAs (Decidable (_ ∧ _))
  | .buffer w bytes offset => inferInstanceAs (Decidable (w.Has m.ram bytes offset))
  | .word _ => inferInstanceAs (Decidable (_ ∣ _))

/-- The hypervisor with the data that the hypercalls copy. -/
structure System extends Virtual where
  objects : Objects

def System.setHv (s : System) (hv : Hv) : System :=
  { s with toVirtual := s.toVirtual.setHv hv }

/-- The state in which a hypercall finds the drivers of the USB and of the shared Ethernet device.
It is any at each call, so that what the call makes of it is left out. -/
structure Devices where
  usb : Usb
  readings : UsbReadings
  ethernet : Eth

/-- A failure, an access that is not where it belongs, or a call of `CRITICAL` with its cause code,
EPC and VCPU. -/
inductive Stopped
  | fault (f : Fault)
  | access
  | critical (causeCode epc id : UInt32)
  deriving DecidableEq, Repr

/-! ### Accesses -/

/-- The hypercall as one that maps a buffer. -/
def Hypercall.mapping (answers : Answers) : Hypercall → Option MappingCall
  | .intervmSendMsg => some (.intervmSendMsg answers.buffer)
  | .intervmRecvMsg => some .intervmRecvMsg
  | .flashRead => some (.flashRead answers.flash)
  | .flashWrite => some (.flashWrite answers.flash)
  | .performanceCounterStop => some .performanceCounterStop
  | .enGetMac => some .enGetMac
  | .sendFrame => some .sendFrame
  | .receiveFrame => some (.receiveFrame answers.framesz)
  | .getDescriptor => some .getDescriptor
  | .usbSendData => some (.usbSendData answers.idle)
  | .uartSend => some (.uartSend answers.sent)
  | _ => none

/-- The hypercall as one that copies, with the argument registers of the guest. -/
def Hypercall.copying (p : Platform) (hv : Hv) (buffer : Nat → UInt8) : Hypercall → Option CopyCall
  | .intervmSendMsg => some (.intervmSendMsg (moveFromPreviousGuestGPR p hv.cpu REG_A0)
      (moveFromPreviousGuestGPR p hv.cpu REG_A1) (moveFromPreviousGuestGPR p hv.cpu REG_A2) buffer)
  | .intervmRecvMsg => some (.intervmRecvMsg (moveFromPreviousGuestGPR p hv.cpu REG_A0))
  | .sendFrame => some (.sendFrame (moveFromPreviousGuestGPR p hv.cpu REG_A0)
      (moveFromPreviousGuestGPR p hv.cpu REG_A1) buffer)
  | .usbSendData => some (.usbSendData (moveFromPreviousGuestGPR p hv.cpu REG_A0)
      (moveFromPreviousGuestGPR p hv.cpu REG_A1) buffer)
  | .getDescriptor => some (.getDescriptor (moveFromPreviousGuestGPR p hv.cpu REG_A0)
      (moveFromPreviousGuestGPR p hv.cpu REG_A1))
  | _ => none

/-- The window of a call that maps a buffer. -/
def MappingCall.window (p : Platform) (hv : Hv) (caller : VcpuPtr) (call : MappingCall) : Window :=
  guestWindow hv caller (call.buffer p hv caller).1 (call.buffer p hv caller).2 (call.useCache p)

/-- How many accesses a call that does not copy makes to its buffer, and of how many bytes each.
The transmit interrupt of the UART goes on where `send` has left off. -/
def MappingCall.pieces (p : Platform) (hv : Hv) : MappingCall → Nat × Nat
  | .uartSend _ => ((moveFromPreviousGuestGPR p hv.cpu REG_A1).toNat, 1)
  | .receiveFrame framesz => (framesz.toNat, 1)
  | .enGetMac => (MAC_ADDRESS_SIZE, 1)
  | .flashRead _ | .flashWrite _ => (256, 4)
  | .performanceCounterStop => (2, 4)
  | _ => (0, 1)

def MappingCall.accesses (p : Platform) (hv : Hv) (caller : VcpuPtr) (call : MappingCall) :
    List MemAccess :=
  let (n, bytes) := call.pieces p hv
  (List.range n).map fun i => .buffer (call.window p hv caller) bytes (bytes * i)

/-- Each byte of a copy is an access to the object and one to the buffer. -/
def GuestCopy.accesses (w : Window) (c : GuestCopy) : List MemAccess :=
  c.indexes.flatMap fun i => [.object c.object i, .buffer w 1 i]

/-- What a hypercall for virtualized I/O gets at. -/
def wordAccesses (result : Except Fault (List Access × Hv)) : List MemAccess :=
  match result with
  | .error _ => []
  | .ok (l, _) => l.map fun a =>
    match a with
    | .load address | .store address _ => .word address

/-- The accesses of a hypercall. -/
def Hypercall.accesses (p : Platform) (place : HvObject → UInt32) (vmconfP : List VmConf)
    (answers : Answers) (s : System) (h : Hypercall) : List MemAccess :=
  match s.hv.executing with
  | none => []
  | some caller =>
    match h.mapping answers with
    | none =>
      match h with
      | .readAddress => wordAccesses (Drivers.readAddress p vmconfP answers.word s.hv)
      | .writeAddress => wordAccesses (Drivers.writeAddress p vmconfP s.hv)
      | _ => []
    | some call =>
      match h.copying p s.hv answers.buffer with
      | none => call.accesses p s.hv caller
      | some c =>
        match c.effect p place s.objects s.hv with
        | .ok r => (r.copy.map (GuestCopy.accesses (call.window p s.hv caller))).getD []
        | .error _ => []

/-! ### Performing a call -/

/-- What the data of the drivers answers to a call, or `none` when that gets at an element outside
of an array. -/
def Hypercall.deviceAnswers (d : Driver) (devices : Devices) (s : System) (answers : Answers) :
    Hypercall → Option Answers
  | .usbPolling => (Drivers.usbPolling devices.readings devices.usb).map fun r =>
      { answers with descriptorAvailable := r.1 }
  | .receiveFrame =>
    match d, s.hv.executing with
    | .ethernetShared, some v =>
      match Drivers.receiveFrame devices.ethernet (s.hv.vcpus v).vm.id with
      | .ok ((framesz, _), _) => some { answers with framesz := framesz }
      | .error _ => none
    | _, _ => some answers
  | .usbSendData => some { answers with idle := s.objects.transfer = .idle }
  | _ => some answers

/-- The registered function, with its copy. -/
def Hypercall.effect (p : Platform) (place : HvObject → UInt32) (vmconfP : List VmConf)
    (answers : Answers) (s : System) (h : Hypercall) : Except Fault System :=
  match h.copying p s.hv answers.buffer with
  | some c => (fun r => ⟨s.toVirtual.setHv r.hv, r.objects⟩) <$> c.effect p place s.objects s.hv
  | none => (fun t => ⟨t, s.objects⟩) <$> h.handler p vmconfP answers s.toVirtual

/-- The registered function on the hypervisor and its memory. -/
def Hypercall.perform (p : Platform) (m : MemoryMap) (vmconfP : List VmConf) (d : Driver)
    (devices : Devices) (answers : Answers) (s : System) (h : Hypercall) : Except Stopped System :=
  match h.deviceAnswers d devices s answers with
  | none => .error .access
  | some answers =>
    if ∀ a ∈ h.accesses p m.place vmconfP answers s, a.Kept m then
      (h.effect p m.place vmconfP answers s).mapError .fault
    else .error .access

/-- The accesses of a call are kept, those of the drivers to their own arrays among them. -/
def Hypercall.Kept (p : Platform) (m : MemoryMap) (vmconfP : List VmConf) (d : Driver)
    (devices : Devices) (answers : Answers) (s : System) (h : Hypercall) : Prop :=
  ∃ answers' ∈ h.deviceAnswers d devices s answers,
    ∀ a ∈ h.accesses p m.place vmconfP answers' s, a.Kept m

instance (p : Platform) (m : MemoryMap) (vmconfP : List VmConf) (d : Driver) (devices : Devices)
    (answers : Answers) (s : System) (h : Hypercall) :
    Decidable (h.Kept p m vmconfP d devices answers s) :=
  inferInstanceAs (Decidable (∃ answers' ∈ h.deviceAnswers d devices s answers,
    ∀ a ∈ h.accesses p m.place vmconfP answers' s, a.Kept m))

/-- The function that `hypercall_execution` calls. -/
def installedCall (drivers : Installed) (badinstr : UInt32) : Option (Driver × Hypercall) :=
  let code := getHypercallCode badinstr
  if code > HCALL_TABLE_SIZE - 1 then none else drivers.hypercallTable code

/-- `hypercall_execution` on the hypervisor and its memory. -/
def performHypercall (p : Platform) (m : MemoryMap) (drivers : Installed) (devices : Devices)
    (answers : Answers) (badinstr : UInt32) (s : System) : Except Stopped System :=
  match installedCall drivers badinstr with
  | none => .ok (s.setHv (setGuestGPR p s.hv REG_V0 HCALL_NOT_IMPLEMENTED))
  | some (d, hyper) => hyper.perform p m drivers.vmconfP d devices answers s

variable {p : Platform} {m : MemoryMap} {place : HvObject → UInt32} {vmconfP : List VmConf}
  {answers : Answers} {s t : System} {hv hv' : Hv} {caller : VcpuPtr} {n : Nat} {o : Objects}
  {h : Hypercall} {c : CopyCall} {r : CallEffect}

/-! ### The handlers -/

/-- The data of the USB driver answers whether the device is idle. -/
def IdleAnswered (answers : Answers) (s : System) (h : Hypercall) : Prop :=
  h = .usbSendData → answers.idle = decide (s.objects.transfer = .idle)

theorem deviceAnswers_idle {d : Driver} {devices : Devices} {answers' : Answers}
    (hanswers : h.deviceAnswers d devices s answers = some answers') :
    IdleAnswered answers' s h := by
  rintro rfl
  obtain rfl := Option.some.inj hanswers
  rfl

/-- A copy is made beside what the handler does. -/
theorem effect_handler (heffect : h.effect p place vmconfP answers s = .ok t)
    (hidle : IdleAnswered answers s h) :
    h.handler p vmconfP answers s.toVirtual = .ok t.toVirtual := by
  have hcopy : ∀ {c : CopyCall},
      (fun r : CallEffect => (⟨s.toVirtual.setHv r.hv, r.objects⟩ : System)) <$>
          c.effect p place s.objects s.hv = .ok t →
        s.toVirtual.setHv <$> (c.mapping s.objects).handler p s.hv = .ok t.toVirtual := by
    intro c hc
    obtain ⟨r, hr, rfl⟩ := map_ok hc
    rw [CopyCall.handler_eq hr]
    rfl
  have hplain : h.copying p s.hv answers.buffer = none →
      h.handler p vmconfP answers s.toVirtual = .ok t.toVirtual := by
    intro hnone
    rw [Hypercall.effect, hnone] at heffect
    obtain ⟨u, hu, rfl⟩ := map_ok heffect
    exact hu
  cases h with
  | intervmSendMsg => exact hcopy heffect
  | intervmRecvMsg => exact hcopy heffect
  | sendFrame => exact hcopy heffect
  | getDescriptor => exact hcopy heffect
  | usbSendData =>
    have hcall := hcopy heffect
    rw [Hypercall.handler, hidle rfl]
    exact hcall
  | _ => exact hplain rfl

theorem CopyCall.effect_defined (hready : Ready hv n) (hexec : hv.executing = some caller)
    (p : Platform) (place : HvObject → UInt32) (o : Objects) (c : CopyCall) :
    ∃ r, c.effect p place o hv = .ok r := by
  have hmapped : ∀ address size useCache, ∃ mapped,
      mappedAddress hv address size useCache = .ok mapped :=
    fun _ _ _ => ⟨_, by rw [mappedAddress, hexec]⟩
  obtain ⟨hv', hcall, -⟩ := MappingCall.returns (p := p) hready hexec (c.mapping o)
  cases c with
  | sendFrame frame size buffer =>
    obtain ⟨mapped, hmap⟩ := hmapped (moveFromPreviousGuestGPR p hv.cpu REG_A0)
      (moveFromPreviousGuestGPR p hv.cpu REG_A1) CACHEABLE
    have hcall : Drivers.sendFrame p hv = .ok hv' := hcall
    exact ⟨_, by simp only [effect, sendFrameCopy, hmap, hcall]; rfl⟩
  | usbSendData buf size buffer =>
    obtain ⟨mapped, hmap⟩ := hmapped (moveFromPreviousGuestGPR p hv.cpu REG_A0)
      (moveFromPreviousGuestGPR p hv.cpu REG_A1) CACHEABLE
    have hcall : Drivers.usbSendData p (o.transfer = .idle) hv = .ok hv' := hcall
    exact ⟨_, by simp only [effect, usbSendDataCopy, hmap, hcall]; rfl⟩
  | getDescriptor buf size =>
    obtain ⟨mapped, hmap⟩ := hmapped (moveFromPreviousGuestGPR p hv.cpu REG_A0)
      (moveFromPreviousGuestGPR p hv.cpu REG_A1) CACHEABLE
    have hcall : Drivers.getDescriptor p hv = .ok hv' := hcall
    exact ⟨_, by simp only [effect, getDescriptorCopy, hmap, hcall]; rfl⟩
  | intervmSendMsg targetId messagePtr messageSize buffer =>
    obtain ⟨⟨target, hv₁⟩, hsend, -⟩ := map_ok hcall
    obtain ⟨mapped, hmap⟩ := hmapped (moveFromPreviousGuestGPR p hv.cpu REG_A1)
      (moveFromPreviousGuestGPR p hv.cpu REG_A2) NONCACHEABLE
    cases target with
    | none => exact ⟨_, by simp only [effect, intervmSendMsgCopy, hsend]; rfl⟩
    | some v => exact ⟨_, by simp only [effect, intervmSendMsgCopy, hsend, hmap]; rfl⟩
  | intervmRecvMsg messagePtr =>
    obtain ⟨⟨bytes, hv₁⟩, hrecv, -⟩ := map_ok hcall
    obtain ⟨mapped, hmap⟩ := hmapped (moveFromPreviousGuestGPR p hv.cpu REG_A0)
      ((hv.vcpus caller).messages.messageList
        (hv.vcpus caller).messages.outIndex.toNat).size NONCACHEABLE
    cases bytes with
    | none => exact ⟨_, by simp only [effect, intervmRecvMsgCopy, hrecv]; rfl⟩
    | some bytes =>
      cases hres : intervmRecvMsgCopy p place o hv with
      | ok r => exact ⟨r, hres⟩
      | error f =>
        simp only [intervmRecvMsgCopy, hrecv, hexec, bind, Except.bind, hmap] at hres
        cases hres

/-- Every call has an effect, which stays within the frame of its caller. -/
theorem Hypercall.effect_returns (hready : Ready s.hv vmconfP.length)
    (halloc : AllocationsSucceed vmconfP.length) (hexec : s.hv.executing = some caller)
    (hcaller : caller < vmconfP.length) (hidle : IdleAnswered answers s h) (p : Platform)
    (place : HvObject → UInt32) :
    ∃ t, h.effect p place vmconfP answers s = .ok t ∧ CallFrame caller s.hv t.hv := by
  obtain ⟨t, ht⟩ : ∃ t, h.effect p place vmconfP answers s = .ok t := by
    cases hcopy : h.copying p s.hv answers.buffer with
    | none =>
      obtain ⟨u, hu, -⟩ := Hypercall.returns (p := p) hready halloc hexec hcaller answers h
      exact ⟨⟨u, s.objects⟩, by rw [effect, hcopy, hu]; rfl⟩
    | some c =>
      obtain ⟨r, hr⟩ := c.effect_defined hready hexec p place s.objects
      exact ⟨⟨s.toVirtual.setHv r.hv, r.objects⟩, by simp only [effect, hcopy, hr]; rfl⟩
  obtain ⟨u, hu, hframe⟩ := Hypercall.returns (p := p) hready halloc hexec hcaller answers h
  have hsame := effect_handler ht hidle
  obtain rfl := Except.ok.inj (hu.symm.trans hsame)
  exact ⟨t, ht, hframe⟩

/-! ### The copies -/

theorem sendFrameCopy_copy {buffer : Nat → UInt8} (h : sendFrameCopy p place buffer o hv = .ok r) :
    ∃ dst src, r.copy = some ⟨.txBuf, dst, src, moveFromPreviousGuestGPR p hv.cpu REG_A1,
        moveFromPreviousGuestGPR p hv.cpu REG_A1⟩ ∧
      r.objects.txBuf = memcpy dst src (moveFromPreviousGuestGPR p hv.cpu REG_A1) buffer o.txBuf ∧
      r.objects.bufferTx = o.bufferTx ∧ r.objects.descriptorData = o.descriptorData := by
  obtain ⟨mapped, -, h⟩ := bind_ok.mp h
  obtain ⟨hv', -, h⟩ := bind_ok.mp h
  cases h
  exact ⟨_, _, rfl, rfl, rfl, rfl⟩

theorem usbSendDataCopy_copy {buffer : Nat → UInt8}
    (h : usbSendDataCopy p place buffer o hv = .ok r) :
    ∃ dst src, r.copy = some ⟨.bufferTx, dst, src, moveFromPreviousGuestGPR p hv.cpu REG_A1,
        moveFromPreviousGuestGPR p hv.cpu REG_A1⟩ ∧
      r.objects.bufferTx =
        memcpy dst src (moveFromPreviousGuestGPR p hv.cpu REG_A1) buffer o.bufferTx ∧
      r.objects.txBuf = o.txBuf ∧ r.objects.descriptorData = o.descriptorData := by
  obtain ⟨mapped, -, h⟩ := bind_ok.mp h
  obtain ⟨hv', -, h⟩ := bind_ok.mp h
  cases h
  exact ⟨_, _, rfl, rfl, rfl, rfl⟩

theorem getDescriptorCopy_copy (h : getDescriptorCopy p place o hv = .ok r) :
    ∃ dst src, r.copy = some ⟨.descriptorData, dst, src, SIZEOF_DESCRIPTOR_RECEIVE,
        moveFromPreviousGuestGPR p hv.cpu REG_A1⟩ ∧ r.objects = o := by
  obtain ⟨mapped, -, h⟩ := bind_ok.mp h
  obtain ⟨hv', -, h⟩ := bind_ok.mp h
  cases h
  exact ⟨_, _, rfl, rfl⟩

theorem intervmSendMsgCopy_copy {buffer : Nat → UInt8}
    (h : intervmSendMsgCopy p place buffer o hv = .ok r) :
    r.objects = o ∧ (r.copy = none ∨ ∃ v hv' dst src,
      intervmSendMsg p buffer hv = .ok (some v, hv') ∧
      r.copy = some ⟨.message v (hv.vcpus v).messages.inIndex, dst, src,
        moveFromPreviousGuestGPR p hv.cpu REG_A2, moveFromPreviousGuestGPR p hv.cpu REG_A2⟩) := by
  obtain ⟨⟨target, hv'⟩, hsend, h⟩ := bind_ok.mp h
  cases target with
  | none =>
    cases h
    exact ⟨rfl, Or.inl rfl⟩
  | some v =>
    obtain ⟨mapped, -, h⟩ := bind_ok.mp h
    cases h
    exact ⟨rfl, Or.inr ⟨v, hv', _, _, hsend, rfl⟩⟩

theorem intervmRecvMsgCopy_copy (hexec : hv.executing = some caller)
    (h : intervmRecvMsgCopy p place o hv = .ok r) :
    r.objects = o ∧ (r.copy = none ∨ (hv.vcpus caller).messages.numMessages ≠ 0 ∧ ∃ dst src,
      r.copy = some ⟨.message caller (hv.vcpus caller).messages.outIndex, dst, src,
        ((hv.vcpus caller).messages.messageList
          (hv.vcpus caller).messages.outIndex.toNat).size,
        ((hv.vcpus caller).messages.messageList
          (hv.vcpus caller).messages.outIndex.toNat).size⟩) := by
  obtain ⟨⟨bytes, hv'⟩, hrecv, h⟩ := bind_ok.mp h
  cases bytes with
  | none =>
    cases h
    exact ⟨rfl, Or.inl rfl⟩
  | some bytes =>
    simp only [hexec] at h
    obtain ⟨mapped, -, h⟩ := bind_ok.mp h
    cases h
    refine ⟨rfl, Or.inr ⟨fun hempty => ?_, _, _, rfl⟩⟩
    simp only [intervmRecvMsg, hexec, if_pos hempty] at hrecv
    cases hrecv

/-- Each byte of a copy is accessed. -/
theorem mem_accesses {call : MappingCall} {copy : GuestCopy} (hexec : s.hv.executing = some caller)
    (hmapping : h.mapping answers = some call)
    (hcopying : h.copying p s.hv answers.buffer = some c)
    (heffect : c.effect p place s.objects s.hv = .ok r) (hcopy : r.copy = some copy) {i : Nat}
    (hi : i ∈ copy.indexes) :
    .object copy.object i ∈ h.accesses p place vmconfP answers s := by
  have haccesses : h.accesses p place vmconfP answers s =
      copy.accesses (call.window p s.hv caller) := by
    simp only [Hypercall.accesses, hexec, hmapping, hcopying, heffect, hcopy, Option.map_some,
      Option.getD_some]
  rw [haccesses]
  exact List.mem_flatMap.mpr ⟨i, hi, List.mem_cons_self⟩

theorem GuestCopy.accesses_kept {w : Window} {copy : GuestCopy} (hobject : copy.object.Exists)
    (hle : copy.bytes.toNat ≤ copy.object.size) (hw : ∀ i < copy.bytes.toNat, w.Has m.ram 1 i) :
    ∀ a ∈ copy.accesses w, a.Kept m := by
  intro a ha
  obtain ⟨i, hi, ha⟩ := List.mem_flatMap.mp ha
  have hlt : i < copy.bytes.toNat :=
    Nat.lt_of_lt_of_le (mem_memcpyIndexes.mp hi) (memcpyCount_le _ _ _)
  rcases List.mem_cons.mp ha with rfl | ha
  · exact ⟨hobject, Nat.lt_of_lt_of_le hlt hle⟩
  · obtain rfl := List.mem_singleton.mp ha
    exact hw i hlt

/-- What is behind the end of an object stays as it is. -/
def ObjectFrame (s t : System) : Prop :=
  ∀ (o : HvObject) (i : Nat), o.size ≤ i →
    contents t.hv t.objects o i = contents s.hv s.objects o i

theorem ObjectFrame.of_objects (htx : ∀ i, MTU ≤ i → t.objects.txBuf i = s.objects.txBuf i)
    (husb : ∀ i, BUFFER_TX_SZ ≤ i → t.objects.bufferTx i = s.objects.bufferTx i)
    (hdescriptor : t.objects.descriptorData = s.objects.descriptorData)
    (hrings : RingStep n s.hv t.hv) : ObjectFrame s t := by
  intro o i hi
  cases o with
  | txBuf => exact htx i hi
  | bufferTx => exact husb i hi
  | descriptorData => exact congrFun hdescriptor i
  | message v slot => exact hrings.behind v slot.toNat i hi

/-- A copy whose bytes are inside of the object changes nothing behind it. -/
theorem memcpy_behind {dst src bytes : UInt32} {source object : Nat → UInt8} {size : Nat}
    (hinside : ∀ i ∈ memcpyIndexes dst src bytes, i < size) {i : Nat} (hi : size ≤ i) :
    memcpy dst src bytes source object i = object i := by
  rw [memcpy_apply]
  refine if_neg fun hlt => ?_
  exact absurd (hinside i (mem_memcpyIndexes.mpr hlt)) (Nat.not_lt.mpr hi)

theorem Hypercall.effect_objects (hready : Ready s.hv n) (hexec : s.hv.executing = some caller)
    (hidle : IdleAnswered answers s h)
    (hkept : ∀ a ∈ h.accesses p m.place vmconfP answers s, a.Kept m)
    (heffect : h.effect p m.place vmconfP answers s = .ok t) : ObjectFrame s t := by
  have hrings := Hypercall.ringStep hready hexec h (effect_handler heffect hidle)
  have hsame : t.objects = s.objects → ObjectFrame s t := fun heq =>
    .of_objects (fun _ _ => by rw [heq]) (fun _ _ => by rw [heq]) (by rw [heq]) hrings
  have hplain : h.copying p s.hv answers.buffer = none → ObjectFrame s t := by
    intro hnone
    rw [Hypercall.effect, hnone] at heffect
    obtain ⟨u, -, rfl⟩ := map_ok heffect
    exact hsame rfl
  cases h with
  | sendFrame =>
    obtain ⟨r, hr, rfl⟩ := map_ok heffect
    obtain ⟨dst, src, hcopy, htx, husb, hdescriptor⟩ := sendFrameCopy_copy hr
    refine .of_objects (fun i hi => ?_) (fun i _ => congrFun husb i) hdescriptor hrings
    refine (congrFun htx i).trans (memcpy_behind (fun j hj => ?_) hi)
    exact (hkept _ (mem_accesses hexec rfl rfl hr hcopy hj)).2
  | usbSendData =>
    obtain ⟨r, hr, rfl⟩ := map_ok heffect
    obtain ⟨dst, src, hcopy, husb, htx, hdescriptor⟩ := usbSendDataCopy_copy hr
    refine .of_objects (fun i _ => congrFun htx i) (fun i hi => ?_) hdescriptor hrings
    refine (congrFun husb i).trans (memcpy_behind (fun j hj => ?_) hi)
    exact (hkept _ (mem_accesses hexec rfl rfl hr hcopy hj)).2
  | getDescriptor =>
    obtain ⟨r, hr, rfl⟩ := map_ok heffect
    obtain ⟨dst, src, -, hobjects⟩ := getDescriptorCopy_copy hr
    exact hsame hobjects
  | intervmSendMsg =>
    obtain ⟨r, hr, rfl⟩ := map_ok heffect
    exact hsame (intervmSendMsgCopy_copy hr).1
  | intervmRecvMsg =>
    obtain ⟨r, hr, rfl⟩ := map_ok heffect
    exact hsame (intervmRecvMsgCopy_copy hexec hr).1
  | _ => exact hplain rfl

/-! ### Performed calls -/

variable {d : Driver} {devices : Devices}

theorem perform_ok (hok : h.perform p m vmconfP d devices answers s = .ok t) :
    ∃ answers', h.deviceAnswers d devices s answers = some answers' ∧
      (∀ a ∈ h.accesses p m.place vmconfP answers' s, a.Kept m) ∧
      h.effect p m.place vmconfP answers' s = .ok t := by
  unfold Hypercall.perform at hok
  cases hanswers : h.deviceAnswers d devices s answers with
  | none =>
    simp only [hanswers] at hok
    cases hok
  | some answers' =>
    simp only [hanswers] at hok
    split_ifs at hok with hkept
    refine ⟨answers', rfl, hkept, ?_⟩
    cases heffect : h.effect p m.place vmconfP answers' s with
    | error f =>
      rw [heffect] at hok
      cases hok
    | ok u =>
      rw [heffect] at hok
      rw [Except.ok.inj hok]

/-- A performed call does what its handler does, stays within the frame of its caller, and changes
nothing behind the end of an object. -/
theorem perform_framed (hready : Ready s.hv vmconfP.length)
    (halloc : AllocationsSucceed vmconfP.length) (hexec : s.hv.executing = some caller)
    (hcaller : caller < vmconfP.length)
    (hok : h.perform p m vmconfP d devices answers s = .ok t) :
    CallFrame caller s.hv t.hv ∧ ObjectFrame s t ∧ RingStep vmconfP.length s.hv t.hv := by
  obtain ⟨answers', hanswers, hkept, heffect⟩ := perform_ok hok
  have hidle := deviceAnswers_idle hanswers
  obtain ⟨u, hu, hframe⟩ :=
    Hypercall.effect_returns hready halloc hexec hcaller hidle p m.place
  obtain rfl := Except.ok.inj (hu.symm.trans heffect)
  exact ⟨hframe, Hypercall.effect_objects hready hexec hidle hkept heffect,
    Hypercall.ringStep hready hexec h (effect_handler heffect hidle)⟩

/-- A call whose accesses are kept is performed. -/
theorem Hypercall.Kept.performed (hready : Ready s.hv vmconfP.length)
    (halloc : AllocationsSucceed vmconfP.length) (hexec : s.hv.executing = some caller)
    (hcaller : caller < vmconfP.length) (hkept : h.Kept p m vmconfP d devices answers s) :
    ∃ t, h.perform p m vmconfP d devices answers s = .ok t := by
  obtain ⟨answers', hanswers, hkept⟩ := hkept
  obtain ⟨t, ht, -⟩ := Hypercall.effect_returns hready halloc hexec hcaller
    (deviceAnswers_idle hanswers) p m.place
  refine ⟨t, ?_⟩
  rw [Hypercall.perform, Option.mem_def.mp hanswers]
  show ite _ _ _ = _
  rw [if_pos hkept, ht]
  rfl

theorem Hypercall.kept_of_performed (hok : h.perform p m vmconfP d devices answers s = .ok t) :
    h.Kept p m vmconfP d devices answers s := by
  obtain ⟨answers', hanswers, hkept, -⟩ := perform_ok hok
  exact ⟨answers', hanswers, hkept⟩

variable {drivers : Installed} {badinstr : UInt32}

/-- The call that an exit is for, if any, has its accesses kept. -/
def CallKept (p : Platform) (m : MemoryMap) (drivers : Installed) (devices : Devices)
    (answers : Answers) (badinstr : UInt32) (s : System) : Prop :=
  ∀ x ∈ installedCall drivers badinstr, x.2.Kept p m drivers.vmconfP x.1 devices answers s

instance (p : Platform) (m : MemoryMap) (drivers : Installed) (devices : Devices)
    (answers : Answers) (badinstr : UInt32) (s : System) :
    Decidable (CallKept p m drivers devices answers badinstr s) :=
  inferInstanceAs (Decidable (∀ x ∈ installedCall drivers badinstr, Hypercall.Kept p m _ _ _ _ _ _))

/-- A hypercall that is performed is `hypercall_execution`, and stays within the frame of its caller
and in the objects. -/
theorem performHypercall_framed (hready : Ready s.hv drivers.vmconfP.length)
    (halloc : AllocationsSucceed drivers.vmconfP.length) (hexec : s.hv.executing = some caller)
    (hcaller : caller < drivers.vmconfP.length)
    (hok : performHypercall p m drivers devices answers badinstr s = .ok t) :
    CallFrame caller s.hv t.hv ∧ ObjectFrame s t ∧
      RingStep drivers.vmconfP.length s.hv t.hv := by
  unfold performHypercall at hok
  split at hok
  · cases hok
    refine ⟨CallFrame.setGuestGPR p caller s.hv (Or.inl rfl) _, fun o i _ => ?_,
      .same fun _ => rfl⟩
    cases o <;> rfl
  · exact perform_framed hready halloc hexec hcaller hok

theorem CallKept.performed (hready : Ready s.hv drivers.vmconfP.length)
    (halloc : AllocationsSucceed drivers.vmconfP.length) (hexec : s.hv.executing = some caller)
    (hcaller : caller < drivers.vmconfP.length)
    (hkept : CallKept p m drivers devices answers badinstr s) :
    ∃ t, performHypercall p m drivers devices answers badinstr s = .ok t := by
  unfold performHypercall
  cases hcall : installedCall drivers badinstr with
  | none => exact ⟨_, rfl⟩
  | some x => exact (hkept x hcall).performed hready halloc hexec hcaller

theorem callKept_of_performed
    (hok : performHypercall p m drivers devices answers badinstr s = .ok t) :
    CallKept p m drivers devices answers badinstr s := by
  intro x hcall
  have hcall : installedCall drivers badinstr = some x := hcall
  simp only [performHypercall, hcall] at hok
  exact Hypercall.kept_of_performed hok

/-- What is performed is a run of `hypercall_execution` on the state without the memory. -/
theorem performHypercall_execution
    (hok : performHypercall p m drivers devices answers badinstr s = .ok t) :
    ∃ answers', hypercallExecution p drivers answers' badinstr s.toVirtual = .ok t.toVirtual := by
  unfold performHypercall installedCall at hok
  unfold hypercallExecution
  dsimp only at hok ⊢
  split_ifs at hok ⊢ with hcode
  · cases hok
    exact ⟨answers, rfl⟩
  · cases hentry : drivers.hypercallTable (getHypercallCode badinstr) with
    | none =>
      simp only [hentry] at hok
      cases hok
      exact ⟨answers, rfl⟩
    | some entry =>
      simp only [hentry] at hok
      obtain ⟨answers', hanswers, -, heffect⟩ := perform_ok hok
      exact ⟨answers', effect_handler heffect (deviceAnswers_idle hanswers)⟩

end PrplHypervisor.Drivers
