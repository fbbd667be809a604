import PrplHypervisor.Drivers.Ethernet
import PrplHypervisor.Drivers.InterVm
import PrplHypervisor.Lib.Partial

/-! The hypercalls of the device drivers that map a buffer of the guest: UART (`uart_driver.c` of
each platform), Ethernet (`pic32mz-ethernet.c` and the shared driver), USB (`pic32mz-usb.c`), flash
memory (`pic32mz-puf-flash.c`) and performance counters (`performance-counter.c`).  What a device
answers is an argument of its hypercall. -/

namespace PrplHypervisor.Drivers

open Arch Kernel Lib.Partial

def HCALL_USB_BUSY : UInt32 := -5

/-- The temporary entry for a buffer of the VM in execution. -/
def mapGuestBuffer (hv : Hv) (address size useCache : UInt32) : Except Fault Hv :=
  match hv.executing with
  | none => .error .nullPointer
  | some v => .ok { hv with
      cpu := (tlbCreateEntry hv.cpu address (hv.vcpus v).vm.baseAddr size MAPPED_INDEX useCache).2 }

/-- How a UART driver maps the buffer. -/
def uartCache : Platform → UInt32
  | .pic32mz => CACHEABLE
  | .baikalT1 => NONCACHEABLE

/-- `send` of the UART drivers, when the hardware queue takes `sent` characters at once.  On PIC32MZ
the VCPU waits for the rest; on Baikal-T1 the driver does. -/
def uartSend (p : Platform) (sent : UInt32) (hv : Hv) : Except Fault Hv := do
  let str := moveFromPreviousGuestGPR p hv.cpu REG_A0
  let size := moveFromPreviousGuestGPR p hv.cpu REG_A1
  let hv ← mapGuestBuffer hv str size (uartCache p)
  let hv :=
    match p, hv.executing with
    | .pic32mz, some v => if sent < size then setState hv v .blocked else hv
    | _, _ => hv
  return setGuestGPR p hv REG_V0 size

def sendFrame (p : Platform) (hv : Hv) : Except Fault Hv := do
  let frame := moveFromPreviousGuestGPR p hv.cpu REG_A0
  let size := moveFromPreviousGuestGPR p hv.cpu REG_A1
  let hv ← mapGuestBuffer hv frame size CACHEABLE
  return setGuestGPR p hv REG_V0 size

/-- The buffer that `en_get_mac` writes the address of the VM to. -/
def enGetMacCall (p : Platform) (hv : Hv) : Except Fault Hv :=
  mapGuestBuffer hv (moveFromPreviousGuestGPR p hv.cpu REG_A0) (UInt32.ofNat MAC_ADDRESS_SIZE)
    CACHEABLE

/-- `receive_frame`, when the driver has a frame of `framesz` bytes for the VM. -/
def receiveFrameCall (p : Platform) (framesz : UInt32) (hv : Hv) : Except Fault Hv := do
  let framePtr := moveFromPreviousGuestGPR p hv.cpu REG_A0
  let hv ← mapGuestBuffer hv framePtr (UInt32.ofNat MTU) CACHEABLE
  return setGuestGPR p hv REG_V0 framesz

/-- `usb_send_data`, when the last transfer is done or not. -/
def usbSendData (p : Platform) (idle : Bool) (hv : Hv) : Except Fault Hv := do
  let buf := moveFromPreviousGuestGPR p hv.cpu REG_A0
  let size := moveFromPreviousGuestGPR p hv.cpu REG_A1
  -- the busy device is reported, but the call goes on
  let hv := if idle then hv else setGuestGPR p hv REG_V0 HCALL_USB_BUSY
  let hv ← mapGuestBuffer hv buf size CACHEABLE
  return setGuestGPR p hv REG_V0 size

def getDescriptor (p : Platform) (hv : Hv) : Except Fault Hv := do
  let buf := moveFromPreviousGuestGPR p hv.cpu REG_A0
  let size := moveFromPreviousGuestGPR p hv.cpu REG_A1
  let hv ← mapGuestBuffer hv buf size CACHEABLE
  return setGuestGPR p hv REG_V0 size

/-- `flash_read` and `flash_write`, when the transfer of the 1024 bytes returns `ret`. -/
def flashTransfer (p : Platform) (ret : UInt32) (hv : Hv) : Except Fault Hv := do
  let hv ← mapGuestBuffer hv (moveFromPreviousGuestGPR p hv.cpu REG_A0) 1024 CACHEABLE
  return setGuestGPR p hv REG_V0 ret

def flashRead (p : Platform) (ret : UInt32) (hv : Hv) : Except Fault Hv := flashTransfer p ret hv

def flashWrite (p : Platform) (ret : UInt32) (hv : Hv) : Except Fault Hv := flashTransfer p ret hv

def performanceCounterStop (p : Platform) (hv : Hv) : Except Fault Hv := do
  let memoryAddr := moveFromPreviousGuestGPR p hv.cpu REG_A0
  let hv ← mapGuestBuffer hv memoryAddr (2 * 4) CACHEABLE
  return setGuestGPR p hv REG_V0 0

/-- The hypercalls that map a buffer of the guest, with what the guest's memory or the device
answers. -/
inductive MappingCall
  | intervmSendMsg (buffer : Nat → UInt8)
  | intervmRecvMsg
  | uartSend (sent : UInt32)
  | sendFrame
  | receiveFrame (framesz : UInt32)
  | enGetMac
  | usbSendData (idle : Bool)
  | getDescriptor
  | flashRead (ret : UInt32)
  | flashWrite (ret : UInt32)
  | performanceCounterStop

/-- The handler of a hypercall. -/
def MappingCall.handler (p : Platform) (hv : Hv) : MappingCall → Except Fault Hv
  | .intervmSendMsg buffer => Prod.snd <$> Drivers.intervmSendMsg p buffer hv
  | .intervmRecvMsg => Prod.snd <$> Drivers.intervmRecvMsg p hv
  | .uartSend sent => Drivers.uartSend p sent hv
  | .sendFrame => Drivers.sendFrame p hv
  | .receiveFrame framesz => receiveFrameCall p framesz hv
  | .enGetMac => enGetMacCall p hv
  | .usbSendData idle => Drivers.usbSendData p idle hv
  | .getDescriptor => Drivers.getDescriptor p hv
  | .flashRead ret => Drivers.flashRead p ret hv
  | .flashWrite ret => Drivers.flashWrite p ret hv
  | .performanceCounterStop => Drivers.performanceCounterStop p hv

/-- The handler gets as far as the mapping: a message is sent to a VCPU that takes it, or there is
one to receive. -/
def MappingCall.ReachesMap (p : Platform) (hv : Hv) : MappingCall → Prop
  | .intervmSendMsg _ => moveFromPreviousGuestGPR p hv.cpu REG_A2 ≤ MESSAGE_SZ ∧
      ∃ v, getVcpuFromId hv (moveFromPreviousGuestGPR p hv.cpu REG_A0) = .ok (some v) ∧
        (hv.vcpus v).init = 0 ∧ (hv.vcpus v).messages.numMessages ≠ MESSAGELIST_SZ
  | .intervmRecvMsg => ∃ v, hv.executing = some v ∧ (hv.vcpus v).messages.numMessages ≠ 0
  | _ => True

/-- The address and the size that a handler maps. -/
def MappingCall.buffer (p : Platform) (hv : Hv) (caller : VcpuPtr) : MappingCall → UInt32 × UInt32
  | .intervmSendMsg _ => (moveFromPreviousGuestGPR p hv.cpu REG_A1,
      moveFromPreviousGuestGPR p hv.cpu REG_A2)
  | .intervmRecvMsg =>
    let messages := (hv.vcpus caller).messages
    (moveFromPreviousGuestGPR p hv.cpu REG_A0,
      (messages.messageList messages.outIndex.toNat).size)
  | .uartSend _ | .sendFrame | .usbSendData _ | .getDescriptor =>
    (moveFromPreviousGuestGPR p hv.cpu REG_A0, moveFromPreviousGuestGPR p hv.cpu REG_A1)
  | .receiveFrame _ => (moveFromPreviousGuestGPR p hv.cpu REG_A0, UInt32.ofNat MTU)
  | .enGetMac => (moveFromPreviousGuestGPR p hv.cpu REG_A0, UInt32.ofNat MAC_ADDRESS_SIZE)
  | .flashRead _ | .flashWrite _ => (moveFromPreviousGuestGPR p hv.cpu REG_A0, 1024)
  | .performanceCounterStop => (moveFromPreviousGuestGPR p hv.cpu REG_A0, 8)

/-- Whether a handler maps the buffer cacheable. -/
def MappingCall.useCache (p : Platform) : MappingCall → UInt32
  | .intervmSendMsg _ | .intervmRecvMsg => NONCACHEABLE
  | .uartSend _ => uartCache p
  | _ => CACHEABLE

/-! ### What a handler leaves in the TLB -/

@[simp] theorem setGuestGPR_tlb (p : Platform) (hv : Hv) (reg : Nat) (value : UInt32) :
    (setGuestGPR p hv reg value).cpu.tlb = hv.cpu.tlb := by
  cases p <;> rfl

@[simp] theorem fastInterruptDelivery_tlb (hv : Hv) (v : VcpuPtr) :
    (fastInterruptDelivery hv v).cpu.tlb = hv.cpu.tlb := by
  unfold fastInterruptDelivery
  split_ifs <;> rfl

variable {p : Platform} {hv hv' : Hv} {caller : VcpuPtr}

theorem mapGuestBuffer_ok {address size useCache : UInt32} (hexec : hv.executing = some caller)
    (h : mapGuestBuffer hv address size useCache = .ok hv') :
    hv' = { hv with cpu := (tlbCreateEntry hv.cpu address (hv.vcpus caller).vm.baseAddr size
      MAPPED_INDEX useCache).2 } := by
  unfold mapGuestBuffer at h
  split at h
  · cases h
  · rename_i v hv
    obtain rfl := Option.some.inj (hexec.symm.trans hv)
    cases h
    rfl

/-- The temporary entry is for a buffer of the VM of the caller. -/
def HasBuffer (hv hv' : Hv) (caller : VcpuPtr) (address size useCache : UInt32) : Prop :=
  ∃ guestid, hv'.cpu.tlb MAPPED_INDEX =
    (createdEntry address (hv.vcpus caller).vm.baseAddr size MAPPED_INDEX useCache).toHw guestid

theorem hasBuffer_tlbCreateEntry (cpu : Cpu) {address size useCache : UInt32}
    (h : hv'.cpu.tlb = (tlbCreateEntry cpu address (hv.vcpus caller).vm.baseAddr size MAPPED_INDEX
      useCache).2.tlb) : HasBuffer hv hv' caller address size useCache := by
  rw [HasBuffer, h]
  exact ⟨_, Function.update_self MAPPED_INDEX _ cpu.tlb⟩

theorem hasBuffer_of_bind {address size useCache value : UInt32} {reg : Nat}
    (hexec : hv.executing = some caller)
    (h : (do
      let hv ← mapGuestBuffer hv address size useCache
      return setGuestGPR p hv reg value) = Except.ok hv') :
    HasBuffer hv hv' caller address size useCache := by
  obtain ⟨hv₁, hmap, h⟩ := bind_ok.mp h
  obtain rfl := mapGuestBuffer_ok hexec hmap
  cases h
  exact hasBuffer_tlbCreateEntry hv.cpu (setGuestGPR_tlb ..)

theorem intervmSendMsg_maps {buffer : Nat → UInt8} {r : Option VcpuPtr} {v : VcpuPtr}
    (hexec : hv.executing = some caller)
    (hcall : intervmSendMsg p buffer hv = .ok (r, hv'))
    (hsize : moveFromPreviousGuestGPR p hv.cpu REG_A2 ≤ MESSAGE_SZ)
    (htarget : getVcpuFromId hv (moveFromPreviousGuestGPR p hv.cpu REG_A0) = .ok (some v))
    (hinit : (hv.vcpus v).init = 0)
    (hroom : (hv.vcpus v).messages.numMessages ≠ MESSAGELIST_SZ) :
    HasBuffer hv hv' caller (moveFromPreviousGuestGPR p hv.cpu REG_A1)
      (moveFromPreviousGuestGPR p hv.cpu REG_A2) NONCACHEABLE := by
  have hbig : ¬moveFromPreviousGuestGPR p hv.cpu REG_A2 > MESSAGE_SZ := UInt32.not_lt.mpr hsize
  have hnot : ¬(hv.vcpus v).init ≠ 0 := not_not.mpr hinit
  simp only [intervmSendMsg, if_neg hbig, htarget, bind, Except.bind, if_neg hnot, if_neg hroom,
    hexec] at hcall
  cases hcall
  apply hasBuffer_tlbCreateEntry hv.cpu
  rw [fastInterruptDelivery_tlb, setGuestGPR_tlb]
  rfl

theorem intervmSendMsg_refused {buffer : Nat → UInt8} {r : Option VcpuPtr}
    (hcall : intervmSendMsg p buffer hv = .ok (r, hv'))
    (hrefused : ¬MappingCall.ReachesMap p hv (.intervmSendMsg buffer)) :
    hv'.cpu.tlb = hv.cpu.tlb := by
  by_cases hbig : moveFromPreviousGuestGPR p hv.cpu REG_A2 > MESSAGE_SZ
  · simp only [intervmSendMsg, if_pos hbig] at hcall
    cases hcall
    exact setGuestGPR_tlb ..
  cases htarget : getVcpuFromId hv (moveFromPreviousGuestGPR p hv.cpu REG_A0) with
  | error f =>
    simp only [intervmSendMsg, if_neg hbig, htarget, bind, Except.bind] at hcall
    cases hcall
  | ok target =>
    cases target with
    | none =>
      simp only [intervmSendMsg, if_neg hbig, htarget, bind, Except.bind] at hcall
      cases hcall
      exact setGuestGPR_tlb ..
    | some v =>
      by_cases hinit : (hv.vcpus v).init ≠ 0
      · simp only [intervmSendMsg, if_neg hbig, htarget, bind, Except.bind, if_pos hinit] at hcall
        cases hcall
        exact setGuestGPR_tlb ..
      by_cases hfull : (hv.vcpus v).messages.numMessages = MESSAGELIST_SZ
      · simp only [intervmSendMsg, if_neg hbig, htarget, bind, Except.bind, if_neg hinit,
          if_pos hfull] at hcall
        cases hcall
        exact setGuestGPR_tlb ..
      · exact absurd ⟨UInt32.not_lt.mp hbig, v, htarget, not_not.mp hinit, hfull⟩ hrefused

theorem uartSend_maps {sent : UInt32} (hexec : hv.executing = some caller)
    (hcall : uartSend p sent hv = .ok hv') :
    HasBuffer hv hv' caller (moveFromPreviousGuestGPR p hv.cpu REG_A0)
      (moveFromPreviousGuestGPR p hv.cpu REG_A1) (uartCache p) := by
  obtain ⟨hv₁, hmap, hcall⟩ := bind_ok.mp hcall
  obtain rfl := mapGuestBuffer_ok hexec hmap
  cases hcall
  apply hasBuffer_tlbCreateEntry hv.cpu
  rw [setGuestGPR_tlb]
  dsimp only
  split
  · split_ifs <;> rfl
  · rfl

/-- A busy device makes the handler set a register before it maps the buffer. -/
theorem usbSendData_maps {idle : Bool} (hexec : hv.executing = some caller)
    (hcall : usbSendData p idle hv = .ok hv') :
    HasBuffer hv hv' caller (moveFromPreviousGuestGPR p hv.cpu REG_A0)
      (moveFromPreviousGuestGPR p hv.cpu REG_A1) CACHEABLE := by
  cases idle with
  | true => exact hasBuffer_of_bind hexec hcall
  | false =>
    have hbusy : HasBuffer (setGuestGPR p hv REG_V0 HCALL_USB_BUSY) hv' caller
        (moveFromPreviousGuestGPR p hv.cpu REG_A0) (moveFromPreviousGuestGPR p hv.cpu REG_A1)
        CACHEABLE := hasBuffer_of_bind hexec hcall
    exact hbusy

theorem intervmRecvMsg_maps {r : Option (List UInt8)} (hexec : hv.executing = some caller)
    (hcall : intervmRecvMsg p hv = .ok (r, hv'))
    (hnum : (hv.vcpus caller).messages.numMessages ≠ 0) :
    HasBuffer hv hv' caller (moveFromPreviousGuestGPR p hv.cpu REG_A0)
      ((hv.vcpus caller).messages.messageList
        (hv.vcpus caller).messages.outIndex.toNat).size NONCACHEABLE := by
  simp only [intervmRecvMsg, hexec, if_neg hnum] at hcall
  cases hcall
  apply hasBuffer_tlbCreateEntry hv.cpu
  show (setGuestGPR p (setGuestGPR p _ REG_V0 _) REG_A0 _).cpu.tlb = _
  rw [setGuestGPR_tlb, setGuestGPR_tlb]

theorem intervmRecvMsg_refused {r : Option (List UInt8)} (hexec : hv.executing = some caller)
    (hcall : intervmRecvMsg p hv = .ok (r, hv'))
    (hnum : (hv.vcpus caller).messages.numMessages = 0) : hv'.cpu.tlb = hv.cpu.tlb := by
  simp only [intervmRecvMsg, hexec, if_pos hnum] at hcall
  cases hcall
  exact setGuestGPR_tlb ..

/-- A handler that gets as far as the mapping leaves the entry for its buffer. -/
theorem MappingCall.maps {call : MappingCall} (hexec : hv.executing = some caller)
    (hcall : call.handler p hv = .ok hv') (hreach : call.ReachesMap p hv) :
    HasBuffer hv hv' caller (call.buffer p hv caller).1 (call.buffer p hv caller).2
      (call.useCache p) := by
  cases call with
  | intervmSendMsg buffer =>
    obtain ⟨hsize, v, htarget, hinit, hroom⟩ := hreach
    obtain ⟨⟨r, hv₁⟩, hsend, rfl⟩ := map_ok hcall
    exact intervmSendMsg_maps hexec hsend hsize htarget hinit hroom
  | intervmRecvMsg =>
    obtain ⟨v, hv, hnum⟩ := hreach
    obtain rfl := Option.some.inj (hexec.symm.trans hv)
    obtain ⟨⟨r, hv₁⟩, hrecv, rfl⟩ := map_ok hcall
    exact intervmRecvMsg_maps hexec hrecv hnum
  | uartSend sent => exact uartSend_maps hexec hcall
  | usbSendData idle => exact usbSendData_maps hexec hcall
  | sendFrame => exact hasBuffer_of_bind hexec hcall
  | receiveFrame framesz => exact hasBuffer_of_bind hexec hcall
  | enGetMac =>
    obtain rfl := mapGuestBuffer_ok hexec hcall
    exact hasBuffer_tlbCreateEntry hv.cpu rfl
  | getDescriptor => exact hasBuffer_of_bind hexec hcall
  | flashRead ret => exact hasBuffer_of_bind hexec hcall
  | flashWrite ret => exact hasBuffer_of_bind hexec hcall
  | performanceCounterStop => exact hasBuffer_of_bind hexec hcall

theorem MappingCall.refused {call : MappingCall} (hexec : hv.executing = some caller)
    (hcall : call.handler p hv = .ok hv') (hrefused : ¬call.ReachesMap p hv) :
    hv'.cpu.tlb = hv.cpu.tlb := by
  cases call with
  | intervmSendMsg buffer =>
    obtain ⟨⟨r, hv₁⟩, hsend, rfl⟩ := map_ok hcall
    exact intervmSendMsg_refused hsend hrefused
  | intervmRecvMsg =>
    obtain ⟨⟨r, hv₁⟩, hrecv, rfl⟩ := map_ok hcall
    exact intervmRecvMsg_refused hexec hrecv (not_not.mp fun hnum => hrefused ⟨caller, hexec, hnum⟩)
  | _ => exact absurd trivial hrefused

end PrplHypervisor.Drivers
