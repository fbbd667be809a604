import PrplHypervisor.Drivers.CopyBounds

/-! The USB driver in host mode (`pic32mz-usb.c`): the interrupt handler and the polling hypercall
take the device from its connection to its descriptor.  The device chooses how many bytes a packet
has, and the over-current reading ends a connection without taking back the descriptor. -/

namespace PrplHypervisor.Drivers

open Lib.Runs

def DESCRIPTOR_SZ : Nat := 18
def DEBOUNCE_MS : UInt32 := 500
def RESET_MS : UInt32 := 100
def POST_RESET_DELAY_MS : UInt32 := 100
def USB_DEVCONN_INT : UInt32 := (1 : UInt32) <<< 4
def USB_VBUSERR_INT : UInt32 := (1 : UInt32) <<< 7
def USB_DEVDISCONN_INT : UInt32 := (1 : UInt32) <<< 5
/-- Ticks of the counter in a millisecond, half of the 200 MHz of the processor. -/
def MILISECOND : UInt32 := 100000

inductive UsbSpeed
  | fullSpeed
  | highSpeed
  | lowSpeed
  deriving DecidableEq, Repr

/-- The states of `usb_status`. -/
inductive UsbDeviceState
  | idle
  | debounce
  | usbReset
  | afterResetDelay
  | handshake
  | requestDescriptor
  | waitTxInt
  | waitDescriptor
  | readDescriptor
  | running
  | vbusError
  | generalError
  deriving DecidableEq, Repr

structure UsbStatus where
  state : UsbDeviceState
  descriptorAvailable : UInt32
  connected : UInt32
  waitDebounce : UInt32
  speed : UsbSpeed

structure UsbSetupPacket where
  bmRequestType : UInt8
  bRequest : UInt8
  wValue : UInt16
  wIndex : UInt16
  wLength : UInt16

structure DescriptorReceive where
  descriptor : Fin DESCRIPTOR_SZ → UInt8
  received : UInt32
  descrSz : UInt32
  tranferSz : UInt32

/-- The static data of the driver.  `descriptor` has the bytes of the decoded descriptor. -/
structure Usb where
  status : UsbStatus
  transfer : TransferState
  descriptorData : DescriptorReceive
  descriptor : Fin DESCRIPTOR_SZ → UInt8
  setupPacket : UsbSetupPacket
  requestCount : UInt32
  sentSz : UInt32

/-- What a call of `usb_polling` reads: the counter, once and later in the call, the speed bits, the
count and the bytes of the packet received, and the over-current pin. -/
structure UsbReadings where
  now : UInt32
  later : UInt32
  hsFsDevice : Bool
  lsDevice : Bool
  rxcnt : UInt32
  fifo : Nat → UInt8
  isOvercurrent : Bool

/-! ### The interrupt handler -/

def deviceConnected (now : UInt32) (u : Usb) : Usb :=
  { u with status := { u.status with connected := 1, state := .debounce, waitDebounce := now } }

def deviceDisconnected (u : Usb) : Usb :=
  { u with
    status := { u.status with state := .idle, connected := 0, descriptorAvailable := 0 }
    transfer := .idle }

def vbusErrorDetected (u : Usb) : Usb :=
  { u with
    status := { u.status with state := .vbusError, connected := 0, descriptorAvailable := 0 } }

/-- The part of the handler for endpoint 0. -/
def endpoint0 (u : Usb) : Usb :=
  if u.status.state = .waitTxInt then { u with status := { u.status with state := .handshake } }
  else if u.status.state = .waitDescriptor then
    { u with status := { u.status with state := .readDescriptor } }
  else if u.transfer = .waitTxInt then { u with transfer := .sending }
  else u

/-- `usb_int_handler`. -/
def usbIntHandler (interrupts : UInt32) (ep0if : Bool) (now : UInt32) (u : Usb) : Usb :=
  let u := if interrupts &&& USB_DEVCONN_INT ≠ 0 then deviceConnected now u else u
  let u := if interrupts &&& USB_DEVDISCONN_INT ≠ 0 then deviceDisconnected u else u
  let u := if interrupts &&& USB_VBUSERR_INT ≠ 0 then vbusErrorDetected u else u
  if ep0if then endpoint0 u else u

/-! ### The state machines -/

/-- `calc_wait_time`, with `now` the reading of the counter. -/
def calcWaitTime (now time msDelay : UInt32) : Bool := msDelay * MILISECOND < now - time

/-- `descr->descriptor[descr->received++] = byte`, defined for an index of the array. -/
def storeByte (byte : UInt8) (d : DescriptorReceive) : Option DescriptorReceive :=
  if h : d.received.toNat < DESCRIPTOR_SZ then
    some { d with
      descriptor := Function.update d.descriptor ⟨d.received.toNat, h⟩ byte
      received := d.received + 1 }
  else none

/-- The loop of `read_descriptor` over the first `n` bytes of the packet. -/
def storeBytes (fifo : Nat → UInt8) (n : Nat) (d : DescriptorReceive) : Option DescriptorReceive :=
  (List.range n).foldlM (fun d i => storeByte (fifo i) d) d

/-- The part of `read_descriptor` that gets the size of the descriptor and of a packet. -/
def takeSizes (d : DescriptorReceive) : DescriptorReceive :=
  if d.descrSz = 0 then
    { d with
      descrSz := (d.descriptor ⟨0, by decide⟩).toUInt32
      tranferSz := (d.descriptor ⟨7, by decide⟩).toUInt32 }
  else d

/-- `read_descriptor`. -/
def readDescriptor (rxcnt : UInt32) (fifo : Nat → UInt8) (d : DescriptorReceive) :
    Option DescriptorReceive := do
  let d ← storeBytes fifo rxcnt.toNat d
  let d := takeSizes d
  return if rxcnt < d.tranferSz ∨ d.received = d.descrSz then { d with descrSz := d.received }
    else d

/-- The state machine goes on to `state` and waits from `now` on. -/
def Usb.waitIn (u : Usb) (state : UsbDeviceState) (now : UInt32) : Usb :=
  { u with status := { u.status with state := state, waitDebounce := now } }

def Usb.goto (u : Usb) (state : UsbDeviceState) : Usb :=
  { u with status := { u.status with state := state } }

/-- The `switch` of `update_state_machine`.  What it only writes to the controller is left out. -/
def advance (r : UsbReadings) (u : Usb) : Option Usb :=
  match u.status.state with
  | .debounce =>
    some <| if calcWaitTime r.now u.status.waitDebounce DEBOUNCE_MS then u.goto .usbReset else u
  | .usbReset =>
    some <| if calcWaitTime r.now u.status.waitDebounce RESET_MS then
        let speed :=
          if r.hsFsDevice then .fullSpeed else if r.lsDevice then .lowSpeed else .lowSpeed
        { u with status := { u.status with speed := speed } }.waitIn .afterResetDelay r.later
      else u
  | .afterResetDelay =>
    some <| if calcWaitTime r.now u.status.waitDebounce POST_RESET_DELAY_MS then
        u.goto .requestDescriptor
      else u
  | .requestDescriptor =>
    some <| { u with
      descriptorData := ⟨fun _ => 0, 0, 0, 0⟩
      setupPacket := ⟨0x80, 6, 0x100, 0, 18⟩ }.waitIn .waitTxInt r.now
  | .handshake => some <| u.waitIn .waitDescriptor r.now
  | .waitDescriptor =>
    some <| if calcWaitTime r.now u.status.waitDebounce 500 then
        if u.requestCount < 5 then
          { u with requestCount := u.requestCount + 1 }.goto .requestDescriptor
        else u.goto .generalError
      else u
  | .readDescriptor =>
    (readDescriptor r.rxcnt r.fifo u.descriptorData).map fun d =>
      let u := { u with descriptorData := d }
      if d.received < d.descrSz then u.waitIn .waitDescriptor r.now
      else { u.goto .running with
        descriptor := d.descriptor
        status := { (u.goto .running).status with descriptorAvailable := 1 } }
  | .generalError => some { u with requestCount := 0 }
  | .waitTxInt | .running | .idle | .vbusError => some u

/-- What `update_state_machine` does on an over-current reading. -/
def overcurrent (u : Usb) : Usb :=
  { u with status := { u.status with state := .generalError, connected := 0 } }

/-- `update_state_machine`. -/
def updateStateMachine (r : UsbReadings) (u : Usb) : Option Usb :=
  (advance r u).map fun u => if r.isOvercurrent then overcurrent u else u

/-- `data_packet_sent`: how much of `size` bytes is sent after `fuel` passes of its loop. -/
def dataPacketSent (size : UInt32) : Nat → UInt32 → UInt32
  | 0, sentSz => sentSz
  | fuel + 1, sentSz => if sentSz < size then dataPacketSent size fuel (sentSz + 1) else sentSz

/-- `update_transfer_state_machine`. -/
def updateTransferStateMachine (r : UsbReadings) (u : Usb) : Usb :=
  match u.transfer with
  | .start => { u with setupPacket := ⟨0x40, 6, 256, 0, 3⟩, transfer := .sending, sentSz := 0 }
  | .sending =>
    let sentSz := dataPacketSent 3 8 u.sentSz
    if 2 < sentSz then
      { u with
        sentSz := sentSz
        status := { u.status with waitDebounce := r.now }
        transfer := .done }
    else { u with sentSz := sentSz, transfer := .waitTxInt }
  | .done => { u with transfer := .idle }
  | .idle | .waitTxInt => u

/-- `usb_polling`, with the value for `v0`. -/
def usbPolling (r : UsbReadings) (u : Usb) : Option (UInt32 × Usb) := do
  let u ← if u.status.state = .running then some (updateTransferStateMachine r u)
    else updateStateMachine r u
  return (u.status.descriptorAvailable, u)

/-! ### Runs -/

/-- The data once `usb_start` has run. -/
def usbStart : Usb where
  status := ⟨.idle, 0, 0, 0, .fullSpeed⟩
  transfer := .idle
  descriptorData := ⟨fun _ => 0, 0, 0, 0⟩
  descriptor := fun _ => 0
  setupPacket := ⟨0, 0, 0, 0, 0⟩
  requestCount := 0
  sentSz := 0

/-- An interrupt, with the pending ones and the counter, a call of `usb_polling`, or one of
`usb_send_data`, which starts a transfer. -/
inductive UsbEvent
  | interrupt (interrupts : UInt32) (ep0if : Bool) (now : UInt32)
  | polling (r : UsbReadings)
  | sendData

def usbStep (u : Usb) : UsbEvent → Option Usb
  | .interrupt interrupts ep0if now => some (usbIntHandler interrupts ep0if now u)
  | .polling r => (usbPolling r u).map Prod.snd
  | .sendData => some { u with transfer := .start }

/-- The indexes of `descriptor` that `read_descriptor` stores to in a step. -/
def storeIndexes (u : Usb) : UsbEvent → List UInt32
  | .polling r =>
    if u.status.state = .readDescriptor then
      (List.range r.rxcnt.toNat).map fun i => u.descriptorData.received + UInt32.ofNat i
    else []
  | _ => []

def StoresInBounds (u : Usb) (e : UsbEvent) : Prop :=
  ∀ i ∈ storeIndexes u e, i.toNat < DESCRIPTOR_SZ

instance (u : Usb) : DecidablePred (StoresInBounds u) :=
  fun _ => List.decidableBAll _ _

def AvailableConnected (u : Usb) : Prop :=
  u.status.descriptorAvailable = 1 → u.status.connected = 1

/-- In the run of `es`, `read_descriptor` stores to the array only and a descriptor is available
only while a device is connected. -/
structure EnumerationSafe (es : List UsbEvent) : Prop where
  stores : Guarded usbStep StoresInBounds usbStart es
  available : Always usbStep AvailableConnected usbStart es

/-- The sizes of the descriptor and of a packet that the driver goes by when it has read the packet.
The first packet announces them. -/
def announced (u : Usb) (r : UsbReadings) : UInt32 × UInt32 :=
  if u.descriptorData.descrSz = 0 then
    (if 0 < r.rxcnt then (r.fifo 0).toUInt32 else 0, if 7 < r.rxcnt then (r.fifo 7).toUInt32 else 0)
  else (u.descriptorData.descrSz, u.descriptorData.tranferSz)

/-- The packet is the last one of the descriptor. -/
def LastPacket (u : Usb) (r : UsbReadings) : Prop :=
  r.rxcnt < (announced u r).2 ∨ (announced u r).1 ≤ u.descriptorData.received + r.rxcnt

/-- A packet that is read fits in what is left of the array, and an over-current is read only while
no descriptor is available or becomes so. -/
def Tolerated (u : Usb) : UsbEvent → Prop
  | .polling r =>
    (u.status.state = .readDescriptor →
      u.descriptorData.received.toNat + r.rxcnt.toNat ≤ DESCRIPTOR_SZ) ∧
    (r.isOvercurrent = true → u.status.state ≠ .running → u.status.descriptorAvailable ≠ 1 ∧
      ¬(u.status.state = .readDescriptor ∧ LastPacket u r))
  | _ => True

/-! ### What a step keeps -/

/-- A device is connected in this state. -/
def UsbDeviceState.Active (s : UsbDeviceState) : Prop :=
  s ≠ .idle ∧ s ≠ .vbusError ∧ s ≠ .generalError

/-- The descriptor has been requested and is not complete. -/
def UsbDeviceState.Requested (s : UsbDeviceState) : Prop :=
  s = .waitTxInt ∨ s = .handshake ∨ s = .waitDescriptor ∨ s = .readDescriptor

instance : DecidablePred UsbDeviceState.Active := fun _ => inferInstanceAs (Decidable (_ ∧ _))

instance : DecidablePred UsbDeviceState.Requested := fun _ => inferInstanceAs (Decidable (_ ∨ _))

/-- While the sizes are not known nothing of the descriptor has been received. -/
structure UsbInv (u : Usb) : Prop where
  active : u.status.state.Active → u.status.connected = 1
  received : u.descriptorData.received.toNat ≤ DESCRIPTOR_SZ
  cleared : u.status.state.Requested → u.descriptorData.descrSz = 0 →
    u.descriptorData.received = 0 ∧ ∀ i, u.descriptorData.descriptor i = 0

/-- A step that leaves the flags and the received data and begins neither a connection nor a
request. -/
structure Quiet (u t : Usb) : Prop where
  connected : t.status.connected = u.status.connected
  available : t.status.descriptorAvailable = u.status.descriptorAvailable
  data : t.descriptorData = u.descriptorData
  active : t.status.state.Active → u.status.state.Active
  requested : t.status.state.Requested → u.status.state.Requested

variable {u t : Usb} {r : UsbReadings} {d : DescriptorReceive} {n : Nat}

theorem Quiet.refl (u : Usb) : Quiet u u := ⟨rfl, rfl, rfl, id, id⟩

theorem Quiet.of_state (s s' : UsbDeviceState) (hs : u.status.state = s) (ht : t.status.state = s')
    (hkeep : (s'.Active → s.Active) ∧ (s'.Requested → s.Requested))
    (hconnected : t.status.connected = u.status.connected)
    (havailable : t.status.descriptorAvailable = u.status.descriptorAvailable)
    (hdata : t.descriptorData = u.descriptorData) : Quiet u t where
  connected := hconnected
  available := havailable
  data := hdata
  active := by rw [hs, ht]; exact hkeep.1
  requested := by rw [hs, ht]; exact hkeep.2

theorem Quiet.inv (h : Quiet u t) (hu : UsbInv u) : UsbInv t where
  active ht := h.connected.trans (hu.active (h.active ht))
  received := by rw [h.data]; exact hu.received
  cleared ht := by rw [h.data]; exact hu.cleared (h.requested ht)

theorem Quiet.availableConnected (h : Quiet u t) (hu : AvailableConnected u) :
    AvailableConnected t := by
  rw [AvailableConnected, h.available, h.connected]
  exact hu

theorem usbStart_inv : UsbInv usbStart where
  active h := absurd rfl h.1
  received := by decide
  cleared _ _ := ⟨rfl, fun _ => rfl⟩

/-! ### Interrupts -/

theorem endpoint0_quiet (u : Usb) : Quiet u (endpoint0 u) := by
  unfold endpoint0
  split_ifs with htx hwait hsend
  · exact Quiet.of_state .waitTxInt .handshake htx rfl (by decide) rfl rfl rfl
  · exact Quiet.of_state .waitDescriptor .readDescriptor hwait rfl (by decide) rfl rfl rfl
  · exact ⟨rfl, rfl, rfl, id, id⟩
  · exact Quiet.refl u

theorem deviceConnected_inv (now : UInt32) (hu : UsbInv u) : UsbInv (deviceConnected now u) where
  active _ := rfl
  received := hu.received
  cleared h := absurd (show UsbDeviceState.Requested .debounce from h) (by decide)

theorem deviceDisconnected_inv (hu : UsbInv u) : UsbInv (deviceDisconnected u) where
  active h := absurd rfl h.1
  received := hu.received
  cleared h := absurd (show UsbDeviceState.Requested .idle from h) (by decide)

theorem vbusErrorDetected_inv (hu : UsbInv u) : UsbInv (vbusErrorDetected u) where
  active h := absurd rfl h.2.1
  received := hu.received
  cleared h := absurd (show UsbDeviceState.Requested .vbusError from h) (by decide)

/-- An interrupt that ends the connection takes back the descriptor. -/
theorem usbIntHandler_inv (interrupts : UInt32) (ep0if : Bool) (now : UInt32) (hu : UsbInv u)
    (hav : AvailableConnected u) : UsbInv (usbIntHandler interrupts ep0if now u) ∧
      AvailableConnected (usbIntHandler interrupts ep0if now u) := by
  unfold usbIntHandler
  extract_lets u₁ u₂ u₃
  have h₁ : UsbInv u₁ ∧ AvailableConnected u₁ := by
    unfold u₁
    split_ifs
    · exact ⟨deviceConnected_inv now hu, fun _ => rfl⟩
    · exact ⟨hu, hav⟩
  have h₂ : UsbInv u₂ ∧ AvailableConnected u₂ := by
    unfold u₂
    split_ifs
    · exact ⟨deviceDisconnected_inv h₁.1, fun h => absurd h (by decide : (0 : UInt32) ≠ 1)⟩
    · exact h₁
  have h₃ : UsbInv u₃ ∧ AvailableConnected u₃ := by
    unfold u₃
    split_ifs
    · exact ⟨vbusErrorDetected_inv h₂.1, fun h => absurd h (by decide : (0 : UInt32) ≠ 1)⟩
    · exact h₂
  split_ifs
  · exact ⟨(endpoint0_quiet u₃).inv h₃.1, (endpoint0_quiet u₃).availableConnected h₃.2⟩
  · exact h₃

/-! ### Receiving the descriptor -/

theorem storeBytes_succ (fifo : Nat → UInt8) (n : Nat) (d : DescriptorReceive) :
    storeBytes fifo (n + 1) d = (storeBytes fifo n d).bind (storeByte (fifo n)) := by
  simp [storeBytes, List.range_succ, List.foldlM_append]

/-- The bytes of a packet that fits go behind those received before. -/
theorem storeBytes_eq (fifo : Nat → UInt8) (hfit : d.received.toNat + n ≤ DESCRIPTOR_SZ) :
    ∃ d', storeBytes fifo n d = some d' ∧ d'.received.toNat = d.received.toNat + n ∧
      d'.descrSz = d.descrSz ∧ d'.tranferSz = d.tranferSz ∧
      ∀ j, d'.descriptor j =
        if d.received.toNat ≤ j ∧ j < d.received.toNat + n then fifo (j - d.received.toNat)
        else d.descriptor j := by
  have hsz : DESCRIPTOR_SZ = 18 := rfl
  induction n with
  | zero =>
    refine ⟨d, rfl, rfl, rfl, rfl, fun j => (if_neg ?_).symm⟩
    omega
  | succ n ih =>
    obtain ⟨d', hd', hreceived, hsize, htransfer, hbytes⟩ := ih (by omega)
    have hindex : d'.received.toNat < DESCRIPTOR_SZ := by omega
    rw [storeBytes_succ, hd', Option.bind_some, storeByte, dif_pos hindex]
    refine ⟨_, rfl, ?_, hsize, htransfer, fun j => ?_⟩
    · show (d'.received + 1).toNat = _
      rw [UInt32.toNat_add, hreceived]
      show (d.received.toNat + n + 1) % 2 ^ 32 = _
      omega
    · show Function.update d'.descriptor ⟨d'.received.toNat, hindex⟩ (fifo n) j = _
      by_cases hj : j = ⟨d'.received.toNat, hindex⟩
      · have hval : (j : Nat) = d.received.toNat + n := by rw [hj]; exact hreceived
        rw [hj, Function.update_self, ← hj, if_pos (by omega)]
        congr 1
        omega
      · have hval : (j : Nat) ≠ d.received.toNat + n := fun h =>
          hj (Fin.ext (h.trans hreceived.symm))
        rw [Function.update_of_ne hj, hbytes]
        refine if_congr ?_ rfl rfl
        omega

/-- A packet that does not fit is not stored within the array. -/
theorem storeBytes_eq_none (fifo : Nat → UInt8) (hd : d.received.toNat ≤ DESCRIPTOR_SZ)
    (hlong : DESCRIPTOR_SZ < d.received.toNat + n) : storeBytes fifo n d = none := by
  induction n with
  | zero => omega
  | succ n ih =>
    rw [storeBytes_succ]
    by_cases hn : DESCRIPTOR_SZ < d.received.toNat + n
    · rw [ih hn, Option.bind_none]
    · obtain ⟨d', hd', hreceived, -⟩ := storeBytes_eq fifo (Nat.le_of_not_lt hn)
      rw [hd', Option.bind_some, storeByte, dif_neg (by omega)]

theorem storesInBounds_iff (hu : UsbInv u) (hstate : u.status.state = .readDescriptor) :
    StoresInBounds u (.polling r) ↔
      u.descriptorData.received.toNat + r.rxcnt.toNat ≤ DESCRIPTOR_SZ := by
  have hsz : DESCRIPTOR_SZ = 18 := rfl
  have hreceived := hu.received
  have hindex : ∀ i < r.rxcnt.toNat,
      (u.descriptorData.received + UInt32.ofNat i).toNat =
        (u.descriptorData.received.toNat + i) % 2 ^ 32 := by
    intro i hi
    rw [UInt32.toNat_add, UInt32.toNat_ofNat', Nat.add_mod_mod]
  simp only [StoresInBounds, storeIndexes, if_pos hstate, List.mem_map, List.mem_range,
    forall_exists_index, and_imp, forall_apply_eq_imp_iff₂]
  constructor
  · intro hall
    by_contra hlong
    have hlast : DESCRIPTOR_SZ - u.descriptorData.received.toNat < r.rxcnt.toNat := by omega
    have hstore := hall _ hlast
    rw [hindex _ hlast] at hstore
    omega
  · intro hfit i hi
    rw [hindex i hi]
    omega

theorem takeSizes_received (d : DescriptorReceive) : (takeSizes d).received = d.received := by
  unfold takeSizes
  split_ifs <;> rfl

/-- The bytes that the sizes come from are those of the packet, or have been cleared. -/
theorem takeSizes_eq (hclear : u.descriptorData.descrSz = 0 → u.descriptorData.received = 0 ∧
      ∀ i, u.descriptorData.descriptor i = 0)
    (hfit : u.descriptorData.received.toNat + r.rxcnt.toNat ≤ DESCRIPTOR_SZ)
    (hstore : storeBytes r.fifo r.rxcnt.toNat u.descriptorData = some d) :
    ((takeSizes d).descrSz, (takeSizes d).tranferSz) = announced u r := by
  obtain ⟨d', hd', -, hsize, htransfer, hbytes⟩ := storeBytes_eq r.fifo hfit
  obtain rfl : d' = d := Option.some.inj (hd'.symm.trans hstore)
  unfold takeSizes announced
  rw [hsize]
  by_cases hzero : u.descriptorData.descrSz = 0
  · obtain ⟨hnone, hempty⟩ := hclear hzero
    have hbyte : ∀ j, (d'.descriptor j).toUInt32 =
        if (j : Nat) < r.rxcnt.toNat then (r.fifo j).toUInt32 else 0 := by
      intro j
      rw [hbytes, hempty, hnone]
      simp only [UInt32.toNat_zero, Nat.zero_le, true_and, Nat.zero_add, Nat.sub_zero]
      split_ifs <;> rfl
    rw [if_pos hzero, if_pos hzero]
    simp only [hbyte, UInt32.lt_iff_toNat_lt]
    rfl
  · rw [if_neg hzero, if_neg hzero, hsize, htransfer]

/-- What `read_descriptor` makes of a packet that fits. -/
theorem readDescriptor_eq (hu : UsbInv u) (hstate : u.status.state = .readDescriptor)
    (hfit : u.descriptorData.received.toNat + r.rxcnt.toNat ≤ DESCRIPTOR_SZ) :
    ∃ d, readDescriptor r.rxcnt r.fifo u.descriptorData = some d ∧
      d.received.toNat ≤ DESCRIPTOR_SZ ∧ (d.received < d.descrSz ↔ ¬LastPacket u r) := by
  have hsz : DESCRIPTOR_SZ = 18 := rfl
  obtain ⟨d, hd, hreceived, -⟩ := storeBytes_eq r.fifo hfit
  have hsum : d.received = u.descriptorData.received + r.rxcnt := by
    rw [← UInt32.toNat_inj, hreceived, UInt32.toNat_add]
    omega
  have hsizes := takeSizes_eq (hu.cleared (Or.inr (Or.inr (Or.inr hstate)))) hfit hd
  have hsize : (announced u r).1 = (takeSizes d).descrSz := congrArg Prod.fst hsizes.symm
  have htransfer : (announced u r).2 = (takeSizes d).tranferSz := congrArg Prod.snd hsizes.symm
  rw [readDescriptor, hd, LastPacket, hsize, htransfer, ← hsum, ← takeSizes_received d]
  rw [← hreceived, ← takeSizes_received d] at hfit
  by_cases hlast : r.rxcnt < (takeSizes d).tranferSz ∨
    (takeSizes d).received = (takeSizes d).descrSz
  · refine ⟨_, congrArg some (if_pos hlast), hfit,
      iff_of_false (UInt32.lt_irrefl _) (not_not_intro (hlast.imp_right ?_))⟩
    exact fun heq => heq ▸ UInt32.le_refl _
  · refine ⟨_, congrArg some (if_neg hlast), hfit, ?_⟩
    simp only [UInt32.lt_iff_toNat_lt, UInt32.le_iff_toNat_le, ← UInt32.toNat_inj] at hlast ⊢
    omega

/-! ### Polling -/

theorem updateTransferStateMachine_quiet (r : UsbReadings) (u : Usb) :
    Quiet u (updateTransferStateMachine r u) := by
  unfold updateTransferStateMachine
  cases u.transfer with
  | sending =>
    dsimp only
    split_ifs
    · exact ⟨rfl, rfl, rfl, id, id⟩
    · exact ⟨rfl, rfl, rfl, id, id⟩
  | _ => exact ⟨rfl, rfl, rfl, id, id⟩

/-- A pass that reads a packet either waits for the next one or has the descriptor. -/
theorem advance_readDescriptor (hu : UsbInv u) (hstate : u.status.state = .readDescriptor)
    (hfit : u.descriptorData.received.toNat + r.rxcnt.toNat ≤ DESCRIPTOR_SZ) :
    ∃ t, advance r u = some t ∧ UsbInv t ∧ t.status.connected = u.status.connected ∧
      (LastPacket u r → t.status.descriptorAvailable = 1) ∧
      (¬LastPacket u r → t.status.descriptorAvailable = u.status.descriptorAvailable) := by
  obtain ⟨d, hd, hreceived, hlast⟩ := readDescriptor_eq hu hstate hfit
  have hconnected : u.status.connected = 1 :=
    hu.active (hstate ▸ by decide)
  unfold advance
  simp only [hstate, hd, Option.map_some]
  refine ⟨_, rfl, ?_⟩
  split_ifs with hmore
  · refine ⟨⟨fun _ => hconnected, hreceived, fun _ hzero => ?_⟩, rfl,
      fun h => absurd h (hlast.mp hmore), fun _ => rfl⟩
    -- a packet that leaves the size unknown ends the descriptor
    have hsize : d.descrSz = 0 := hzero
    rw [hsize, UInt32.lt_iff_toNat_lt] at hmore
    exact absurd hmore (Nat.not_lt_zero _)
  · refine ⟨⟨fun _ => hconnected, hreceived, fun h => ?_⟩, rfl, fun _ => rfl,
      fun h => absurd (hlast.mpr h) hmore⟩
    exact absurd (show UsbDeviceState.Requested .running from h) (by decide)

/-- The other passes leave the flags. -/
theorem advance_other (hu : UsbInv u) (hstate : u.status.state ≠ .readDescriptor) :
    ∃ t, advance r u = some t ∧ UsbInv t ∧ t.status.connected = u.status.connected ∧
      t.status.descriptorAvailable = u.status.descriptorAvailable := by
  have hquiet : ∀ t, Quiet u t → ∃ t', some t = some t' ∧ UsbInv t' ∧
      t'.status.connected = u.status.connected ∧
      t'.status.descriptorAvailable = u.status.descriptorAvailable :=
    fun t ht => ⟨t, rfl, ht.inv hu, ht.connected, ht.available⟩
  unfold advance
  cases hs : u.status.state with
  | debounce =>
    apply hquiet
    split_ifs
    · exact Quiet.of_state .debounce .usbReset hs rfl (by decide) rfl rfl rfl
    · exact Quiet.refl u
  | usbReset =>
    apply hquiet
    by_cases hwait : calcWaitTime r.now u.status.waitDebounce RESET_MS
    · rw [if_pos hwait]
      exact Quiet.of_state .usbReset .afterResetDelay hs rfl (by decide) rfl rfl rfl
    · rw [if_neg hwait]
      exact Quiet.refl u
  | afterResetDelay =>
    apply hquiet
    split_ifs
    · exact Quiet.of_state .afterResetDelay .requestDescriptor hs rfl (by decide) rfl rfl rfl
    · exact Quiet.refl u
  | requestDescriptor =>
    exact ⟨_, rfl, ⟨fun _ => hu.active (hs ▸ by decide), Nat.zero_le _,
      fun _ _ => ⟨rfl, fun _ => rfl⟩⟩, rfl, rfl⟩
  | handshake =>
    exact hquiet _ (Quiet.of_state .handshake .waitDescriptor hs rfl (by decide) rfl rfl rfl)
  | waitDescriptor =>
    apply hquiet
    split_ifs
    · exact Quiet.of_state .waitDescriptor .requestDescriptor hs rfl (by decide) rfl rfl rfl
    · exact Quiet.of_state .waitDescriptor .generalError hs rfl (by decide) rfl rfl rfl
    · exact Quiet.refl u
  | readDescriptor => exact absurd hs hstate
  | generalError => exact hquiet _ ⟨rfl, rfl, rfl, id, id⟩
  | waitTxInt | running | idle | vbusError => exact hquiet u (Quiet.refl u)

theorem overcurrent_inv (hu : UsbInv u) : UsbInv (overcurrent u) where
  active h := absurd rfl h.2.2
  received := hu.received
  cleared h := absurd (show UsbDeviceState.Requested .generalError from h) (by decide)

theorem advance_eq (hu : UsbInv u) (hfit : u.status.state = .readDescriptor →
      u.descriptorData.received.toNat + r.rxcnt.toNat ≤ DESCRIPTOR_SZ) :
    ∃ t, advance r u = some t ∧ UsbInv t ∧ t.status.connected = u.status.connected ∧
      (u.status.state = .readDescriptor ∧ LastPacket u r → t.status.descriptorAvailable = 1) ∧
      (¬(u.status.state = .readDescriptor ∧ LastPacket u r) →
        t.status.descriptorAvailable = u.status.descriptorAvailable) := by
  by_cases hstate : u.status.state = .readDescriptor
  · obtain ⟨t, ht, hinv, hconnected, hlast, hmore⟩ :=
      advance_readDescriptor hu hstate (hfit hstate)
    exact ⟨t, ht, hinv, hconnected, fun h => hlast h.2, fun h => hmore fun hl => h ⟨hstate, hl⟩⟩
  · obtain ⟨t, ht, hinv, hconnected, havailable⟩ := advance_other (r := r) hu hstate
    exact ⟨t, ht, hinv, hconnected, fun h => absurd h.1 hstate, fun _ => havailable⟩

/-- An over-current reading ends the connection and leaves the descriptor. -/
theorem updateStateMachine_eq (hu : UsbInv u) (hav : AvailableConnected u)
    (hfit : u.status.state = .readDescriptor →
      u.descriptorData.received.toNat + r.rxcnt.toNat ≤ DESCRIPTOR_SZ) :
    ∃ t, updateStateMachine r u = some t ∧ UsbInv t ∧
      (AvailableConnected t ↔ (r.isOvercurrent = true → u.status.descriptorAvailable ≠ 1 ∧
        ¬(u.status.state = .readDescriptor ∧ LastPacket u r))) := by
  obtain ⟨t, ht, hinv, hconnected, hlast, hmore⟩ := advance_eq hu hfit
  rw [updateStateMachine, ht, Option.map_some]
  by_cases hover : r.isOvercurrent = true
  · refine ⟨_, congrArg some (if_pos hover), overcurrent_inv hinv, ?_⟩
    have hnever : AvailableConnected (overcurrent t) ↔ t.status.descriptorAvailable ≠ 1 :=
      imp_congr_right fun _ => iff_of_false (show (0 : UInt32) ≠ 1 by decide) not_false
    rw [hnever, forall_prop_of_true hover]
    by_cases hdone : u.status.state = .readDescriptor ∧ LastPacket u r
    · rw [hlast hdone]
      exact iff_of_false (fun h => h rfl) fun h => h.2 hdone
    · rw [hmore hdone, and_iff_left hdone]
  · refine ⟨_, congrArg some (if_neg hover), hinv,
      iff_of_true (fun h => ?_) fun h => absurd h hover⟩
    rw [hconnected]
    by_cases hdone : u.status.state = .readDescriptor ∧ LastPacket u r
    · exact hu.active (hdone.1 ▸ by decide)
    · exact hav (hmore hdone ▸ h)

/-- A step that stores to the array only is defined, and keeps the flags as they should be when it
is tolerated. -/
theorem usbStep_spec (hu : UsbInv u) (hav : AvailableConnected u) (e : UsbEvent)
    (hstores : StoresInBounds u e) :
    ∃ t, usbStep u e = some t ∧ UsbInv t ∧ (AvailableConnected t ↔ Tolerated u e) := by
  cases e with
  | interrupt interrupts ep0if now =>
    obtain ⟨hinv, hkeep⟩ := usbIntHandler_inv interrupts ep0if now hu hav
    exact ⟨_, rfl, hinv, iff_of_true hkeep trivial⟩
  | sendData =>
    exact ⟨_, rfl, ⟨hu.active, hu.received, hu.cleared⟩, iff_of_true hav trivial⟩
  | polling r =>
    have hfit : u.status.state = .readDescriptor →
        u.descriptorData.received.toNat + r.rxcnt.toNat ≤ DESCRIPTOR_SZ :=
      fun h => (storesInBounds_iff hu h).mp hstores
    rw [Tolerated, and_iff_right hfit]
    by_cases hrun : u.status.state = .running
    · have hquiet := updateTransferStateMachine_quiet r u
      refine ⟨updateTransferStateMachine r u, ?_, hquiet.inv hu,
        iff_of_true (hquiet.availableConnected hav) fun _ h => absurd hrun h⟩
      rw [usbStep, usbPolling, if_pos hrun]
      rfl
    · obtain ⟨t, ht, hinv, hflags⟩ := updateStateMachine_eq hu hav hfit
      refine ⟨t, ?_, hinv, ?_⟩
      · rw [usbStep, usbPolling, if_neg hrun, ht]
        rfl
      · rw [hflags, forall_prop_of_true hrun]

theorem Tolerated.storesInBounds {e : UsbEvent} (hu : UsbInv u) (h : Tolerated u e) :
    StoresInBounds u e := by
  cases e with
  | polling r =>
    by_cases hstate : u.status.state = .readDescriptor
    · exact (storesInBounds_iff hu hstate).mpr (h.1 hstate)
    · intro i hi
      rw [storeIndexes, if_neg hstate] at hi
      cases hi
  | _ => exact fun i hi => by cases hi

/-- A step has no defined outcome exactly when it stores beyond the array. -/
theorem usbStep_isSome_iff (hu : UsbInv u) (hav : AvailableConnected u) (e : UsbEvent) :
    (usbStep u e).isSome ↔ StoresInBounds u e := by
  constructor
  · intro hdef
    cases e with
    | polling r =>
      by_cases hstate : u.status.state = .readDescriptor
      · refine (storesInBounds_iff hu hstate).mpr (Nat.le_of_not_lt fun hlong => ?_)
        have hrun : u.status.state ≠ .running := hstate ▸ by decide
        have hnone := storeBytes_eq_none r.fifo hu.received hlong
        rw [usbStep, usbPolling, if_neg hrun, updateStateMachine, advance] at hdef
        simp [hstate, readDescriptor, hnone] at hdef
      · intro i hi
        rw [storeIndexes, if_neg hstate] at hi
        cases hi
    | _ => exact fun i hi => by cases hi
  · intro hstores
    obtain ⟨t, ht, -⟩ := usbStep_spec hu hav e hstores
    rw [ht]
    rfl

/-! ### Runs -/

/-- The enumeration is safe exactly in the runs in which a packet never has more bytes than are left
of the array and no over-current is read with a descriptor available. -/
theorem enumerationSafe_iff (es : List UsbEvent) :
    EnumerationSafe es ↔ Guarded usbStep Tolerated usbStart es := by
  have hinv : ∀ u e t, UsbInv u → AvailableConnected u → StoresInBounds u e →
      usbStep u e = some t → UsbInv t := by
    intro u e t hu hav hstores ht
    obtain ⟨t', ht', hinv, -⟩ := usbStep_spec hu hav e hstores
    exact Option.some.inj (ht'.symm.trans ht) ▸ hinv
  have hguard : ∀ u e, UsbInv u → AvailableConnected u → (Tolerated u e ↔
      StoresInBounds u e ∧ ∀ t, usbStep u e = some t → AvailableConnected t) := by
    intro u e hu hav
    constructor
    · intro htol
      obtain ⟨t, ht, -, hflags⟩ := usbStep_spec hu hav e (htol.storesInBounds hu)
      exact ⟨htol.storesInBounds hu, fun t' ht' =>
        Option.some.inj (ht.symm.trans ht') ▸ hflags.mpr htol⟩
    · rintro ⟨hstores, hkeep⟩
      obtain ⟨t, ht, -, hflags⟩ := usbStep_spec hu hav e hstores
      exact hflags.mp (hkeep t ht)
  rw [← guarded_and_always_iff hinv hguard usbStart_inv fun h => absurd h (by decide)]
  exact ⟨fun h => ⟨h.stores, h.available⟩, fun h => ⟨h.1, h.2⟩⟩

/-- A device is connected and its descriptor requested, up to the packet with it. -/
def enumeration : List UsbEvent :=
  let poll (now : UInt32) : UsbEvent := .polling ⟨now, now, true, false, 0, fun _ => 0, false⟩
  [.interrupt USB_DEVCONN_INT false 0, poll 60000000, poll 70000000, poll 90000000, poll 90000000,
    .interrupt 0 true 90000000, poll 90000000, .interrupt 0 true 90000000]

/-- The last call of `usb_polling` gets a packet of `n` bytes. -/
def packet (n : UInt32) (isOvercurrent : Bool) : UsbEvent :=
  .polling ⟨90000000, 90000000, true, false, n, fun _ => 18, isOvercurrent⟩

/-- Neither a packet of 64 bytes nor an over-current with the last packet is handled. -/
theorem enumeration_unsafe :
    ¬EnumerationSafe (enumeration ++ [packet 64 false]) ∧
      ¬EnumerationSafe (enumeration ++ [packet 18 true]) := by
  constructor
  · exact fun h => absurd h.stores (by decide)
  · intro h
    have hlast : (run usbStep usbStart (enumeration ++ [packet 18 true])).any (fun t =>
        t.status.descriptorAvailable = 1 ∧ t.status.connected = 0) := by decide
    obtain ⟨t, hrun, ht⟩ := (Option.any_eq_true _ _).mp hlast
    obtain ⟨havailable, hconnected⟩ := of_decide_eq_true ht
    have hflag := always_iff.mp h.available _ [] t (List.append_nil _).symm hrun havailable
    exact absurd (hconnected.symm.trans hflag) (by decide)

end PrplHypervisor.Drivers
