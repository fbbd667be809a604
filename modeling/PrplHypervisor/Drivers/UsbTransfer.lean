import PrplHypervisor.Drivers.Usb

/-! Transfers to the USB device (`pic32mz-usb.c`): `usb_send_data` fills `buffer_tx` and starts a
transfer, `usb_polling` sends its bytes, and an interrupt may end it.  Any VM may call at any time,
and `usb_send_data` goes on where it has found the device busy. -/

namespace PrplHypervisor.Drivers

open Arch Kernel Lib.Runs Lib.Words

/-- A call of `usb_send_data`.  `buffer` is what the guest's memory holds at the mapped address. -/
structure SendCall where
  caller : VcpuPtr
  buf : UInt32
  size : UInt32
  buffer : Nat → UInt8

/-- The bytes that the VM supplies. -/
def SendCall.bytes (c : SendCall) : List UInt8 := (List.range c.size.toNat).map c.buffer

/-- A call that has returned: the state of the transfer and `buffer_tx` before it and after it. -/
structure SendRecord where
  call : SendCall
  v0 : UInt32
  transferBefore : TransferState
  transferAfter : TransferState
  bufferBefore : Nat → UInt8
  bufferAfter : Nat → UInt8

/-- The data that `data_packet_sent` has written for a transfer, with the send that was accepted
last. -/
structure DataPacket where
  accepted : Option SendCall
  bytes : List UInt8

/-- The driver, with the last send that was issued while no transfer was going on, the calls of
`usb_send_data`, and the data packets.  The state of the transfer is that of `usb`. -/
structure UsbSystem where
  hv : Hv
  objects : Objects
  usb : Usb
  accepted : Option SendCall
  calls : List SendRecord
  packets : List DataPacket

/-- The bytes that `data_packet_sent` writes to the FIFO in `fuel` passes of its loop. -/
def dataPacketBytes (data : Nat → UInt8) (size : UInt32) : Nat → UInt32 → List UInt8
  | 0, _ => []
  | fuel + 1, sentSz =>
    if sentSz < size then data sentSz.toNat :: dataPacketBytes data size fuel (sentSz + 1) else []

/-- The data packet of a call of `usb_polling`, if it sends one. -/
def UsbSystem.polled (s : UsbSystem) : List DataPacket :=
  if s.usb.status.state = .running ∧ s.usb.transfer = .sending then
    [⟨s.accepted, dataPacketBytes s.objects.bufferTx 3 8 s.usb.sentSz⟩]
  else []

/-- An interrupt, with the pending ones and the counter, or a hypercall of a VM. -/
inductive TransferEvent
  | interrupt (interrupts : UInt32) (ep0if : Bool) (now : UInt32)
  | polling (caller : VcpuPtr) (r : UsbReadings)
  | sendData (c : SendCall)

/-- The registers and the objects when `c` is called. -/
def UsbSystem.calling (p : Platform) (s : UsbSystem) (c : SendCall) : Objects × Hv :=
  ({ s.objects with transfer := s.usb.transfer },
    hypercall p s.hv c.caller [(REG_A0, c.buf), (REG_A1, c.size)])

variable (p : Platform) (place : HvObject → UInt32)

/-- The system after `c` has returned with `r`. -/
def UsbSystem.returned (s : UsbSystem) (c : SendCall) (r : CallEffect) : UsbSystem :=
  { s with
    hv := r.hv
    objects := r.objects
    usb := { s.usb with transfer := r.objects.transfer }
    accepted := if s.usb.transfer = .idle then some c else s.accepted
    calls := s.calls ++ [{
      call := c
      v0 := moveFromPreviousGuestGPR p r.hv.cpu REG_V0
      transferBefore := s.usb.transfer
      transferAfter := r.objects.transfer
      bufferBefore := s.objects.bufferTx
      bufferAfter := r.objects.bufferTx }] }

def transferStep (s : UsbSystem) : TransferEvent → Option UsbSystem
  | .interrupt interrupts ep0if now =>
    some { s with usb := usbIntHandler interrupts ep0if now s.usb }
  | .polling caller r => (usbPolling r s.usb).map fun (v0, usb) => { s with
      hv := setGuestGPR p (hypercall p s.hv caller []) REG_V0 v0
      usb := usb
      packets := s.packets ++ s.polled }
  | .sendData c =>
    match usbSendDataCopy p place c.buffer (s.calling p c).1 (s.calling p c).2 with
    | .error _ => none
    | .ok r => some (s.returned p c r)

/-- The driver once `usb_start` has run, whatever `buffer_tx` holds. -/
def transferStart (power : Power) (vmconf : List VmConf) (o : Objects) : UsbSystem where
  hv := initializeMachines p power vmconf
  objects := o
  usb := usbStart
  accepted := none
  calls := []
  packets := []

/-! ### What the transfers are to be -/

/-- The call was refused: it returned `HCALL_USB_BUSY` and left the transfer as it was. -/
structure SendRecord.Refused (r : SendRecord) : Prop where
  v0 : r.v0 = HCALL_USB_BUSY
  transfer : r.transferAfter = r.transferBefore
  buffer : ∀ i < BUFFER_TX_SZ, r.bufferAfter i = r.bufferBefore i

/-- The calls that came during a transfer were refused, and what was sent is what the accepted sends
supplied. -/
structure UsbSystem.Atomic (s : UsbSystem) : Prop where
  refused : ∀ r ∈ s.calls, r.transferBefore ≠ .idle → r.Refused
  sent : ∀ k ∈ s.packets, ∃ c, k.accepted = some c ∧ k.bytes <+: c.bytes

/-- A send between the transfers, of as many bytes as the driver sends and as `buffer_tx` has room
for; or one that has no effect of its own: the transfer is started already, `memcpy` copies no bytes
of this size, and the size is returned for `HCALL_USB_BUSY`. -/
def SendFits (s : UsbSystem) : TransferEvent → Prop
  | .sendData c => s.usb.transfer = .idle ∧ 3 ≤ c.size.toNat ∧ c.size.toNat ≤ BUFFER_TX_SZ ∨
      s.usb.transfer = .start ∧ c.size = HCALL_USB_BUSY
  | _ => True

/-! ### A call of `usb_send_data` -/

variable {p place} {s : UsbSystem}

/-- What a call leaves, and what it returns, whether a transfer is going on or not. -/
theorem usbSendData_effect (o : Objects) (hv : Hv) (c : SendCall) :
    ∃ r, usbSendDataCopy p place c.buffer o
        (hypercall p hv c.caller [(REG_A0, c.buf), (REG_A1, c.size)]) = .ok r ∧
      moveFromPreviousGuestGPR p r.hv.cpu REG_V0 = c.size ∧
      r.objects = { o with
        bufferTx := memcpy (place .bufferTx)
          (windowAddress c.buf (hv.vcpus c.caller).vm.baseAddr) c.size c.buffer o.bufferTx
        transfer := .start } := by
  obtain ⟨hA0, hA1⟩ := hypercall_buffer p hv c.caller c.buf c.size
  have hexec := hypercall_executing p hv c.caller [(REG_A0, c.buf), (REG_A1, c.size)]
  have hsame := hypercall_same p hv c.caller [(REG_A0, c.buf), (REG_A1, c.size)]
  set called := hypercall p hv c.caller [(REG_A0, c.buf), (REG_A1, c.size)]
  obtain ⟨hv', hsend, hv0⟩ : ∃ hv', usbSendData p (o.transfer = .idle) called = .ok hv' ∧
      moveFromPreviousGuestGPR p hv'.cpu REG_V0 = c.size := by
    unfold usbSendData mapGuestBuffer
    rw [hA1]
    split_ifs <;> exact ⟨_, by simp only [setGuestGPR, hexec]; rfl, moveFrom_moveTo ..⟩
  refine ⟨{
    hv := hv'
    objects := { o with
      bufferTx := memcpy (place .bufferTx)
        (windowAddress c.buf (hv.vcpus c.caller).vm.baseAddr) c.size c.buffer o.bufferTx
      transfer := .start }
    copy := some ⟨.bufferTx, place .bufferTx,
      windowAddress c.buf (hv.vcpus c.caller).vm.baseAddr, c.size, c.size⟩
    started := true }, ?_, hv0, rfl⟩
  simp only [usbSendDataCopy, hsend, mappedAddress, hexec, hA0, hA1, hsame.vm c.caller]
  rfl

/-- The step of a call: it is always taken, and starts a transfer. -/
theorem sendData_step (p : Platform) (place : HvObject → UInt32) (s : UsbSystem) (c : SendCall) :
    ∃ t bufferTx, transferStep p place s (.sendData c) = some t ∧
      bufferTx = memcpy (place .bufferTx)
        (windowAddress c.buf (s.hv.vcpus c.caller).vm.baseAddr) c.size c.buffer
        s.objects.bufferTx ∧
      t.objects.bufferTx = bufferTx ∧ t.usb = { s.usb with transfer := .start } ∧
      t.accepted = (if s.usb.transfer = .idle then some c else s.accepted) ∧
      t.packets = s.packets ∧
      t.calls = s.calls ++ [⟨c, c.size, s.usb.transfer, .start, s.objects.bufferTx, bufferTx⟩] := by
  obtain ⟨r, hcall, hv0, hobjects⟩ := @usbSendData_effect p place (s.calling p c).1 s.hv c
  have hcalled : usbSendDataCopy p place c.buffer (s.calling p c).1 (s.calling p c).2 = .ok r :=
    hcall
  refine ⟨s.returned p c r, _, ?_, rfl, ?_, ?_, rfl, rfl, ?_⟩
  · simp only [transferStep]
    rw [hcalled]
  · rw [UsbSystem.returned, hobjects]
    rfl
  · rw [UsbSystem.returned, hobjects]
  · rw [UsbSystem.returned, hv0, hobjects]
    rfl

/-- `memcpy` takes a size that reads as `HCALL_USB_BUSY` for a negative number of bytes. -/
theorem memcpyCount_busy (dst src : UInt32) : memcpyCount dst src HCALL_USB_BUSY = 0 := by
  rw [memcpyCount, if_pos]
  exact ⟨hasBits_or.mpr (.inr (by decide)), by decide⟩

/-- A record of a call with what it does, refused or not. -/
theorem refused_iff (place : HvObject → UInt32) (src : UInt32) (c : SendCall)
    (transfer : TransferState) (buffer : Nat → UInt8) :
    SendRecord.Refused ⟨c, c.size, transfer, .start, buffer,
        memcpy (place .bufferTx) src c.size c.buffer buffer⟩ ↔
      transfer = .start ∧ c.size = HCALL_USB_BUSY := by
  constructor
  · exact fun h => ⟨h.transfer.symm, h.v0⟩
  · rintro ⟨htransfer, hsize⟩
    have hcount : memcpyCount (place .bufferTx) src c.size = 0 := hsize ▸ memcpyCount_busy _ _
    refine ⟨hsize, htransfer.symm, fun i _ => ?_⟩
    simp only [memcpy_none c.buffer buffer hcount]

/-! ### The device -/

variable {u t : Usb}

theorem endpoint0_transfer (h : u.transfer ≠ .waitTxInt) :
    (endpoint0 u).transfer = u.transfer ∧ (endpoint0 u).sentSz = u.sentSz := by
  unfold endpoint0
  split_ifs <;> exact ⟨rfl, rfl⟩

/-- An interrupt ends a transfer or leaves it as it is, while none waits for an interrupt. -/
theorem usbIntHandler_transfer (interrupts : UInt32) (ep0if : Bool) (now : UInt32)
    (h : u.transfer ≠ .waitTxInt) :
    ((usbIntHandler interrupts ep0if now u).transfer = u.transfer ∨
        (usbIntHandler interrupts ep0if now u).transfer = .idle) ∧
      (usbIntHandler interrupts ep0if now u).sentSz = u.sentSz := by
  unfold usbIntHandler
  extract_lets u₁ u₂ u₃
  have h₁ : u₁.transfer = u.transfer ∧ u₁.sentSz = u.sentSz := by
    unfold u₁
    split_ifs <;> exact ⟨rfl, rfl⟩
  have h₂ : (u₂.transfer = u.transfer ∨ u₂.transfer = .idle) ∧ u₂.sentSz = u.sentSz := by
    unfold u₂
    split_ifs
    · exact ⟨.inr rfl, h₁.2⟩
    · exact ⟨.inl h₁.1, h₁.2⟩
  have h₃ : (u₃.transfer = u.transfer ∨ u₃.transfer = .idle) ∧ u₃.sentSz = u.sentSz := by
    unfold u₃
    split_ifs
    · exact h₂
    · exact h₂
  have hwait : u₃.transfer ≠ .waitTxInt := by
    rcases h₃.1 with hsame | hidle
    · rwa [hsame]
    · rw [hidle]
      decide
  split_ifs
  · rw [(endpoint0_transfer hwait).1, (endpoint0_transfer hwait).2]
    exact h₃
  · exact h₃

/-- The state machine of the device has no part in the transfers. -/
theorem advance_transfer {r : UsbReadings} (h : advance r u = some t) :
    t.transfer = u.transfer ∧ t.sentSz = u.sentSz := by
  unfold advance at h
  split at h
  case h_7 =>
    obtain ⟨d, -, rfl⟩ := Option.map_eq_some_iff.mp h
    dsimp only
    split_ifs <;> exact ⟨rfl, rfl⟩
  all_goals
    obtain rfl := Option.some.inj h
    repeat split
    all_goals exact ⟨rfl, rfl⟩

theorem updateStateMachine_transfer {r : UsbReadings} (h : updateStateMachine r u = some t) :
    t.transfer = u.transfer ∧ t.sentSz = u.sentSz := by
  obtain ⟨v, hadvance, rfl⟩ := Option.map_eq_some_iff.mp h
  have hv := advance_transfer hadvance
  split_ifs
  · exact hv
  · exact hv

/-- A poll of the running device takes a transfer one step further, and the one that sends has sent
everything. -/
theorem updateTransferStateMachine_transfer (r : UsbReadings) (hwait : u.transfer ≠ .waitTxInt)
    (hsent : u.transfer = .sending → u.sentSz = 0) :
    (updateTransferStateMachine r u).transfer ≠ .waitTxInt ∧
      ((updateTransferStateMachine r u).transfer = .sending →
        u.transfer = .start ∧ (updateTransferStateMachine r u).sentSz = 0) ∧
      (updateTransferStateMachine r u).transfer ≠ .start := by
  cases htransfer : u.transfer with
  | idle | done => simp [updateTransferStateMachine, htransfer]
  | start => simp [updateTransferStateMachine, htransfer]
  | sending =>
    have hdone : (2 : UInt32) < dataPacketSent 3 8 0 := by decide
    simp [updateTransferStateMachine, htransfer, hsent htransfer, hdone]
  | waitTxInt => exact absurd htransfer hwait

/-- The three bytes of a transfer. -/
theorem dataPacketBytes_eq (data : Nat → UInt8) :
    dataPacketBytes data 3 8 0 = (List.range 3).map data := rfl

/-! ### Runs -/

/-- While a transfer is to be sent, `buffer_tx` has what the accepted send supplied. -/
structure TransferInv (s : UsbSystem) : Prop where
  atomic : s.Atomic
  noWait : s.usb.transfer ≠ .waitTxInt
  sentSz : s.usb.transfer = .sending → s.usb.sentSz = 0
  loaded : s.usb.transfer = .start ∨ s.usb.transfer = .sending → ∃ c, s.accepted = some c ∧
    3 ≤ c.size.toNat ∧ ∀ i < c.size.toNat, s.objects.bufferTx i = c.buffer i

theorem transferStart_inv (power : Power) (vmconf : List VmConf) (o : Objects) :
    TransferInv (transferStart p power vmconf o) where
  atomic := ⟨fun _ hr => absurd hr List.not_mem_nil, fun _ hk => absurd hk List.not_mem_nil⟩
  noWait := show TransferState.idle ≠ .waitTxInt by decide
  sentSz h := absurd (show TransferState.idle = .sending from h) (by decide)
  loaded h := absurd (show TransferState.idle = .start ∨ TransferState.idle = .sending from h)
    (by decide)

/-- What is sent while `buffer_tx` is loaded comes from the accepted send. -/
theorem TransferInv.polled (h : TransferInv s) :
    ∀ k ∈ s.polled, ∃ c, k.accepted = some c ∧ k.bytes <+: c.bytes := by
  intro k hk
  unfold UsbSystem.polled at hk
  split_ifs at hk with hsending
  · obtain ⟨c, haccepted, hsize, hbytes⟩ := h.loaded (.inr hsending.2)
    obtain rfl := List.mem_singleton.mp hk
    refine ⟨c, haccepted, ?_⟩
    have htake : (List.range 3).map s.objects.bufferTx = c.bytes.take 3 := by
      rw [SendCall.bytes, ← List.map_take, List.take_range, Nat.min_eq_left hsize]
      refine List.map_congr_left fun i hi => hbytes i ?_
      have := List.mem_range.mp hi
      omega
    rw [h.sentSz hsending.2, dataPacketBytes_eq, htake]
    exact List.take_prefix 3 c.bytes
  · exact absurd hk List.not_mem_nil

/-- An interrupt keeps the invariant. -/
theorem TransferInv.interrupt (h : TransferInv s) (interrupts : UInt32) (ep0if : Bool)
    (now : UInt32) : TransferInv { s with usb := usbIntHandler interrupts ep0if now s.usb } := by
  obtain ⟨htransfer, hsent⟩ := usbIntHandler_transfer interrupts ep0if now h.noWait
  rcases htransfer with hsame | hidle
  · refine ⟨⟨h.atomic.refused, h.atomic.sent⟩, ?_, ?_, ?_⟩
    · exact hsame ▸ h.noWait
    · exact fun hs => hsent.trans (h.sentSz (hsame ▸ hs))
    · exact fun hs => h.loaded (hsame ▸ hs)
  · refine ⟨⟨h.atomic.refused, h.atomic.sent⟩, ?_, ?_, ?_⟩
    · simp [hidle]
    · simp [hidle]
    · simp [hidle]

/-- What a poll does to the transfer, whether the device is running or not. -/
theorem usbPolling_transfer {r : UsbReadings} {v0 : UInt32} (h : usbPolling r u = some (v0, t))
    (hwait : u.transfer ≠ .waitTxInt) (hsent : u.transfer = .sending → u.sentSz = 0) :
    t.transfer ≠ .waitTxInt ∧ (t.transfer = .sending → t.sentSz = 0) ∧
      (t.transfer = .start ∨ t.transfer = .sending →
        u.transfer = .start ∨ u.transfer = .sending) := by
  unfold usbPolling at h
  split_ifs at h with hrunning
  · obtain ⟨-, rfl⟩ := Prod.mk.inj (Option.some.inj h)
    obtain ⟨hwait', hsending, hstart⟩ := updateTransferStateMachine_transfer r hwait hsent
    refine ⟨hwait', fun hs => (hsending hs).2, ?_⟩
    rintro (hs | hs)
    · exact absurd hs hstart
    · exact .inl (hsending hs).1
  · obtain ⟨v, hv, hret⟩ := Option.bind_eq_some_iff.mp h
    obtain ⟨-, rfl⟩ := Prod.mk.inj (Option.some.inj hret)
    obtain ⟨htransfer, hsz⟩ := updateStateMachine_transfer hv
    rw [htransfer, hsz]
    exact ⟨hwait, hsent, id⟩

/-- A send that fits is accepted, or it is refused. -/
theorem TransferInv.sendData (h : TransferInv s) {c : SendCall} {t : UsbSystem}
    (hfits : SendFits s (.sendData c)) (hstep : transferStep p place s (.sendData c) = some t) :
    TransferInv t := by
  obtain ⟨t', bufferTx, hstep', hcopy, hbuffer, husb, haccepted, hpackets, hcalls⟩ :=
    sendData_step p place s c
  obtain rfl := Option.some.inj (hstep.symm.trans hstep')
  have hstart : t.usb.transfer = .start := by rw [husb]
  refine ⟨⟨?_, hpackets ▸ h.atomic.sent⟩, by rw [hstart]; decide,
    fun hs => absurd (hstart.symm.trans hs) (by decide), fun _ => ?_⟩
  · rw [hcalls, List.forall_mem_append, List.forall_mem_singleton]
    refine ⟨h.atomic.refused, fun hbusy => ?_⟩
    rw [hcopy]
    exact (refused_iff _ _ _ _ _).mpr (hfits.resolve_left fun hidle => hbusy hidle.1)
  · rcases hfits with ⟨hidle, hmin, hmax⟩ | ⟨hbusy, hsize⟩
    · -- the accepted send has been copied to `buffer_tx`
      refine ⟨c, by rw [haccepted, if_pos hidle], hmin, fun i hi => ?_⟩
      have hlt : c.size.toNat < 2 ^ 31 := Nat.lt_of_le_of_lt hmax (by decide)
      rw [hbuffer, hcopy, memcpy_apply, memcpyCount_of_lt _ _ hlt, if_pos hi]
    · -- nothing has been copied over what the accepted send supplied
      obtain ⟨a, ha, hmin, hbytes⟩ := h.loaded (.inl hbusy)
      have hcount : memcpyCount (place .bufferTx)
          (windowAddress c.buf (s.hv.vcpus c.caller).vm.baseAddr) c.size = 0 := by
        rw [hsize]
        exact memcpyCount_busy _ _
      refine ⟨a, ?_, hmin, fun i hi => ?_⟩
      · rw [haccepted, if_neg (by rw [hbusy]; decide), ha]
      · rw [hbuffer, hcopy, memcpy_none _ _ hcount]
        exact hbytes i hi

theorem transferStep_inv (h : TransferInv s) {e : TransferEvent} {t : UsbSystem}
    (hfits : SendFits s e) (hstep : transferStep p place s e = some t) : TransferInv t := by
  cases e with
  | interrupt interrupts ep0if now =>
    obtain rfl := Option.some.inj hstep
    exact h.interrupt interrupts ep0if now
  | polling caller r =>
    obtain ⟨⟨v0, usb⟩, hpolling, rfl⟩ := Option.map_eq_some_iff.mp hstep
    obtain ⟨hwait, hsent, hloaded⟩ := usbPolling_transfer hpolling h.noWait h.sentSz
    refine ⟨⟨h.atomic.refused, ?_⟩, hwait, hsent, fun hs => h.loaded (hloaded hs)⟩
    rw [List.forall_mem_append]
    exact ⟨h.atomic.sent, h.polled⟩
  | sendData c => exact h.sendData hfits hstep

/-- In a run whose sends all fit, the sends are atomic in every state. -/
theorem transfers_atomic (p : Platform) (place : HvObject → UInt32) (power : Power)
    (vmconf : List VmConf) (o : Objects) (es : List TransferEvent)
    (h : Guarded (transferStep p place) SendFits (transferStart p power vmconf o) es) :
    Always (transferStep p place) UsbSystem.Atomic (transferStart p power vmconf o) es :=
  (always_of_guarded (fun _ _ _ hs hfits hstep => transferStep_inv hs hfits hstep)
    (transferStart_inv power vmconf o) h).mono fun _ hs => hs.atomic

/-- Three bytes, from a VM that finds the device idle. -/
def threeBytes (caller : VcpuPtr) (byte : UInt8) : TransferEvent :=
  .sendData ⟨caller, 0x80000100, 3, fun _ => byte⟩

instance SendFits.decidable (s : UsbSystem) (e : TransferEvent) : Decidable (SendFits s e) :=
  match e with
  | .sendData _ => inferInstanceAs (Decidable (_ ∧ _ ∧ _ ∨ _ ∧ _))
  | .interrupt .. | .polling .. => isTrue trivial

/-- The device is enumerated, and two VMs send to it, one after the other. -/
def twoTransfers : List TransferEvent :=
  let poll (caller : VcpuPtr) (now rxcnt : UInt32) : TransferEvent :=
    .polling caller ⟨now, now, true, false, rxcnt, fun _ => 18, false⟩
  [.interrupt USB_DEVCONN_INT false 0, poll 0 60000000 0, poll 0 70000000 0, poll 0 90000000 0,
    poll 0 90000000 0, .interrupt 0 true 90000000, poll 0 90000000 0, .interrupt 0 true 90000000,
    poll 0 90000000 18, threeBytes 0 7, poll 0 90000000 0, poll 1 90000000 0,
    .interrupt 0 true 90000000, poll 1 90000000 0, threeBytes 1 9, poll 0 90000000 0,
    poll 0 90000000 0]

theorem transfers_atomic_two :
    Always (transferStep .pic32mz fun _ => 0x80001000) UsbSystem.Atomic
        (transferStart .pic32mz .cleared pingPong .cleared) twoTransfers ∧
      (run (transferStep .pic32mz fun _ => 0x80001000)
        (transferStart .pic32mz .cleared pingPong .cleared) twoTransfers).map
          (fun s => s.packets.map DataPacket.bytes) = some [[7, 7, 7], [9, 9, 9]] :=
  ⟨transfers_atomic .pic32mz (fun _ => 0x80001000) .cleared pingPong .cleared twoTransfers
    (by decide +kernel), by decide +kernel⟩

/-- A second VM that sends during the transfer of the first is not refused. -/
theorem busy_send_not_refused :
    ¬∀ (p : Platform) (place : HvObject → UInt32) (power : Power) (vmconf : List VmConf)
      (o : Objects) (es : List TransferEvent),
      Always (transferStep p place) UsbSystem.Atomic (transferStart p power vmconf o) es := by
  intro hall
  have h := hall .pic32mz (fun _ => 0x80001000) .cleared pingPong .cleared
    [threeBytes 0 7, threeBytes 1 9]
  -- the first send starts a transfer, and the second starts another
  obtain ⟨t, _, ht, -, -, husb, -, -, -⟩ := sendData_step .pic32mz (fun _ => 0x80001000)
    (transferStart .pic32mz .cleared pingPong .cleared) ⟨0, 0x80000100, 3, fun _ => 7⟩
  obtain ⟨u, _, hu, -, -, -, -, -, hcalls⟩ := sendData_step .pic32mz (fun _ => 0x80001000) t
    ⟨1, 0x80000100, 3, fun _ => 9⟩
  have hatomic : u.Atomic := always_iff.mp h _ [] u (List.append_nil _).symm
    (run_cons_of_step ht (run_cons_of_step hu rfl))
  have hrefused := hatomic.refused _
    (hcalls.symm ▸ List.mem_append_right t.calls (List.mem_singleton_self _))
    (by rw [husb]; exact TransferState.noConfusion)
  exact absurd (show (3 : UInt32) = HCALL_USB_BUSY from hrefused.v0) (by decide)

end PrplHypervisor.Drivers
