import PrplHypervisor.Drivers.Hypercalls
import PrplHypervisor.Kernel.Machines

/-! What a hypercall may change.  Of the processor these are the registers V0 and A0 of the caller,
the TLB and the virtual interrupts; of the VCPUs, their rings, virtual interrupts and urgency, and
the state of the caller.  Every handler returns and stays within this frame. -/

namespace PrplHypervisor.Drivers

open Arch Kernel Lib.Partial

/-- A change of the processor to registers V0 and A0 of the caller, the TLB and the virtual
interrupts. -/
structure CpuFrame (before after : Cpu) : Prop where
  guestCp0 : after.guestCp0 = before.guestCp0
  epc : after.epc = before.epc
  srsctl : after.srsctl = before.srsctl
  shadowGpr : ∀ set reg, (set = getPreviousShadowSet before → reg ≠ REG_V0 ∧ reg ≠ REG_A0) →
    after.shadowGpr set reg = before.shadowGpr set reg
  gprFrame : ∀ reg, reg ≠ REG_V0 → reg ≠ REG_A0 → after.gprFrame reg = before.gprFrame reg

/-- `after` is `before` with what a hypercall of `caller` may change. -/
structure CallFrame (caller : VcpuPtr) (before after : Hv) : Prop where
  readyList : after.readyList = before.readyList
  executing : after.executing = before.executing
  tickCount : after.tickCount = before.tickCount
  vcpu : ∀ v, ∃ critical state guestclt2 messages, after.vcpus v = { before.vcpus v with
    critical := critical, state := state, guestclt2 := guestclt2, messages := messages }
  state : ∀ v, v ≠ caller → (after.vcpus v).state = (before.vcpus v).state
  cpu : CpuFrame before.cpu after.cpu

variable {p : Platform} {caller : VcpuPtr} {hv hv' : Hv} {n : Nat}

theorem CpuFrame.trans {a b c : Cpu} (h : CpuFrame a b) (h' : CpuFrame b c) : CpuFrame a c where
  guestCp0 := h'.guestCp0.trans h.guestCp0
  epc := h'.epc.trans h.epc
  srsctl := h'.srsctl.trans h.srsctl
  shadowGpr := by
    intro set reg hreg
    have hset : getPreviousShadowSet b = getPreviousShadowSet a := by
      rw [getPreviousShadowSet, h.srsctl]
      rfl
    rw [h'.shadowGpr set reg (hset ▸ hreg), h.shadowGpr set reg hreg]
  gprFrame := fun reg h0 h4 => (h'.gprFrame reg h0 h4).trans (h.gprFrame reg h0 h4)

theorem CpuFrame.refl (cpu : Cpu) : CpuFrame cpu cpu :=
  ⟨rfl, rfl, rfl, fun _ _ _ => rfl, fun _ _ _ => rfl⟩

namespace CallFrame

theorem trans {hv'' : Hv} (h : CallFrame caller hv hv') (h' : CallFrame caller hv' hv'') :
    CallFrame caller hv hv'' where
  readyList := h'.readyList.trans h.readyList
  executing := h'.executing.trans h.executing
  tickCount := h'.tickCount.trans h.tickCount
  vcpu := by
    intro v
    obtain ⟨_, _, _, _, heq⟩ := h.vcpu v
    obtain ⟨critical, state, guestclt2, messages, heq'⟩ := h'.vcpu v
    exact ⟨critical, state, guestclt2, messages, by rw [heq', heq]⟩
  state := fun v hv => (h'.state v hv).trans (h.state v hv)
  cpu := h.cpu.trans h'.cpu

theorem setCpu {cpu : Cpu} (h : CpuFrame hv.cpu cpu) : CallFrame caller hv { hv with cpu := cpu } :=
  ⟨rfl, rfl, rfl, fun _ => ⟨_, _, _, _, rfl⟩, fun _ _ => rfl, h⟩

theorem refl (caller : VcpuPtr) (hv : Hv) : CallFrame caller hv hv := setCpu (CpuFrame.refl hv.cpu)

/-- A reply in V0 or A0. -/
theorem setGuestGPR (p : Platform) (caller : VcpuPtr) (hv : Hv) {reg : Nat}
    (hreg : reg = REG_V0 ∨ reg = REG_A0) (value : UInt32) :
    CallFrame caller hv (setGuestGPR p hv reg value) := by
  have hother : ∀ r, r ≠ REG_V0 → r ≠ REG_A0 → r ≠ reg := by
    rintro r h0 h4 rfl
    rcases hreg with heq | heq
    · exact h0 heq
    · exact h4 heq
  apply setCpu
  cases p with
  | pic32mz =>
    refine ⟨rfl, rfl, rfl, fun set r hr => ?_, fun _ _ _ => rfl⟩
    simp only [moveToPreviousGuestGPR]
    by_cases hset : set = getPreviousShadowSet hv.cpu
    · obtain ⟨h0, h4⟩ := hr hset
      rw [hset, Function.update_self, Function.update_of_ne (hother r h0 h4)]
    · rw [Function.update_of_ne hset]
  | baikalT1 =>
    exact ⟨rfl, rfl, rfl, fun _ _ _ => rfl,
      fun r h0 h4 => Function.update_of_ne (hother r h0 h4) _ _⟩

theorem tlbCreateEntry (caller : VcpuPtr) (hv : Hv) (address baseaddr size useCache : UInt32) :
    CallFrame caller hv { hv with
      cpu := (tlbCreateEntry hv.cpu address baseaddr size MAPPED_INDEX useCache).2 } :=
  setCpu ⟨rfl, rfl, rfl, fun _ _ _ => rfl, fun _ _ _ => rfl⟩

theorem setGuestCTL2 (caller : VcpuPtr) (hv : Hv) (guestclt2 : UInt32) :
    CallFrame caller hv { hv with cpu := setGuestCTL2 hv.cpu guestclt2 } :=
  setCpu ⟨rfl, rfl, rfl, fun _ _ _ => rfl, fun _ _ _ => rfl⟩

/-- A VCPU's ring and virtual interrupts. -/
theorem setVcpu (caller : VcpuPtr) (hv : Hv) (v : VcpuPtr) (guestclt2 : UInt32)
    (messages : MessageBuffer) :
    CallFrame caller hv (hv.setVcpu v { hv.vcpus v with
      guestclt2 := guestclt2, messages := messages }) := by
  refine ⟨rfl, rfl, rfl, fun w => ?_, fun w _ => ?_, CpuFrame.refl hv.cpu⟩
  · rw [Hv.setVcpu_apply]
    split_ifs with hw
    · exact ⟨_, _, _, _, by rw [hw]⟩
    · exact ⟨_, _, _, _, rfl⟩
  · rw [Hv.setVcpu_apply]
    split_ifs with hw
    · rw [hw]
    · rfl

theorem fastInterruptDelivery (caller : VcpuPtr) (hv : Hv) (target : VcpuPtr) :
    CallFrame caller hv (fastInterruptDelivery hv target) := by
  have hvcpu := fastInterruptDelivery_vcpu hv target
  refine ⟨fastInterruptDelivery_readyList hv target, fastInterruptDelivery_executing hv target, ?_,
    fun v => ?_, fun v _ => ?_, ?_⟩
  · unfold Kernel.fastInterruptDelivery
    split_ifs <;> rfl
  · obtain ⟨critical, heq⟩ := hvcpu v
    exact ⟨critical, _, _, _, heq⟩
  · obtain ⟨critical, heq⟩ := hvcpu v
    rw [heq]
  · rw [fastInterruptDelivery_cpu]
    exact CpuFrame.refl hv.cpu

theorem setState (hv : Hv) (caller : VcpuPtr) (state : VcpuState) :
    CallFrame caller hv (setState hv caller state) := by
  refine ⟨rfl, rfl, rfl, fun v => ?_, fun v hne => ?_, CpuFrame.refl hv.cpu⟩
  · obtain ⟨s, heq⟩ := setState_vcpu hv caller v state
    exact ⟨_, s, _, _, heq⟩
  · rw [Kernel.setState, Hv.setVcpu_of_ne hv _ hne]

end CallFrame

/-! ### Handlers that map a buffer -/

/-- The call returns and stays within the frame of its caller. -/
def Returns (caller : VcpuPtr) (hv : Hv) (result : Except Fault Hv) : Prop :=
  ∃ hv', result = .ok hv' ∧ CallFrame caller hv hv'

theorem mapGuestBuffer_returns (hexec : hv.executing = some caller)
    (address size useCache : UInt32) :
    Returns caller hv (mapGuestBuffer hv address size useCache) := by
  refine ⟨_, ?_, CallFrame.tlbCreateEntry caller hv address (hv.vcpus caller).vm.baseAddr size
    useCache⟩
  simp only [mapGuestBuffer, hexec]

theorem Returns.bind {result : Except Fault Hv} {f : Hv → Except Fault Hv}
    (h : Returns caller hv result)
    (hf : ∀ hv', CallFrame caller hv hv' → Returns caller hv' (f hv')) :
    Returns caller hv (result >>= f) := by
  obtain ⟨hv₁, rfl, hframe⟩ := h
  obtain ⟨hv₂, hok, hframe'⟩ := hf hv₁ hframe
  exact ⟨hv₂, hok, hframe.trans hframe'⟩

theorem reply_returns (p : Platform) (caller : VcpuPtr) (hv : Hv) (value : UInt32) :
    Returns caller hv (.ok (setGuestGPR p hv REG_V0 value)) :=
  ⟨_, rfl, CallFrame.setGuestGPR p caller hv (Or.inl rfl) value⟩

/-- A buffer is mapped and V0 is set. -/
theorem buffer_reply_returns (p : Platform) (hexec : hv.executing = some caller)
    (address size useCache value : UInt32) :
    Returns caller hv (do
      let hv ← mapGuestBuffer hv address size useCache
      return setGuestGPR p hv REG_V0 value) :=
  (mapGuestBuffer_returns hexec address size useCache).bind
    fun hv' _ => reply_returns p caller hv' value

theorem uartSend_returns (hexec : hv.executing = some caller) (sent : UInt32) :
    Returns caller hv (uartSend p sent hv) := by
  refine (mapGuestBuffer_returns hexec _ _ _).bind fun hv₁ hframe => ?_
  have hexec₁ : hv₁.executing = some caller := hframe.executing.trans hexec
  refine ⟨_, rfl, ?_⟩
  cases p with
  | baikalT1 => exact CallFrame.setGuestGPR _ caller hv₁ (Or.inl rfl) _
  | pic32mz =>
    simp only [hexec₁]
    split_ifs
    · exact (CallFrame.setState hv₁ caller .blocked).trans
        (CallFrame.setGuestGPR _ caller _ (Or.inl rfl) _)
    · exact CallFrame.setGuestGPR _ caller hv₁ (Or.inl rfl) _

theorem usbSendData_returns (hexec : hv.executing = some caller) (idle : Bool) :
    Returns caller hv (usbSendData p idle hv) := by
  cases idle with
  | true => exact buffer_reply_returns p hexec _ _ _ _
  | false =>
    have hbusy : CallFrame caller hv (setGuestGPR p hv REG_V0 HCALL_USB_BUSY) :=
      CallFrame.setGuestGPR p caller hv (Or.inl rfl) HCALL_USB_BUSY
    obtain ⟨hv', hok, hframe⟩ := buffer_reply_returns p (hbusy.executing.trans hexec)
      (moveFromPreviousGuestGPR p hv.cpu REG_A0)
        (moveFromPreviousGuestGPR p hv.cpu REG_A1) CACHEABLE
      (moveFromPreviousGuestGPR p hv.cpu REG_A1)
    exact ⟨hv', hok, hbusy.trans hframe⟩

theorem intervmSendMsg_returns (hready : Ready hv n) (hexec : hv.executing = some caller)
    (buffer : Nat → UInt8) :
    Returns caller hv (Prod.snd <$> intervmSendMsg p buffer hv) := by
  obtain ⟨r, hfind, -⟩ := getVcpuFromId_lt hready (moveFromPreviousGuestGPR p hv.cpu REG_A0)
  have hreply : ∀ hv₁ value, CallFrame caller hv hv₁ →
      CallFrame caller hv (setGuestGPR p hv₁ REG_V0 value) :=
    fun hv₁ value h => h.trans (CallFrame.setGuestGPR p caller hv₁ (Or.inl rfl) value)
  by_cases hbig : moveFromPreviousGuestGPR p hv.cpu REG_A2 > MESSAGE_SZ
  · simp only [intervmSendMsg, if_pos hbig]
    exact ⟨_, rfl, hreply hv _ (CallFrame.refl caller hv)⟩
  cases r with
  | none =>
    simp only [intervmSendMsg, if_neg hbig, hfind, Bind.bind, Except.bind]
    exact ⟨_, rfl, hreply hv _ (CallFrame.refl caller hv)⟩
  | some v =>
    by_cases hinit : (hv.vcpus v).init ≠ 0
    · simp only [intervmSendMsg, if_neg hbig, hfind, Bind.bind, Except.bind, if_pos hinit]
      exact ⟨_, rfl, hreply hv _ (CallFrame.refl caller hv)⟩
    by_cases hfull : (hv.vcpus v).messages.numMessages = MESSAGELIST_SZ
    · simp only [intervmSendMsg, if_neg hbig, hfind, Bind.bind, Except.bind, if_neg hinit,
        if_pos hfull]
      exact ⟨_, rfl, hreply _ _ (CallFrame.setVcpu caller hv v _ (hv.vcpus v).messages)⟩
    · simp only [intervmSendMsg, if_neg hbig, hfind, Bind.bind, Except.bind, if_neg hinit,
        if_neg hfull, hexec]
      rw [← hexec]
      refine ⟨_, rfl, ?_⟩
      refine CallFrame.trans ?_ (CallFrame.fastInterruptDelivery caller _ v)
      refine hreply _ _ (CallFrame.trans ?_ (CallFrame.setVcpu caller _ v _ _))
      exact CallFrame.tlbCreateEntry caller hv _ _ _ _

theorem intervmRecvMsg_returns (hexec : hv.executing = some caller) :
    Returns caller hv (Prod.snd <$> intervmRecvMsg p hv) := by
  by_cases hempty : (hv.vcpus caller).messages.numMessages = 0
  · simp only [intervmRecvMsg, hexec, if_pos hempty]
    exact reply_returns p caller hv _
  · simp only [intervmRecvMsg, hexec, if_neg hempty]
    rw [← hexec]
    refine ⟨_, rfl, ?_⟩
    refine CallFrame.trans ?_ (CallFrame.setVcpu caller _ caller _ _)
    refine CallFrame.trans ?_ (CallFrame.setGuestCTL2 caller _ _)
    refine CallFrame.trans ?_ (CallFrame.setGuestGPR p caller _ (Or.inr rfl) _)
    refine CallFrame.trans ?_ (CallFrame.setGuestGPR p caller _ (Or.inl rfl) _)
    exact CallFrame.tlbCreateEntry caller hv _ _ _ _

theorem MappingCall.returns (hready : Ready hv n) (hexec : hv.executing = some caller)
    (call : MappingCall) : Returns caller hv (call.handler p hv) := by
  cases call with
  | intervmSendMsg buffer => exact intervmSendMsg_returns hready hexec buffer
  | intervmRecvMsg => exact intervmRecvMsg_returns hexec
  | uartSend sent => exact uartSend_returns hexec sent
  | sendFrame => exact buffer_reply_returns p hexec _ _ _ _
  | receiveFrame framesz => exact buffer_reply_returns p hexec _ _ _ _
  | enGetMac => exact mapGuestBuffer_returns hexec _ _ _
  | usbSendData idle => exact usbSendData_returns hexec idle
  | getDescriptor => exact buffer_reply_returns p hexec _ _ _ _
  | flashRead ret => exact buffer_reply_returns p hexec _ _ _ _
  | flashWrite ret => exact buffer_reply_returns p hexec _ _ _ _
  | performanceCounterStop => exact buffer_reply_returns p hexec _ _ _ _

/-! ### The other handlers -/

theorem getVmId_returns (hexec : hv.executing = some caller) :
    Returns caller hv (getVmId p hv) := by
  simp only [getVmId, hexec]
  exact reply_returns p caller hv _

theorem guestIsUp_returns (p : Platform) (caller : VcpuPtr) (hready : Ready hv n) :
    Returns caller hv (guestIsUp p hv) := by
  obtain ⟨r, hfind, -⟩ := getVcpuFromId_lt hready (moveFromPreviousGuestGPR p hv.cpu REG_A0)
  cases r with
  | none =>
    simp only [guestIsUp, hfind, Bind.bind, Except.bind]
    exact reply_returns p caller hv _
  | some v =>
    simp only [guestIsUp, hfind, Bind.bind, Except.bind]
    exact reply_returns p caller hv _

theorem readAddress_returns {vmconfP : List VmConf} {conf : VmConf} (caller : VcpuPtr)
    (hconf : callerConf vmconfP hv = .ok conf) (word : UInt32 → UInt32) :
    Returns caller hv (Prod.snd <$> readAddress p vmconfP word hv) := by
  simp only [readAddress, hconf, Bind.bind, Except.bind]
  split_ifs
  · exact reply_returns p caller hv _
  · exact ⟨hv, rfl, CallFrame.refl caller hv⟩

theorem writeAddress_returns {vmconfP : List VmConf} {conf : VmConf} (caller : VcpuPtr)
    (hconf : callerConf vmconfP hv = .ok conf) :
    Returns caller hv (Prod.snd <$> writeAddress p vmconfP hv) := by
  simp only [writeAddress, hconf, Bind.bind, Except.bind]
  split_ifs
  · exact reply_returns p caller hv _
  · exact reply_returns p caller hv _

theorem reenableLoop_callFrame (caller : VcpuPtr) (interrupt : UInt32) (s : Redirect)
    (l : List InterruptMapping) : CallFrame caller s.hv (reenableLoop interrupt s l).hv := by
  induction l with
  | nil => exact CallFrame.setGuestGPR .pic32mz caller s.hv (Or.inl rfl) 1
  | cons m l ih =>
    unfold reenableLoop
    split_ifs
    · exact (CallFrame.setVcpu caller s.hv m.vcpu _ _).trans
        (CallFrame.setGuestGPR .pic32mz caller _ (Or.inl rfl) 0)
    · exact ih
    · exact ih

/-- Every hypercall returns and stays within the frame of its caller. -/
theorem Hypercall.returns {s : Virtual} {vmconfP : List VmConf} (hready : Ready s.hv vmconfP.length)
    (halloc : AllocationsSucceed vmconfP.length) (hexec : s.hv.executing = some caller)
    (hcaller : caller < vmconfP.length) (answers : Answers) (h : Hypercall) :
    ∃ t, h.handler p vmconfP answers s = .ok t ∧ CallFrame caller s.hv t.hv := by
  have hlift : ∀ {result : Except Fault Hv}, Returns caller s.hv result →
      ∃ t, s.setHv <$> result = .ok t ∧ CallFrame caller s.hv t.hv := by
    rintro _ ⟨hv', rfl, hframe⟩
    exact ⟨s.setHv hv', rfl, hframe⟩
  have hlift₂ : ∀ {α : Type} {result : Except Fault (α × Hv)},
      Returns caller s.hv (Prod.snd <$> result) →
      ∃ t, (fun r => s.setHv r.2) <$> result = .ok t ∧ CallFrame caller s.hv t.hv := by
    rintro α result ⟨hv', hok, hframe⟩
    obtain ⟨r, rfl, rfl⟩ := map_ok hok
    exact ⟨s.setHv r.2, rfl, hframe⟩
  have hconf := callerConf_eq halloc hcaller hexec (hready.ids caller hcaller)
  have hmapping : ∀ call : MappingCall, Returns caller s.hv (call.handler p s.hv) :=
    MappingCall.returns hready hexec
  cases h with
  | getVmId => exact hlift (getVmId_returns hexec)
  | guestIsUp => exact hlift (guestIsUp_returns p caller hready)
  | writeAddress => exact hlift₂ (writeAddress_returns caller hconf)
  | readAddress => exact hlift₂ (readAddress_returns caller hconf answers.word)
  | reenableInterrupt => exact ⟨_, rfl, reenableLoop_callFrame caller _ s.redirect _⟩
  | performanceCounterStart => exact hlift (reply_returns p caller s.hv 0)
  | enWatchdog => exact hlift (reply_returns p caller s.hv answers.isUp)
  | usbPolling => exact hlift (reply_returns p caller s.hv answers.descriptorAvailable)
  | intervmSendMsg => exact hlift (hmapping _)
  | intervmRecvMsg => exact hlift (hmapping _)
  | flashRead => exact hlift (hmapping _)
  | flashWrite => exact hlift (hmapping _)
  | performanceCounterStop => exact hlift (hmapping _)
  | enGetMac => exact hlift (hmapping _)
  | sendFrame => exact hlift (hmapping _)
  | receiveFrame => exact hlift (hmapping _)
  | getDescriptor => exact hlift (hmapping _)
  | usbSendData => exact hlift (hmapping _)
  | uartSend => exact hlift (hmapping _)

/-! ### Calls while no VCPU executes -/

theorem mapGuestBuffer_none (hnone : hv.executing = none) (address size useCache : UInt32) :
    mapGuestBuffer hv address size useCache = .error .nullPointer := by
  simp only [mapGuestBuffer, hnone]

/-- Without a VCPU in execution a handler that maps a buffer fails, unless a send is refused
before. -/
theorem MappingCall.executing_none (hnone : hv.executing = none) {call : MappingCall}
    (hok : call.handler p hv = .ok hv') : hv'.executing = none := by
  have hmap : ∀ {address size useCache value : UInt32}, (do
      let hv ← mapGuestBuffer hv address size useCache
      return Drivers.setGuestGPR p hv REG_V0 value) ≠ Except.ok hv' := by
    intro address size useCache value hok
    rw [mapGuestBuffer_none hnone] at hok
    cases hok
  cases call with
  | sendFrame => exact absurd hok hmap
  | receiveFrame framesz => exact absurd hok hmap
  | getDescriptor => exact absurd hok hmap
  | flashRead ret => exact absurd hok hmap
  | flashWrite ret => exact absurd hok hmap
  | performanceCounterStop => exact absurd hok hmap
  | enGetMac =>
    simp only [handler, enGetMacCall, mapGuestBuffer_none hnone] at hok
    cases hok
  | uartSend sent =>
    simp only [handler, Drivers.uartSend, mapGuestBuffer_none hnone, Bind.bind, Except.bind] at hok
    cases hok
  | usbSendData idle =>
    have hbusy : (Drivers.setGuestGPR p hv REG_V0 HCALL_USB_BUSY).executing = none := hnone
    cases idle <;>
    · simp only [handler, Drivers.usbSendData, Bool.false_eq_true, if_false, if_true,
        mapGuestBuffer_none hnone, mapGuestBuffer_none hbusy, Bind.bind, Except.bind] at hok
      cases hok
  | intervmRecvMsg =>
    simp only [handler, Drivers.intervmRecvMsg, hnone] at hok
    cases hok
  | intervmSendMsg buffer =>
    obtain ⟨⟨r, hv₁⟩, hsend, rfl⟩ := map_ok hok
    unfold Drivers.intervmSendMsg at hsend
    cases hfind : getVcpuFromId hv (moveFromPreviousGuestGPR p hv.cpu REG_A0) with
    | error f =>
      simp only [hfind, Bind.bind, Except.bind] at hsend
      split_ifs at hsend
      cases hsend
      exact hnone
    | ok target =>
      simp only [hfind, hnone, Bind.bind, Except.bind] at hsend
      split_ifs at hsend
      · cases hsend
        exact hnone
      · split at hsend
        · cases hsend
          exact hnone
        · split_ifs at hsend
          · cases hsend
            exact hnone
          · cases hsend
            exact hnone

theorem reenableLoop_executing (interrupt : UInt32) (s : Redirect) (l : List InterruptMapping) :
    (reenableLoop interrupt s l).hv.executing = s.hv.executing :=
  (reenableLoop_callFrame 0 interrupt s l).executing

theorem Hypercall.executing_none {s t : Virtual} {vmconfP : List VmConf} {answers : Answers}
    {h : Hypercall} (hnone : s.hv.executing = none)
    (hok : h.handler p vmconfP answers s = .ok t) : t.hv.executing = none := by
  have hmapping : ∀ {call : MappingCall}, s.setHv <$> call.handler p s.hv = .ok t →
      t.hv.executing = none := by
    intro call hok
    obtain ⟨hv', hcall, rfl⟩ := map_ok hok
    exact MappingCall.executing_none hnone hcall
  cases h with
  | getVmId =>
    simp only [handler, Drivers.getVmId, hnone] at hok
    cases hok
  | guestIsUp =>
    obtain ⟨hv', hcall, rfl⟩ := map_ok hok
    unfold Drivers.guestIsUp at hcall
    obtain ⟨r, -, hcall⟩ := bind_ok.mp hcall
    cases r <;> cases hcall <;> exact hnone
  | writeAddress =>
    simp only [handler, Drivers.writeAddress, callerConf, hnone] at hok
    cases hok
  | readAddress =>
    simp only [handler, Drivers.readAddress, callerConf, hnone] at hok
    cases hok
  | reenableInterrupt =>
    cases hok
    exact (reenableLoop_executing _ s.redirect _).trans hnone
  | performanceCounterStart =>
    cases hok
    exact hnone
  | enWatchdog =>
    cases hok
    exact hnone
  | usbPolling =>
    cases hok
    exact hnone
  | intervmSendMsg => exact hmapping hok
  | intervmRecvMsg => exact hmapping hok
  | flashRead => exact hmapping hok
  | flashWrite => exact hmapping hok
  | performanceCounterStop => exact hmapping hok
  | enGetMac => exact hmapping hok
  | sendFrame => exact hmapping hok
  | receiveFrame => exact hmapping hok
  | getDescriptor => exact hmapping hok
  | usbSendData => exact hmapping hok
  | uartSend => exact hmapping hok

theorem hypercallExecution_none {s t : Virtual} {drivers : Installed} {answers : Answers}
    {badinstr : UInt32} (hnone : s.hv.executing = none)
    (hok : hypercallExecution p drivers answers badinstr s = .ok t) : t.hv.executing = none := by
  unfold hypercallExecution at hok
  dsimp only at hok
  split_ifs at hok
  · cases hok
    exact hnone
  · split at hok
    · cases hok
      exact hnone
    · exact Hypercall.executing_none hnone hok

end PrplHypervisor.Drivers
