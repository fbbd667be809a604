import PrplHypervisor.Drivers.CallFrame
import PrplHypervisor.Drivers.MessageQueue

/-! What the hypercalls do to the rings of the inter-VM communication: a send that is accepted
stores a message and a receive releases one; no other call changes them. -/

namespace PrplHypervisor.Drivers

open Arch Kernel Lib.Partial

variable {p : Platform} {vmconfP : List VmConf} {answers : Answers} {hv hv' : Hv} {caller : VcpuPtr}
  {n : Nat}

/-- What a call does to the rings of `n` VCPUs: nothing, or it stores a message in one that has
room, or it releases one. -/
inductive RingStep (n : Nat) (before after : Hv) : Prop
  | same (hsame : ∀ w, (after.vcpus w).messages = (before.vcpus w).messages)
  | stored (v : VcpuPtr) (sourceId size : UInt32) (buffer : Nat → UInt8) (hsize : size ≤ MESSAGE_SZ)
      (hroom : (before.vcpus v).messages.numMessages ≠ MESSAGELIST_SZ)
      (hstored : (after.vcpus v).messages =
        storeMessage (before.vcpus v).messages sourceId size buffer)
      (hothers : ∀ w, w ≠ v → (after.vcpus w).messages = (before.vcpus w).messages)
  | released (v : VcpuPtr) (hnonempty : (before.vcpus v).messages.numMessages ≠ 0)
      (hreleased : (after.vcpus v).messages = releaseMessage (before.vcpus v).messages)
      (hothers : ∀ w, w ≠ v → (after.vcpus w).messages = (before.vcpus w).messages)

/-- The rings of the `n` VCPUs are well formed. -/
def RingsHold (n : Nat) (hv : Hv) : Prop :=
  ∀ v < n, ∃ queue, HoldsQueue (hv.vcpus v).messages queue

theorem RingsHold.same (h : RingsHold n hv)
    (hsame : ∀ w, (hv'.vcpus w).messages = (hv.vcpus w).messages) : RingsHold n hv' := by
  intro v hv
  rw [hsame v]
  exact h v hv

theorem RingStep.holds (hstep : RingStep n hv hv') (h : RingsHold n hv) : RingsHold n hv' := by
  cases hstep with
  | same hsame => exact h.same hsame
  | stored v sourceId size buffer hsize hroom hstored hothers =>
    intro w hw
    obtain ⟨queue, hholds⟩ := h w hw
    by_cases hwv : w = v
    · subst hwv
      rw [hstored]
      exact ⟨_, hholds.store hroom hsize buffer⟩
    · rw [hothers w hwv]
      exact ⟨queue, hholds⟩
  | released v hnonempty hreleased hothers =>
    intro w hw
    obtain ⟨queue, hholds⟩ := h w hw
    by_cases hwv : w = v
    · subst hwv
      obtain ⟨rest, -, hrest⟩ := hholds.release hnonempty
      rw [hreleased]
      exact ⟨rest, hrest⟩
    · rw [hothers w hwv]
      exact ⟨queue, hholds⟩

/-- What is behind the bytes of a message stays as it is. -/
theorem RingStep.behind (hstep : RingStep n hv hv') (v : VcpuPtr) (slot i : Nat)
    (hi : MESSAGE_SZ.toNat ≤ i) : ((hv'.vcpus v).messages.messageList slot).message i =
      ((hv.vcpus v).messages.messageList slot).message i := by
  cases hstep with
  | same hsame => rw [hsame v]
  | stored w sourceId size buffer hsize hroom hstored hothers =>
    by_cases hvw : v = w
    · subst hvw
      rw [hstored]
      have hbehind : ¬i < size.toNat :=
        Nat.not_lt.mpr ((UInt32.le_iff_toNat_le.mp hsize).trans hi)
      simp only [storeMessage, Function.update_apply]
      split_ifs with hslot
      · rw [hslot]
        exact if_neg hbehind
      · rfl
    · rw [hothers v hvw]
  | released w hnonempty hreleased hothers =>
    by_cases hvw : v = w
    · subst hvw
      rw [hreleased]
      rfl
    · rw [hothers v hvw]

theorem mapGuestBuffer_vcpus {address size useCache : UInt32}
    (h : mapGuestBuffer hv address size useCache = .ok hv') : hv'.vcpus = hv.vcpus := by
  unfold mapGuestBuffer at h
  split at h
  · cases h
  · cases h
    rfl

theorem buffer_reply_vcpus {address size useCache value : UInt32} (h : (do
      let hv ← mapGuestBuffer hv address size useCache
      return setGuestGPR p hv REG_V0 value) = Except.ok hv') : hv'.vcpus = hv.vcpus := by
  obtain ⟨hv₁, hmap, h⟩ := bind_ok.mp h
  cases h
  exact (mapGuestBuffer_vcpus hmap : hv₁.vcpus = hv.vcpus)

theorem MappingCall.ringStep {call : MappingCall} (hready : Ready hv n)
    (hexec : hv.executing = some caller) (h : call.handler p hv = .ok hv') :
    RingStep n hv hv' := by
  have hsame : hv'.vcpus = hv.vcpus → RingStep n hv hv' := fun heq => .same fun w => by rw [heq]
  cases call with
  | intervmSendMsg buffer =>
    obtain ⟨r, hv₁, hsend, ho⟩ := intervmSendMsg_outcome (p := p) hready hexec buffer
    obtain ⟨r', hr', rfl⟩ := map_ok h
    obtain rfl := Except.ok.inj (hsend.symm.trans hr')
    cases r with
    | none => exact .same ho.messages_none
    | some v =>
      obtain ⟨hothers, hstored, hroom, hsize⟩ := ho.messages_some
      exact .stored v _ _ buffer hsize hroom hstored hothers
  | intervmRecvMsg =>
    obtain ⟨r, hv₁, hrecv, ho⟩ := intervmRecvMsg_outcome (p := p) hexec
    obtain ⟨r', hr', rfl⟩ := map_ok h
    obtain rfl := Except.ok.inj (hrecv.symm.trans hr')
    cases ho with
    | empty hempty => exact .same fun _ => rfl
    | received hnonempty message head cpu size sourceId guestctl2 =>
      refine .released caller hnonempty (by simp) fun w hw => ?_
      rw [Hv.setVcpu_of_ne _ _ hw]
  | uartSend sent =>
    obtain ⟨hv₁, hmap, h⟩ := bind_ok.mp h
    have hvcpus := mapGuestBuffer_vcpus hmap
    cases h
    refine .same fun w => ?_
    rw [← hvcpus]
    show ((setGuestGPR p _ REG_V0 _).vcpus w).messages = _
    simp only [setGuestGPR]
    split
    · split_ifs
      · obtain ⟨state, heq⟩ := setState_vcpu hv₁ _ w .blocked
        rw [heq]
      · rfl
    · rfl
  | usbSendData idle =>
    cases idle with
    | true => exact hsame (buffer_reply_vcpus h)
    | false =>
      have hbusy : hv'.vcpus = (setGuestGPR p hv REG_V0 HCALL_USB_BUSY).vcpus :=
        buffer_reply_vcpus h
      exact hsame hbusy
  | enGetMac => exact hsame (mapGuestBuffer_vcpus h)
  | sendFrame => exact hsame (buffer_reply_vcpus h)
  | receiveFrame framesz => exact hsame (buffer_reply_vcpus h)
  | getDescriptor => exact hsame (buffer_reply_vcpus h)
  | flashRead ret => exact hsame (buffer_reply_vcpus h)
  | flashWrite ret => exact hsame (buffer_reply_vcpus h)
  | performanceCounterStop => exact hsame (buffer_reply_vcpus h)

theorem reenableLoop_messages (interrupt : UInt32) (s : Redirect) (l : List InterruptMapping)
    (w : VcpuPtr) : ((reenableLoop interrupt s l).hv.vcpus w).messages =
      (s.hv.vcpus w).messages := by
  induction l with
  | nil => rfl
  | cons m l ih =>
    unfold reenableLoop
    split_ifs
    · simp only [setGuestGPR, Hv.setVcpu_apply]
      split_ifs with heq
      · rw [heq]
        rfl
      · rfl
    · exact ih
    · exact ih

theorem Hypercall.ringStep {s t : Virtual} (hready : Ready s.hv n)
    (hexec : s.hv.executing = some caller) (h : Hypercall)
    (hcall : h.handler p vmconfP answers s = .ok t) : RingStep n s.hv t.hv := by
  have hmapping : ∀ {call : MappingCall}, s.setHv <$> call.handler p s.hv = .ok t →
      RingStep n s.hv t.hv := by
    intro call hok
    obtain ⟨hv', hmapped, rfl⟩ := map_ok hok
    exact MappingCall.ringStep hready hexec hmapped
  cases h with
  | getVmId =>
    simp only [handler, Drivers.getVmId, hexec] at hcall
    cases hcall
    exact .same fun _ => rfl
  | guestIsUp =>
    obtain ⟨hv', hup, rfl⟩ := map_ok hcall
    unfold Drivers.guestIsUp at hup
    obtain ⟨r, -, hup⟩ := bind_ok.mp hup
    cases r <;> cases hup <;> exact .same fun _ => rfl
  | writeAddress =>
    obtain ⟨r, hwrite, rfl⟩ := map_ok hcall
    obtain ⟨conf, -, hwrite⟩ := bind_ok.mp hwrite
    split_ifs at hwrite <;> cases hwrite <;> exact .same fun _ => rfl
  | readAddress =>
    obtain ⟨r, hread, rfl⟩ := map_ok hcall
    obtain ⟨conf, -, hread⟩ := bind_ok.mp hread
    split_ifs at hread <;> cases hread <;> exact .same fun _ => rfl
  | reenableInterrupt =>
    cases hcall
    exact .same (reenableLoop_messages _ s.redirect _)
  | performanceCounterStart =>
    cases hcall
    exact .same fun _ => rfl
  | enWatchdog =>
    cases hcall
    exact .same fun _ => rfl
  | usbPolling =>
    cases hcall
    exact .same fun _ => rfl
  | intervmSendMsg => exact hmapping hcall
  | intervmRecvMsg => exact hmapping hcall
  | flashRead => exact hmapping hcall
  | flashWrite => exact hmapping hcall
  | performanceCounterStop => exact hmapping hcall
  | enGetMac => exact hmapping hcall
  | sendFrame => exact hmapping hcall
  | receiveFrame => exact hmapping hcall
  | getDescriptor => exact hmapping hcall
  | usbSendData => exact hmapping hcall
  | uartSend => exact hmapping hcall

end PrplHypervisor.Drivers
