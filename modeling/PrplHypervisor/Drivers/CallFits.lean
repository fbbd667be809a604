import PrplHypervisor.Drivers.CallMemory

/-! The hypercalls that keep to their memory.  The size fits the object of the driver, the buffer is
mapped by its window, and words are at word boundaries; for the inter-VM communication the handlers
see to the size. -/

namespace PrplHypervisor.Drivers

open Arch Kernel Lib.Partial

variable {p : Platform} {m : MemoryMap} {vmconfP : List VmConf} {answers : Answers} {s : System}
  {hv hv' : Hv} {caller : VcpuPtr} {n : Nat} {h : Hypercall}

/-- The size is one that the object and the buffer have, and a buffer of words is at a word
boundary. -/
def MappingCall.SizeFits (p : Platform) (hv : Hv) : MappingCall → Prop
  | .sendFrame => (moveFromPreviousGuestGPR p hv.cpu REG_A1).toNat ≤ MTU
  | .usbSendData _ => (moveFromPreviousGuestGPR p hv.cpu REG_A1).toNat ≤ BUFFER_TX_SZ
  | .getDescriptor => moveFromPreviousGuestGPR p hv.cpu REG_A1 = SIZEOF_DESCRIPTOR_RECEIVE
  | .receiveFrame framesz => framesz.toNat ≤ MTU
  | .flashRead _ | .flashWrite _ | .performanceCounterStop =>
    4 ∣ (moveFromPreviousGuestGPR p hv.cpu REG_A0).toNat
  | .intervmSendMsg _ | .intervmRecvMsg | .uartSend _ | .enGetMac => True

/-- The size fits and the buffer is mapped. -/
structure MappingCall.Fits (p : Platform) (ram : Nat → Bool) (hv : Hv) (caller : VcpuPtr)
    (call : MappingCall) : Prop where
  size : call.SizeFits p hv
  mapped : BufferMapped ram hv caller (call.buffer p hv caller).1 (call.buffer p hv caller).2
    (call.useCache p)

/-- A buffer fits when the call gets as far as mapping it, and a register that the caller may access
is at a word boundary. -/
def Hypercall.Fits (p : Platform) (ram : Nat → Bool) (vmconfP : List VmConf) (hv : Hv)
    (caller : VcpuPtr) (answers : Answers) : Hypercall → Prop
  | .readAddress | .writeAddress => ∀ conf, callerConf vmconfP hv = .ok conf →
      (∃ device ∈ conf.devices, Allows device (moveFromPreviousGuestGPR p hv.cpu REG_A0)) →
        4 ∣ (moveFromPreviousGuestGPR p hv.cpu REG_A0).toNat
  | h => ∀ call ∈ h.mapping answers, call.ReachesMap p hv → call.Fits p ram hv caller

theorem intervmSendMsg_reaches {buffer : Nat → UInt8} {v : VcpuPtr}
    (hsend : intervmSendMsg p buffer hv = .ok (some v, hv')) :
    MappingCall.ReachesMap p hv (.intervmSendMsg buffer) := by
  obtain ⟨hsize, htarget, hinit, hroom⟩ := intervmSendMsg_stored hsend
  exact ⟨hsize, v, htarget, hinit, hroom⟩

/-- The accesses to a buffer that is not copied are in the buffer. -/
theorem MappingCall.Fits.has {call : MappingCall} {ram : Nat → Bool}
    (hfits : call.Fits p ram hv caller) {i : Nat} (hi : i < (call.pieces p hv).1) :
    (call.window p hv caller).Has ram (call.pieces p hv).2 ((call.pieces p hv).2 * i) := by
  obtain ⟨hsize, hmapped⟩ := hfits
  have hbyte : i < (call.buffer p hv caller).2.toNat →
      (call.window p hv caller).Has ram 1 (1 * i) := by
    rw [Nat.one_mul]
    exact hmapped.has_byte
  have hword : 4 ∣ (call.buffer p hv caller).1.toNat → 4 * i < (call.buffer p hv caller).2.toNat →
      (call.window p hv caller).Has ram 4 (4 * i) := hmapped.has_word
  have hflash : i < 256 → 4 * i < (1024 : UInt32).toNat := fun hlt =>
    Nat.mul_lt_mul_of_pos_left hlt (by decide)
  cases call with
  | intervmSendMsg buffer => exact absurd hi (Nat.not_lt_zero i)
  | intervmRecvMsg => exact absurd hi (Nat.not_lt_zero i)
  | sendFrame => exact absurd hi (Nat.not_lt_zero i)
  | usbSendData idle => exact absurd hi (Nat.not_lt_zero i)
  | getDescriptor => exact absurd hi (Nat.not_lt_zero i)
  | uartSend sent => exact hbyte hi
  | receiveFrame framesz => exact hbyte (Nat.lt_of_lt_of_le hi hsize)
  | enGetMac => exact hbyte hi
  | flashRead ret => exact hword hsize (hflash hi)
  | flashWrite ret => exact hword hsize (hflash hi)
  | performanceCounterStop => exact hword hsize (Nat.mul_lt_mul_of_pos_left hi (by decide))

theorem MappingCall.Fits.accesses_kept {call : MappingCall}
    (hfits : call.Fits p m.ram hv caller) : ∀ a ∈ call.accesses p hv caller, a.Kept m := by
  intro a ha
  obtain ⟨i, hi, rfl⟩ := List.mem_map.mp ha
  exact hfits.has (List.mem_range.mp hi)

/-- A granted register is at a word boundary. -/
theorem wordAccesses_kept {result : Except Fault (List Access × Hv)}
    (hword : ∀ l hv', result = .ok (l, hv') → ∀ a ∈ l, ∃ address : UInt32, 4 ∣ address.toNat ∧
      (a = .load address ∨ ∃ value, a = .store address value)) :
    ∀ a ∈ wordAccesses result, a.Kept m := by
  intro a ha
  cases result with
  | error f => exact absurd ha List.not_mem_nil
  | ok r =>
    obtain ⟨x, hx, rfl⟩ := List.mem_map.mp ha
    obtain ⟨address, haligned, rfl | ⟨value, rfl⟩⟩ := hword r.1 r.2 rfl x hx
    · exact haligned
    · exact haligned

/-- The accesses of a call that fits are kept. -/
theorem Hypercall.Fits.accesses_kept (hexec : s.hv.executing = some caller)
    (hcaller : caller < n) (hrings : RingsHold n s.hv)
    (hready : Ready s.hv n) (hfits : h.Fits p m.ram vmconfP s.hv caller answers) :
    ∀ a ∈ h.accesses p m.place vmconfP answers s, a.Kept m := by
  -- a call that does not copy
  have hplain : ∀ {call : MappingCall}, h.mapping answers = some call →
      h.copying p s.hv answers.buffer = none → call.Fits p m.ram s.hv caller →
      ∀ a ∈ h.accesses p m.place vmconfP answers s, a.Kept m := by
    intro call hmapping hcopying hcall
    simp only [Hypercall.accesses, hexec, hmapping, hcopying]
    exact hcall.accesses_kept
  -- a copy of as many bytes as the buffer has
  have hcopy : ∀ {call : MappingCall} {c : CopyCall}, h.mapping answers = some call →
      h.copying p s.hv answers.buffer = some c →
      (∀ r copy, c.effect p m.place s.objects s.hv = .ok r → r.copy = some copy →
        copy.object.Exists ∧ copy.bytes.toNat ≤ copy.object.size ∧
          ∀ i < copy.bytes.toNat, (call.window p s.hv caller).Has m.ram 1 i) →
      ∀ a ∈ h.accesses p m.place vmconfP answers s, a.Kept m := by
    intro call c hmapping hcopying hinside
    obtain ⟨r, hr⟩ := c.effect_defined hready hexec p m.place s.objects
    simp only [Hypercall.accesses, hexec, hmapping, hcopying, hr]
    cases hcopy : r.copy with
    | none => exact fun a ha => absurd ha List.not_mem_nil
    | some copy =>
      obtain ⟨hobject, hle, hw⟩ := hinside r copy hr hcopy
      exact GuestCopy.accesses_kept hobject hle hw
  have hnone : h.accesses p m.place vmconfP answers s = [] →
      ∀ a ∈ h.accesses p m.place vmconfP answers s, a.Kept m := fun heq => by
    rw [heq]
    exact fun a ha => absurd ha List.not_mem_nil
  cases h with
  | sendFrame =>
    obtain ⟨hsize, hmapped⟩ := hfits _ rfl trivial
    refine hcopy rfl rfl fun r copy hr hsome => ?_
    obtain ⟨dst, src, heq, -⟩ := sendFrameCopy_copy hr
    obtain rfl := Option.some.inj (hsome.symm.trans heq)
    exact ⟨trivial, hsize, fun i hi => hmapped.has_byte hi⟩
  | usbSendData =>
    obtain ⟨hsize, hmapped⟩ := hfits _ rfl trivial
    refine hcopy rfl rfl fun r copy hr hsome => ?_
    obtain ⟨dst, src, heq, -⟩ := usbSendDataCopy_copy hr
    obtain rfl := Option.some.inj (hsome.symm.trans heq)
    exact ⟨trivial, hsize, fun i hi => hmapped.has_byte hi⟩
  | getDescriptor =>
    obtain ⟨hsize, hmapped⟩ := hfits _ rfl trivial
    refine hcopy rfl rfl fun r copy hr hsome => ?_
    obtain ⟨dst, src, heq, -⟩ := getDescriptorCopy_copy hr
    obtain rfl := Option.some.inj (hsome.symm.trans heq)
    refine ⟨trivial, Nat.le_refl _, fun i hi => hmapped.has_byte ?_⟩
    exact Nat.lt_of_lt_of_le hi (congrArg UInt32.toNat hsize).ge
  | intervmSendMsg =>
    refine hcopy rfl rfl fun r copy hr hsome => ?_
    obtain hno | ⟨v, hv', dst, src, hsend, heq⟩ := (intervmSendMsgCopy_copy hr).2
    · exact absurd (hsome.symm.trans hno) (Option.some_ne_none copy)
    obtain rfl := Option.some.inj (hsome.symm.trans heq)
    obtain ⟨-, hmapped⟩ := hfits _ rfl (intervmSendMsg_reaches hsend)
    obtain ⟨r', hv'', hsend', ho⟩ := intervmSendMsg_outcome (p := p) hready hexec answers.buffer
    obtain ⟨rfl, rfl⟩ := Prod.mk.inj (Except.ok.inj (hsend.symm.trans hsend'))
    have hsize := ho.messages_some.2.2.2
    cases ho with
    | stored v mem init room size cpu guestctl2 =>
      obtain ⟨queue, hholds⟩ := hrings v mem
      exact ⟨hholds.inIndex, UInt32.le_iff_toNat_le.mp hsize, fun i hi => hmapped.has_byte hi⟩
  | intervmRecvMsg =>
    refine hcopy rfl rfl fun r copy hr hsome => ?_
    obtain hno | ⟨hnonempty, dst, src, heq⟩ := (intervmRecvMsgCopy_copy hexec hr).2
    · exact absurd (hsome.symm.trans hno) (Option.some_ne_none copy)
    obtain rfl := Option.some.inj (hsome.symm.trans heq)
    obtain ⟨-, hmapped⟩ := hfits _ rfl ⟨caller, hexec, hnonempty⟩
    obtain ⟨queue, hholds⟩ := hrings caller hcaller
    refine ⟨hholds.outIndex, UInt32.le_iff_toNat_le.mp ?_, fun i hi => hmapped.has_byte hi⟩
    exact hholds.sizes _ (UInt32.lt_iff_toNat_lt.mp hholds.outIndex)
  | readAddress =>
    simp only [Hypercall.accesses, hexec, Hypercall.mapping]
    refine wordAccesses_kept fun l hv' hread a ha => ?_
    obtain ⟨conf, hconf, hread⟩ := bind_ok.mp hread
    split_ifs at hread with hallows
    · cases hread
      exact ⟨_, hfits conf hconf hallows, Or.inl (List.mem_singleton.mp ha)⟩
    · cases hread
      exact absurd ha List.not_mem_nil
  | writeAddress =>
    simp only [Hypercall.accesses, hexec, Hypercall.mapping]
    refine wordAccesses_kept fun l hv' hwrite a ha => ?_
    obtain ⟨conf, hconf, hwrite⟩ := bind_ok.mp hwrite
    split_ifs at hwrite with hallows
    · cases hwrite
      exact ⟨_, hfits conf hconf hallows, Or.inr ⟨_, List.mem_singleton.mp ha⟩⟩
    · cases hwrite
      exact absurd ha List.not_mem_nil
  | flashRead => exact hplain rfl rfl (hfits _ rfl trivial)
  | flashWrite => exact hplain rfl rfl (hfits _ rfl trivial)
  | performanceCounterStop => exact hplain rfl rfl (hfits _ rfl trivial)
  | enGetMac => exact hplain rfl rfl (hfits _ rfl trivial)
  | receiveFrame => exact hplain rfl rfl (hfits _ rfl trivial)
  | uartSend => exact hplain rfl rfl (hfits _ rfl trivial)
  | _ => exact hnone (by simp only [Hypercall.accesses, hexec, Hypercall.mapping])

variable {drivers : Installed} {devices : Devices} {badinstr : UInt32}

/-- The call that an exit is for, if any, fits, and the drivers answer it from their own arrays. -/
def CallFits (p : Platform) (m : MemoryMap) (drivers : Installed) (devices : Devices)
    (answers : Answers) (badinstr : UInt32) (caller : VcpuPtr) (s : System) : Prop :=
  ∀ d h, installedCall drivers badinstr = some (d, h) →
    ∃ answers', h.deviceAnswers d devices s answers = some answers' ∧
      h.Fits p m.ram drivers.vmconfP s.hv caller answers'

theorem CallFits.kept (hready : Ready s.hv n) (hrings : RingsHold n s.hv)
    (hexec : s.hv.executing = some caller) (hcaller : caller < n)
    (hfits : CallFits p m drivers devices answers badinstr caller s) :
    CallKept p m drivers devices answers badinstr s := by
  rintro ⟨d, h⟩ hcall
  obtain ⟨answers', hanswers, hcallfits⟩ := hfits d h hcall
  exact ⟨answers', hanswers, hcallfits.accesses_kept hexec hcaller hrings hready⟩

end PrplHypervisor.Drivers
