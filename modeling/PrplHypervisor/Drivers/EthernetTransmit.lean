import PrplHypervisor.Drivers.EthernetInput

/-! How frames get to the wire: `send_frame` and `en_ll_output`, the same in both Ethernet drivers
(`drivers/pic32mz-ethernet.c` and `drivers/pic32mz-ethernet-shared.c`).  A call copies the frame to
`tx_buf` first and waits for the controller afterwards, so that a call can overwrite bytes of the
frame before that the controller has not read yet. -/

namespace PrplHypervisor.Drivers

open Kernel Lib.Words Lib.Runs

/-- Start of packet. -/
def DESC_SET_SOP (d : EthDesc) : EthDesc := { d with hdr := d.hdr ||| 0x80000000 }

def DESC_SET_EOP (d : EthDesc) : EthDesc := { d with hdr := d.hdr ||| 0x40000000 }

def DESC_SET_BYTECNT (d : EthDesc) (n : UInt32) : EthDesc :=
  { d with hdr := (d.hdr &&& ~~~(0x7ff0000 : UInt32)) ||| (n <<< 16) }

/-- The transmit descriptor that `en_ll_output` builds. -/
def txDescriptor (frame : UInt32) (size : UInt16) : EthDesc :=
  let desc : EthDesc := ⟨0, MACH_VIRT_TO_PHYS frame, 0⟩
  let desc := DESC_SET_BYTECNT desc size.toUInt32
  let desc := DESC_SET_SOP desc
  let desc := DESC_SET_EOWN desc
  DESC_SET_EOP desc

/-- The transmit side of the port.  While `TXRTS` is set the controller reads `tx_buf` byte by byte;
`out` is what it has read of the frame, and `wire` the frames that it has finished. -/
structure TxPort where
  txBuf : Nat → UInt8
  desc : EthDesc
  txrts : Bool
  out : List UInt8
  wire : List (List UInt8)

/-- The bytes that the controller has not read of the frame. -/
def TxPort.unread (p : TxPort) : List UInt8 :=
  (List.range' p.out.length ((DESC_BYTECNT p.desc).toNat - p.out.length)).map p.txBuf

/-- The controller reads a byte; after the last one it clears `TXRTS`. -/
def TxPort.fetch (p : TxPort) : TxPort :=
  let out := p.out ++ [p.txBuf p.out.length]
  if out.length < (DESC_BYTECNT p.desc).toNat then { p with out := out }
  else { p with out := [], txrts := false, wire := p.wire ++ [out] }

/-- `while(ETHCON1 & PIC32_ETHCON1_TXRTS);`, with at most `n` bytes to come. -/
def TxPort.wait : Nat → TxPort → Option TxPort
  | n, p =>
    if p.txrts then
      match n with
      | 0 => none
      | n + 1 => p.fetch.wait n
    else some p

/-- `en_ll_output` for the frame at the address `frame`, which is `tx_buf`. -/
def enLlOutputWaiting (frame : UInt32) (size : UInt16) (p : TxPort) : Option TxPort :=
  if 0 < size ∧ size.toNat ≤ MTU then
    (p.wait MTU).map fun p => { p with desc := txDescriptor frame size, txrts := true }
  else some p

/-- `send_frame`, for a guest whose frame of `size` bytes is mapped at the address `mapped`, with
the address `txBuf` of the buffer. -/
def sendFrameWaiting (txBuf mapped : UInt32) (frame : Nat → UInt8) (size : UInt32) (p : TxPort) :
    Option TxPort :=
  let buf := MACH_PHYS_TO_VIRT (MACH_VIRT_TO_PHYS txBuf)
  enLlOutputWaiting buf size.toUInt16 { p with txBuf := memcpy buf mapped size frame p.txBuf }

/-- The port, and the frames that the guests have sent. -/
structure TxSystem where
  port : TxPort
  sent : List (List UInt8)

inductive TxEvent
  /-- The controller reads a byte. -/
  | fetch
  /-- A guest sends a frame. -/
  | send (mapped : UInt32) (frame : Nat → UInt8) (size : UInt32)

/-- The first `n` bytes. -/
def firstBytes (frame : Nat → UInt8) (n : Nat) : List UInt8 := (List.range n).map frame

/-- A size above `MTU` is not one of a frame, and one without bytes is none. -/
def txStep (txBuf : UInt32) (s : TxSystem) : TxEvent → Option TxSystem
  | .fetch => some { s with port := if s.port.txrts then s.port.fetch else s.port }
  | .send mapped frame size =>
    if size.toNat ≤ MTU then
      (sendFrameWaiting txBuf mapped frame size s.port).map fun p =>
        { port := p
          sent := if 0 < size then s.sent ++ [firstBytes frame size.toNat] else s.sent }
    else none

/-- The frames on the wire when the controller has read the rest of its frame. -/
def TxPort.frames (p : TxPort) : List (List UInt8) :=
  if p.txrts then p.wire ++ [p.out ++ p.unread] else p.wire

/-- The copy of a call leaves the bytes that the controller has not read yet as they are. -/
def KeepsUnread (s : TxSystem) : TxEvent → Prop
  | .fetch => True
  | .send _ frame size => s.port.txrts = true → ∀ i < size.toNat, s.port.out.length ≤ i →
    i < (DESC_BYTECNT s.port.desc).toNat → frame i = s.port.txBuf i

/-! ### The controller -/

variable {p q : TxPort} {n : Nat} {txBuf : UInt32}

theorem bytecnt_txDescriptor (frame : UInt32) {size : UInt16} (h : size.toNat ≤ MTU) :
    (DESC_BYTECNT (txDescriptor frame size)).toNat = size.toNat := by
  have hclear : (0 : UInt32) &&& ~~~(0x7ff0000 : UInt32) ||| size.toUInt32 <<< 16 =
      UInt32.ofNat size.toNat <<< 16 := by
    rw [UInt32.zero_and, UInt32.zero_or,
      show UInt32.ofNat size.toNat = size.toUInt32 from UInt32.toNat_inj.mp (by simp)]
  have hhdr : (txDescriptor frame size).hdr =
      UInt32.ofNat size.toNat <<< 16 ||| (0x80000000 ||| 0x80 ||| 0x40000000) := by
    rw [← hclear, ← UInt32.or_assoc, ← UInt32.or_assoc]
    rfl
  exact bytecnt_of_hdr (h.trans_lt (by decide)) rfl hhdr

theorem unread_cons (h : p.out.length < (DESC_BYTECNT p.desc).toNat) :
    p.unread = p.txBuf p.out.length ::
      (List.range' (p.out.length + 1) ((DESC_BYTECNT p.desc).toNat - (p.out.length + 1))).map
        p.txBuf := by
  rw [TxPort.unread, show (DESC_BYTECNT p.desc).toNat - p.out.length =
    (DESC_BYTECNT p.desc).toNat - (p.out.length + 1) + 1 by omega, List.range'_succ, List.map_cons]

theorem TxPort.txBuf_fetch (p : TxPort) : p.fetch.txBuf = p.txBuf := by
  simp only [TxPort.fetch]
  split_ifs <;> rfl

/-- Reading a byte changes nothing of what the frames will be. -/
theorem frames_fetch (hbusy : p.txrts = true) (h : p.out.length < (DESC_BYTECNT p.desc).toNat) :
    p.fetch.frames = p.frames := by
  rw [show p.frames = p.wire ++ [p.out ++ p.unread] from if_pos hbusy, unread_cons h, TxPort.fetch]
  simp only [List.length_append, List.length_singleton]
  split_ifs with hmore
  · simp [TxPort.frames, TxPort.unread, hbusy]
  · have hlast : (DESC_BYTECNT p.desc).toNat - (p.out.length + 1) = 0 := by omega
    simp [TxPort.frames, hlast]

theorem rest_fetch (h : p.out.length < (DESC_BYTECNT p.desc).toNat) (hnow : p.fetch.txrts = true) :
    p.fetch.out ++ p.fetch.unread = p.out ++ p.unread := by
  rw [unread_cons h]
  simp only [TxPort.fetch, List.length_append, List.length_singleton] at hnow ⊢
  split_ifs at hnow ⊢ with hmore
  simp [TxPort.unread]

/-- The controller is in the middle of a frame, or has none. -/
structure TxPort.Sending (p : TxPort) : Prop where
  idle : p.txrts = false → p.out = []
  busy : p.txrts = true → p.out.length < (DESC_BYTECNT p.desc).toNat
  fits : p.txrts = true → (DESC_BYTECNT p.desc).toNat ≤ MTU

theorem TxPort.Sending.fetch (h : p.Sending) (hbusy : p.txrts = true) : p.fetch.Sending := by
  have hlt := h.busy hbusy
  rw [TxPort.fetch]
  simp only [List.length_append, List.length_singleton]
  split_ifs with hmore
  · exact ⟨fun hidle => absurd (hbusy.symm.trans hidle) Bool.noConfusion,
      fun _ => by simpa using hmore, fun _ => h.fits hbusy⟩
  · exact ⟨fun _ => rfl, fun hnow => Bool.noConfusion hnow, fun hnow => Bool.noConfusion hnow⟩

/-- The wait ends, with all of the frame on the wire. -/
theorem TxPort.Sending.wait (h : p.Sending)
    (hn : p.txrts = true → (DESC_BYTECNT p.desc).toNat ≤ p.out.length + n) :
    ∃ q, p.wait n = some q ∧ q.txrts = false ∧ q.out = [] ∧ q.wire = p.frames ∧
      q.txBuf = p.txBuf := by
  induction n generalizing p with
  | zero =>
    have hidle : p.txrts = false := by
      by_contra hbusy
      have := h.busy (by simpa using hbusy)
      have := hn (by simpa using hbusy)
      omega
    exact ⟨p, by rw [TxPort.wait, if_neg (by rw [hidle]; exact Bool.false_ne_true)], hidle,
      h.idle hidle, by rw [TxPort.frames, if_neg (by rw [hidle]; exact Bool.false_ne_true)], rfl⟩
  | succ n ih =>
    cases hbusy : p.txrts with
    | false =>
      exact ⟨p, by rw [TxPort.wait, if_neg (by rw [hbusy]; exact Bool.false_ne_true)], hbusy,
        h.idle hbusy, by rw [TxPort.frames, if_neg (by rw [hbusy]; exact Bool.false_ne_true)], rfl⟩
    | true =>
      have hlt := h.busy hbusy
      have hleft := hn hbusy
      have hnext : p.fetch.txrts = true →
          (DESC_BYTECNT p.fetch.desc).toNat ≤ p.fetch.out.length + n := by
        rw [TxPort.fetch]
        simp only [List.length_append, List.length_singleton]
        split_ifs with hmore
        · intro _
          simp only [List.length_append, List.length_singleton]
          omega
        · exact fun hnow => hnow.elim
      obtain ⟨q, hq, hidle, hout, hwire, hbuf⟩ := ih (h.fetch hbusy) hnext
      refine ⟨q, ?_, hidle, hout, hwire.trans (frames_fetch hbusy hlt),
        hbuf.trans p.txBuf_fetch⟩
      rw [TxPort.wait, if_pos hbusy]
      exact hq

/-! ### Calls -/

variable {s t : TxSystem} {ev : TxEvent} {es : List TxEvent} {mapped size : UInt32}
  {frame : Nat → UInt8}

/-- The frames have the lengths of those that were sent, and the last one, which the controller is
reading, its bytes. -/
structure TxSystem.Sound (s : TxSystem) : Prop where
  sending : s.port.Sending
  lengths : s.port.frames.map List.length = s.sent.map List.length
  last : s.port.txrts = true → s.sent.getLast? = some (s.port.out ++ s.port.unread)

/-- The port when a call has copied its frame. -/
def TxPort.copied (p : TxPort) (txBuf mapped : UInt32) (frame : Nat → UInt8) (size : UInt32) :
    TxPort :=
  let buf := MACH_PHYS_TO_VIRT (MACH_VIRT_TO_PHYS txBuf)
  { p with txBuf := memcpy buf mapped size frame p.txBuf }

theorem copied_apply (p : TxPort) (txBuf mapped : UInt32) (frame : Nat → UInt8)
    (hsize : size.toNat ≤ MTU) (i : Nat) :
    (p.copied txBuf mapped frame size).txBuf i = if i < size.toNat then frame i else p.txBuf i := by
  show memcpy (MACH_PHYS_TO_VIRT (MACH_VIRT_TO_PHYS txBuf)) mapped size frame p.txBuf i = _
  rw [memcpy_apply, memcpyCount_of_lt _ _ (hsize.trans_lt (by decide))]

/-- The bytes that the controller has not read are the same after the copy exactly when the frame
has them. -/
theorem unread_copied_iff (hsize : size.toNat ≤ MTU) :
    (p.copied txBuf mapped frame size).unread = p.unread ↔
      ∀ i < size.toNat, p.out.length ≤ i → i < (DESC_BYTECNT p.desc).toNat →
        frame i = p.txBuf i := by
  have hmap : (p.copied txBuf mapped frame size).unread =
      (List.range' p.out.length ((DESC_BYTECNT p.desc).toNat - p.out.length)).map
        (p.copied txBuf mapped frame size).txBuf := rfl
  rw [hmap, TxPort.unread, List.map_inj_left]
  simp only [List.mem_range'_1]
  constructor
  · intro hsame i hi hle hlt
    have hbyte := hsame i ⟨hle, by omega⟩
    rwa [copied_apply _ _ _ _ hsize, if_pos hi] at hbyte
  · rintro hsame i ⟨hle, hlt⟩
    rw [copied_apply _ _ _ _ hsize]
    split_ifs with hi
    · exact hsame i hi hle (by omega)
    · rfl

/-- A call with a frame: the controller finishes the frame before, with what the copy has left of
it, and the new frame follows. -/
theorem TxPort.Sending.send (h : p.Sending) (hpos : 0 < size) (hsize : size.toNat ≤ MTU) :
    ∃ q, sendFrameWaiting txBuf mapped frame size p = some q ∧ q.Sending ∧ q.txrts = true ∧
      q.out ++ q.unread = firstBytes frame size.toNat ∧
      q.wire = (p.copied txBuf mapped frame size).frames := by
  have hlt : size.toNat < 2 ^ 16 := hsize.trans_lt (by decide)
  have hshort : size.toUInt16.toNat = size.toNat := by
    rw [UInt32.toNat_toUInt16, Nat.mod_eq_of_lt hlt]
  rw [UInt32.lt_iff_toNat_lt, UInt32.toNat_zero] at hpos
  have hsends : 0 < size.toUInt16 ∧ size.toUInt16.toNat ≤ MTU := by
    rw [UInt16.lt_iff_toNat_lt, hshort]
    exact ⟨hpos, hsize⟩
  have hcopied : (p.copied txBuf mapped frame size).Sending := ⟨h.idle, h.busy, h.fits⟩
  obtain ⟨q, hq, hidle, hout, hwire, hbuf⟩ := hcopied.wait (n := MTU)
    fun hbusy => (h.fits hbusy).trans (Nat.le_add_left _ _)
  set desc := txDescriptor (MACH_PHYS_TO_VIRT (MACH_VIRT_TO_PHYS txBuf)) size.toUInt16 with hdesc
  have hcnt : (DESC_BYTECNT desc).toNat = size.toNat := by
    rw [hdesc, bytecnt_txDescriptor _ hsends.2, hshort]
  refine ⟨{ q with desc := desc, txrts := true }, ?_,
    ⟨fun hnow => Bool.noConfusion hnow, fun _ => ?_, fun _ => hcnt.trans_le hsize⟩, rfl, ?_, hwire⟩
  · rw [sendFrameWaiting, enLlOutputWaiting, if_pos hsends]
    exact congrArg (Option.map _) hq
  · show q.out.length < (DESC_BYTECNT desc).toNat
    rw [hout, hcnt]
    exact hpos
  · show q.out ++
      (List.range' q.out.length ((DESC_BYTECNT desc).toNat - q.out.length)).map q.txBuf = _
    rw [hout, hcnt, hbuf, firstBytes, List.range_eq_range']
    refine List.map_congr_left fun i hi => ?_
    rw [copied_apply _ _ _ _ hsize, if_pos (by simpa using hi)]

/-- A call without bytes does nothing. -/
theorem sendFrameWaiting_zero : sendFrameWaiting txBuf mapped frame 0 p = some p := by
  have hcopy : memcpy (MACH_PHYS_TO_VIRT (MACH_VIRT_TO_PHYS txBuf)) mapped 0 frame p.txBuf =
      p.txBuf := memcpy_none _ _ (memcpyCount_of_lt _ _ (by decide))
  rw [sendFrameWaiting, hcopy, enLlOutputWaiting, if_neg fun hsends => absurd hsends.1 (by decide)]

/-! ### Runs -/

/-- An event of the controller, or a call with the size of a frame. -/
def TxEvent.Fits : TxEvent → Prop
  | .fetch => True
  | .send _ _ size => size.toNat ≤ MTU

instance TxEvent.decidableFits : (ev : TxEvent) → Decidable ev.Fits
  | .fetch => isTrue trivial
  | .send _ _ size => inferInstanceAs (Decidable (size.toNat ≤ MTU))

theorem frames_copied (p : TxPort) (txBuf mapped : UInt32) (frame : Nat → UInt8) (size : UInt32) :
    (p.copied txBuf mapped frame size).frames =
      if p.txrts then p.wire ++ [p.out ++ (p.copied txBuf mapped frame size).unread] else p.wire :=
  rfl

theorem lengths_copied (p : TxPort) (txBuf mapped : UInt32) (frame : Nat → UInt8) (size : UInt32) :
    (p.copied txBuf mapped frame size).frames.map List.length = p.frames.map List.length := by
  rw [frames_copied, TxPort.frames]
  split_ifs
  · simp [TxPort.unread, TxPort.copied]
  · rfl

/-- The frames that the controller makes of a copy are those that were sent exactly when the frames
were so before it and the copy keeps what the controller has not read. -/
theorem TxSystem.Sound.copied_iff (h : s.Sound) (hsize : size.toNat ≤ MTU) :
    (s.port.copied txBuf mapped frame size).frames = s.sent ↔
      s.port.frames = s.sent ∧ KeepsUnread s (.send mapped frame size) := by
  cases hbusy : s.port.txrts with
  | false =>
    have hsame : (s.port.copied txBuf mapped frame size).frames = s.port.frames := by
      rw [frames_copied, TxPort.frames, hbusy]
      rfl
    rw [hsame]
    exact (and_iff_left fun hnow => absurd (hbusy.symm.trans hnow) Bool.false_ne_true).symm
  | true =>
    obtain ⟨calls, hcalls⟩ := List.getLast?_eq_some_iff.mp (h.last hbusy)
    have hbefore : s.port.frames = s.port.wire ++ [s.port.out ++ s.port.unread] := if_pos hbusy
    have hafter : (s.port.copied txBuf mapped frame size).frames =
        s.port.wire ++ [s.port.out ++ (s.port.copied txBuf mapped frame size).unread] :=
      if_pos hbusy
    have hkeeps : KeepsUnread s (.send mapped frame size) ↔
        (s.port.copied txBuf mapped frame size).unread = s.port.unread := by
      rw [unread_copied_iff hsize, KeepsUnread]
      exact forall_prop_of_true hbusy
    rw [hbefore, hafter, hcalls, hkeeps, List.append_left_inj]
    constructor
    · intro heq
      obtain ⟨hwire, hlast⟩ := List.append_inj' heq rfl
      exact ⟨hwire, List.append_cancel_left (List.cons.inj hlast).1⟩
    · rintro ⟨hwire, hlast⟩
      rw [hwire, hlast]

theorem TxSystem.Sound.step (txBuf : UInt32) (h : s.Sound) (hfits : ev.Fits) :
    ∃ t, txStep txBuf s ev = some t ∧ t.Sound ∧
      (t.port.frames = t.sent ↔ s.port.frames = s.sent ∧ KeepsUnread s ev) := by
  cases ev with
  | fetch =>
    refine ⟨_, rfl, ?_⟩
    cases hbusy : s.port.txrts with
    | false =>
      rw [if_neg Bool.false_ne_true]
      exact ⟨h, (and_iff_left trivial).symm⟩
    | true =>
      have hframes := frames_fetch hbusy (h.sending.busy hbusy)
      rw [if_pos rfl]
      refine ⟨⟨h.sending.fetch hbusy, by rw [← h.lengths, hframes], fun hnow => ?_⟩, ?_⟩
      · exact (h.last hbusy).trans
          (congrArg some (rest_fetch (h.sending.busy hbusy) hnow).symm)
      · show s.port.fetch.frames = s.sent ↔ _
        rw [hframes]
        exact (and_iff_left trivial).symm
  | send mapped frame size =>
    rw [txStep, if_pos (show size.toNat ≤ MTU from hfits)]
    by_cases hpos : 0 < size
    · obtain ⟨q, hq, hsending, hbusy, hnew, hwire⟩ := h.sending.send hpos hfits
      have hframes : q.frames = (s.port.copied txBuf mapped frame size).frames ++
          [firstBytes frame size.toNat] := by
        rw [TxPort.frames, if_pos hbusy, hnew, hwire]
      refine ⟨⟨q, s.sent ++ [firstBytes frame size.toNat]⟩, ?_, ⟨hsending, ?_, fun _ => ?_⟩, ?_⟩
      · rw [hq, Option.map_some, if_pos hpos]
      · show q.frames.map _ = (s.sent ++ [firstBytes frame size.toNat]).map _
        rw [hframes, List.map_append, List.map_append, lengths_copied, h.lengths]
      · show (s.sent ++ [firstBytes frame size.toNat]).getLast? = _
        rw [List.getLast?_concat, hnew]
      · show q.frames = s.sent ++ [firstBytes frame size.toNat] ↔ _
        rw [hframes, List.append_left_inj, h.copied_iff hfits]
    · obtain rfl : size = 0 := UInt32.toNat_inj.mp (by
        rw [UInt32.lt_iff_toNat_lt, UInt32.toNat_zero] at hpos
        rw [UInt32.toNat_zero]
        omega)
      refine ⟨s, ?_, h, ?_⟩
      · rw [sendFrameWaiting_zero, Option.map_some, if_neg hpos]
      · refine (and_iff_left ?_).symm
        exact fun _ i hi => absurd hi (Nat.not_lt_zero i)

/-- The port when nothing has been sent. -/
structure TxSystem.Quiet (s : TxSystem) : Prop where
  txrts : s.port.txrts = false
  out : s.port.out = []
  wire : s.port.wire = []
  sent : s.sent = []

theorem TxSystem.Quiet.frames (h : s.Quiet) : s.port.frames = s.sent := by
  rw [TxPort.frames, h.txrts, h.wire, h.sent]
  rfl

theorem TxSystem.Quiet.sound (h : s.Quiet) : s.Sound where
  sending := ⟨fun _ => h.out, fun hnow => absurd (h.txrts.symm.trans hnow) Bool.false_ne_true,
    fun hnow => absurd (h.txrts.symm.trans hnow) Bool.false_ne_true⟩
  lengths := by rw [h.frames]
  last hnow := absurd (h.txrts.symm.trans hnow) Bool.false_ne_true

/-- In every run of the guests' calls and the controller, every call returns, and the wire gets as
many frames as were sent, each with the length of its own.  They have the bytes that were sent
exactly when the copy of every call keeps what the controller has not read yet of the frame
before. -/
theorem wire_eq_sent_iff (txBuf : UInt32) (hquiet : s.Quiet) (hfits : ∀ ev ∈ es, ev.Fits) :
    ∃ t, run (txStep txBuf) s es = some t ∧
      t.port.frames.map List.length = t.sent.map List.length ∧
      (t.port.frames = t.sent ↔ Guarded (txStep txBuf) KeepsUnread s es) := by
  have hdefined : ∀ s ev, ev ∈ es → s.Sound → ∃ t, txStep txBuf s ev = some t ∧ t.Sound := by
    intro s ev hev hs
    obtain ⟨t, ht, hsound, -⟩ := hs.step txBuf (hfits ev hev)
    exact ⟨t, ht, hsound⟩
  obtain ⟨t, hrun, hsound⟩ := run_defined hdefined hquiet.sound
  refine ⟨t, hrun, hsound.lengths, ?_⟩
  have hstep : ∀ s ev t, ev ∈ es → s.Sound → txStep txBuf s ev = some t →
      t.Sound ∧ (t.port.frames = t.sent ↔ s.port.frames = s.sent ∧ KeepsUnread s ev) := by
    intro s ev t hev hs ht
    obtain ⟨u, hu, hstep⟩ := hs.step txBuf (hfits ev hev)
    obtain rfl := Option.some.inj (hu.symm.trans ht)
    exact hstep
  rw [run_guarded_iff hstep hquiet.sound hrun]
  exact and_iff_right hquiet.frames

/-- A port that has sent nothing. -/
def quietSystem : TxSystem := ⟨⟨fun _ => 0, ⟨0, 0, 0⟩, false, [], []⟩, []⟩

theorem quiet_quietSystem : quietSystem.Quiet := ⟨rfl, rfl, rfl, rfl⟩

/-- Two frames, with one byte of the first one read before the second call. -/
def hurriedEvents : List TxEvent :=
  [.send 0xa0000000 (fun _ => 1) 8, .fetch, .send 0xa0000000 (fun _ => 2) 8]

theorem wire_eq_sent_iff_hurried : ∃ t, run (txStep 0x80001000) quietSystem hurriedEvents = some t ∧
    t.port.frames.map List.length = t.sent.map List.length ∧
    (t.port.frames = t.sent ↔
      Guarded (txStep 0x80001000) KeepsUnread quietSystem hurriedEvents) :=
  wire_eq_sent_iff 0x80001000 quiet_quietSystem (by decide)

end PrplHypervisor.Drivers
