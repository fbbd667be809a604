import PrplHypervisor.Drivers.EthernetReceive

/-! Runs of the receive ring.  Every run of the controller, the calls of the guest and the watchdog
is a run of `RxQueue`, so that no frame is returned twice or out of order, and the counter of the
buffers in use is right as long as the link loses no frame. -/

namespace PrplHypervisor.Drivers

open Kernel Lib.Ring Lib.Words Lib.Runs

variable {b : RxPlaces} {f : Frame} {fs : List Frame} {k : Nat} {p p' : RxPort}

/-! ### An engine -/

/-- The place of the descriptor `i` from `fill` on. -/
def RxPort.place (p : RxPort) (i : Nat) : Nat :=
  (i + (RX_DESCRIPTORS.toNat - p.fill.toNat)) % RX_DESCRIPTORS.toNat

/-- The data bytes of the `k`-th descriptor of a frame. -/
def Frame.bytecnt (f : Frame) (k : Nat) : Nat :=
  if k + 1 < f.descriptors then RX_BYTES_PER_DESC else f.bytes.length - RX_BYTES_PER_DESC * k

/-- The `k`-th descriptor of a frame, given to the driver. -/
def Frame.fillDesc (f : Frame) (k : Nat) (desc : EthDesc) : EthDesc where
  hdr := (UInt32.ofNat (f.bytecnt k) <<< 16) ||| if k + 1 < f.descriptors then 0 else 0x40000000
  paddr := desc.paddr
  status := UInt32.ofNat f.bytes.length

/-- The bytes of a frame, spread over the buffers from `fill` on. -/
def RxPort.storeBytes (b : RxPlaces) (p : RxPort) (f : Frame) (a : UInt32) : UInt8 :=
  let i := (a - b.paddr 0).toNat
  let j := RX_BYTES_PER_DESC * p.place (i / RX_BYTES_PER_DESC) + i % RX_BYTES_PER_DESC
  if i < RX_BYTES_PER_DESC * RX_DESCRIPTORS.toNat ∧ j < f.bytes.length then f.byte j else p.mem a

/-- The descriptors with a frame from `fill` on. -/
def RxPort.storeDesc (p : RxPort) (f : Frame) (i : Nat) : EthDesc :=
  if i < RX_DESCRIPTORS.toNat ∧ p.place i < f.descriptors then
    f.fillDesc (p.place i) (p.rx.rxDesc i)
  else p.rx.rxDesc i

/-- The engine stores a frame when it owns enough descriptors. -/
def engineStore (b : RxPlaces) (p : RxPort) (f : Frame) : Option RxPort :=
  if ∀ k < f.descriptors,
      DESC_EOWN (p.rx.rxDesc ((p.fill.toNat + k) % RX_DESCRIPTORS.toNat)) then
    some { p with
      mem := p.storeBytes b f
      rx := { p.rx with rxDesc := p.storeDesc f }
      fill := UInt32.ofNat ((p.fill.toNat + f.descriptors) % RX_DESCRIPTORS.toNat)
      bufcInc := p.bufcInc + f.descriptors }
  else none

theorem RxPort.place_slot (h : p.fill < RX_DESCRIPTORS) (hk : k < RX_DESCRIPTORS.toNat) :
    p.place ((p.fill.toNat + k) % RX_DESCRIPTORS.toNat) = k := by
  rw [UInt32.lt_iff_toNat_lt] at h
  rw [RxPort.place, Nat.mod_add_mod]
  rw [show RX_DESCRIPTORS.toNat = 48 from rfl] at h hk ⊢
  omega

theorem RxPort.slot_place (h : p.fill < RX_DESCRIPTORS) {i : Nat} (hi : i < RX_DESCRIPTORS.toNat) :
    (p.fill.toNat + p.place i) % RX_DESCRIPTORS.toNat = i := by
  rw [UInt32.lt_iff_toNat_lt] at h
  rw [RxPort.place, Nat.add_mod_mod]
  rw [show RX_DESCRIPTORS.toNat = 48 from rfl] at h hi ⊢
  omega

theorem Frame.bytecnt_le (f : Frame) (k : Nat) : f.bytecnt k ≤ RX_BYTES_PER_DESC := by
  rw [Frame.bytecnt]
  split_ifs with hinner
  · exact le_refl _
  · simp only [Frame.descriptors, RX_BYTES_PER_DESC] at hinner ⊢
    omega

theorem Frame.fillDesc_spec (f : Frame) (k : Nat) (desc : EthDesc) :
    (DESC_BYTECNT (f.fillDesc k desc)).toNat = f.bytecnt k ∧
      ¬DESC_EOWN (f.fillDesc k desc) ∧
      (DESC_EOP (f.fillDesc k desc) ↔ ¬k + 1 < f.descriptors) := by
  have hlt : f.bytecnt k < 2 ^ 11 := (f.bytecnt_le k).trans_lt (by decide)
  have hclear : ∀ {m : UInt32} {j : Nat}, m.toNat = 2 ^ j → j < 16 ∨ 11 + 16 ≤ j →
      ¬HasBits (UInt32.ofNat (f.bytecnt k) <<< 16) m := fun hm hj =>
    not_hasBits_field (k := 16) hlt rfl (by decide) (by decide) hm hj
  rw [DESC_EOWN, DESC_EOP, Frame.fillDesc]
  refine ⟨bytecnt_of_hdr hlt ?_ rfl, ?_, ?_⟩
  · split <;> rfl
  · rw [hasBits_or, not_or]
    refine ⟨hclear (j := 7) rfl (by decide), ?_⟩
    split <;> decide
  · rw [hasBits_or, or_iff_right (hclear (j := 30) rfl (by decide))]
    split_ifs with hinner
    · exact iff_of_false (by decide) (not_not_intro hinner)
    · exact iff_of_true (by decide) hinner

/-- The place of an address in the buffers. -/
theorem RxPlaces.offset (b : RxPlaces) {i j : Nat} (hi : i < RX_DESCRIPTORS.toNat)
    (hj : j < RX_BYTES_PER_DESC) :
    (b.paddr i + UInt32.ofNat j - b.paddr 0).toNat = RX_BYTES_PER_DESC * i + j := by
  have hplace := b.toNat_paddr hi
  have hfirst := b.toNat_paddr (i := 0) (by decide)
  have hsegment := b.segment
  rw [Nat.zero_mul, Nat.add_zero] at hfirst
  simp only [RX_BYTES_PER_DESC, show RX_DESCRIPTORS.toNat = 48 from rfl] at *
  have hsum : (b.paddr i + UInt32.ofNat j).toNat = b.rxBuf.toNat % 2 ^ 29 + i * 128 + j := by
    rw [UInt32.toNat_add, hplace, UInt32.toNat_ofNat_of_lt' (hj.trans (by decide)),
      Nat.mod_eq_of_lt (by omega)]
  rw [UInt32.toNat_sub_of_le _ _ (by rw [UInt32.le_iff_toNat_le, hsum, hfirst]; omega), hsum,
    hfirst]
  omega

theorem storeDesc_slot (h : p.fill < RX_DESCRIPTORS) (hk : k < f.descriptors) :
    p.storeDesc f ((p.fill.toNat + k) % RX_DESCRIPTORS.toNat) =
      f.fillDesc k (p.rx.rxDesc ((p.fill.toNat + k) % RX_DESCRIPTORS.toNat)) := by
  have hplace := RxPort.place_slot h (hk.trans (f.descriptors_le.trans_lt (by decide)))
  rw [RxPort.storeDesc, hplace, if_pos ⟨Nat.mod_lt _ (by decide), hk⟩]

theorem storeBytes_slot (hlaid : Laid b p) (hk : k < f.descriptors) {j : Nat}
    (hj : j < f.bytecnt k) :
    p.storeBytes b f (b.paddr ((p.fill.toNat + k) % RX_DESCRIPTORS.toNat) + UInt32.ofNat j) =
      f.byte (RX_BYTES_PER_DESC * k + j) := by
  have hplace := RxPort.place_slot hlaid.fill (hk.trans (f.descriptors_le.trans_lt (by decide)))
  have hlt : (p.fill.toNat + k) % RX_DESCRIPTORS.toNat < RX_DESCRIPTORS.toNat :=
    Nat.mod_lt _ (by decide)
  have hpage : j < RX_BYTES_PER_DESC := hj.trans_le (f.bytecnt_le k)
  have hbytes : RX_BYTES_PER_DESC * k + j < f.bytes.length := by
    rw [Frame.bytecnt] at hj
    split_ifs at hj with hinner
    · simp only [Frame.descriptors, RX_BYTES_PER_DESC] at hinner hj ⊢
      omega
    · omega
  have hdiv : ∀ n, (RX_BYTES_PER_DESC * n + j) / RX_BYTES_PER_DESC = n ∧
      (RX_BYTES_PER_DESC * n + j) % RX_BYTES_PER_DESC = j := by
    intro n
    simp only [RX_BYTES_PER_DESC] at hpage ⊢
    omega
  simp only [RxPort.storeBytes, b.offset hlt hpage, (hdiv _).1, (hdiv _).2, hplace]
  refine if_pos ⟨?_, hbytes⟩
  simp only [RX_BYTES_PER_DESC, show RX_DESCRIPTORS.toNat = 48 from rfl] at hlt hpage ⊢
  omega

theorem storeBytes_other (hlaid : Laid b p) {a : UInt32}
    (ha : ∀ k < f.descriptors, ∀ i < RX_BYTES_PER_DESC,
      a ≠ b.paddr ((p.fill.toNat + k) % RX_DESCRIPTORS.toNat) + UInt32.ofNat i) :
    p.storeBytes b f a = p.mem a := by
  simp only [RxPort.storeBytes]
  refine if_neg fun ⟨hi, hj⟩ => ?_
  set i := (a - b.paddr 0).toNat with hoffset
  have hslot : i / RX_BYTES_PER_DESC < RX_DESCRIPTORS.toNat := by
    simp only [RX_BYTES_PER_DESC] at hi ⊢
    omega
  have hpage : i % RX_BYTES_PER_DESC < RX_BYTES_PER_DESC := Nat.mod_lt _ (by decide)
  refine ha (p.place (i / RX_BYTES_PER_DESC)) ?_ _ hpage ?_
  · rw [Frame.descriptors]
    simp only [RX_BYTES_PER_DESC] at hj ⊢
    omega
  · rw [RxPort.slot_place hlaid.fill hslot]
    have hback := b.offset hslot hpage
    rw [Nat.div_add_mod, hoffset, UInt32.toNat_inj] at hback
    exact (UInt32.sub_left_inj _).mp hback.symm

theorem holdsFrame_engineStore (hlaid : Laid b p) :
    HoldsFrame (p.storeBytes b f) { p.rx with rxDesc := p.storeDesc f, receiveIndex := p.fill }
      f.byte f.bytes.length f.descriptors := by
  have hpos := f.descriptors_pos
  have hfits := f.fits
  have hdesc := fun k (hk : k < f.descriptors) => storeDesc_slot hlaid.fill hk
  have hspec := fun k => f.fillDesc_spec k
    (p.rx.rxDesc ((p.fill.toNat + k) % RX_DESCRIPTORS.toNat))
  have hlast : f.descriptors - 1 < f.descriptors := by omega
  refine ⟨hlaid.fill, hpos, ?_, ?_, ?_, fun k hk => ?_, fun k hk => ?_, ?_, fun k hk => ?_, ?_,
    fun k hk i hi => ?_⟩
  · simp only [Frame.descriptors, RX_BYTES_PER_DESC]
    omega
  · simp only [Frame.descriptors, RX_BYTES_PER_DESC]
    omega
  · show (DESC_FRAMESZ (p.storeDesc f ((p.fill.toNat + 0) % RX_DESCRIPTORS.toNat))).toNat = _
    rw [hdesc 0 hpos, DESC_FRAMESZ, toNat_and_low (k := 16) rfl]
    rw [MTU] at hfits
    show (UInt32.ofNat f.bytes.length).toNat % 2 ^ 16 = _
    rw [UInt32.toNat_ofNat_of_lt' (hfits.trans_lt (by decide))]
    omega
  · show ¬DESC_EOWN (p.storeDesc f ((p.fill.toNat + k) % RX_DESCRIPTORS.toNat))
    rw [hdesc k hk]
    exact (hspec k).2.1
  · show (DESC_BYTECNT (p.storeDesc f ((p.fill.toNat + k) % RX_DESCRIPTORS.toNat))).toNat = _
    rw [hdesc k (by omega), (hspec k).1, Frame.bytecnt, if_pos (by omega)]
  · show (DESC_BYTECNT (p.storeDesc f ((p.fill.toNat + _) % RX_DESCRIPTORS.toNat))).toNat = _
    rw [hdesc _ hlast, (hspec _).1, Frame.bytecnt, if_neg (by omega)]
  · show ¬DESC_EOP (p.storeDesc f ((p.fill.toNat + k) % RX_DESCRIPTORS.toNat))
    rw [hdesc k (by omega), (hspec k).2.2]
    omega
  · show DESC_EOP (p.storeDesc f ((p.fill.toNat + _) % RX_DESCRIPTORS.toNat))
    rw [hdesc _ hlast, (hspec _).2.2]
    omega
  · change i < (DESC_BYTECNT (p.storeDesc f ((p.fill.toNat + k) % RX_DESCRIPTORS.toNat))).toNat
      at hi
    show p.storeBytes b f
      ((p.storeDesc f ((p.fill.toNat + k) % RX_DESCRIPTORS.toNat)).paddr + _) = _
    rw [hdesc k hk] at hi ⊢
    rw [(hspec k).1] at hi
    show p.storeBytes b f ((p.rx.rxDesc ((p.fill.toNat + k) % RX_DESCRIPTORS.toNat)).paddr + _) = _
    rw [hlaid.paddr _ (Nat.mod_lt _ (by decide))]
    exact storeBytes_slot hlaid hk hi

theorem stores_engineStore (hlaid : Laid b p) (h : engineStore b p f = some p') :
    Stores p f p' := by
  rw [engineStore] at h
  split_ifs at h with hfree
  obtain rfl := Option.some.inj h
  have hmod : ∀ k, (p.fill.toNat + k) % RX_DESCRIPTORS.toNat < RX_DESCRIPTORS.toNat :=
    fun k => Nat.mod_lt _ (by decide)
  refine ⟨hfree, ?_, fun i => ?_, fun i hi => ?_, fun a ha => storeBytes_other hlaid ?_, rfl, rfl,
    UInt32.toNat_ofNat_of_lt' ((hmod _).trans (by decide)), rfl⟩
  · exact holdsFrame_engineStore hlaid
  · show (p.storeDesc f i).paddr = _
    rw [RxPort.storeDesc]
    split_ifs <;> rfl
  · refine if_neg fun ⟨hlt, hplace⟩ => hi _ hplace ?_
    exact (RxPort.slot_place hlaid.fill hlt).symm
  · intro k hk i hi
    rw [← hlaid.paddr _ (hmod k)]
    exact ha k hk i hi

def ringEngine (b : RxPlaces) : RxEngine b := ⟨engineStore b, stores_engineStore⟩

/-- The buffers from `0xa0010000` on. -/
def somePlaces : RxPlaces := ⟨0xa0010000, 0xa0020000, by decide⟩

/-! ### Runs -/

/-- The port does what the queue says, and the counter of the buffers in use counts those of the
frames that wait and of the frames that the link has lost. -/
structure Implements (b : RxPlaces) (s : RxSystem) (q : RxQueue) : Prop where
  isUp : s.port.rx.isUp = q.isUp
  rxen : s.port.rxen = q.isUp
  received : s.received = q.received
  ring : q.isUp = true → InRing b s.port q.pending
  down : q.isUp = false → q.pending = []
  bufc : s.port.bufcInc = s.port.rx.bufcDec + descriptors q.pending + descriptors q.lost

/-- The port after `en_init`. -/
structure RxSystem.Started (s : RxSystem) : Prop where
  isUp : s.port.rx.isUp = false
  rxen : s.port.rxen = false
  received : s.received = []
  bufc : s.port.bufcInc = s.port.rx.bufcDec

def RxQueue.start : RxQueue := ⟨false, [], [], []⟩

variable {sys sys' : RxSystem} {q q' : RxQueue} {ev : RxEvent}
  {es : List RxEvent}

theorem RxSystem.Started.implements (h : sys.Started) : Implements b sys .start where
  isUp := h.isUp
  rxen := h.rxen
  received := h.received
  ring hup := Bool.noConfusion hup
  down _ := rfl
  bufc := h.bufc

@[simp] theorem lost_taken (q : RxQueue) (f : Frame) (fs : List Frame) (buffer : Nat → UInt8) :
    (q.taken f fs buffer).lost = q.lost := by
  simp [RxQueue.lost, RxQueue.taken]

@[simp] theorem lost_down (q : RxQueue) : q.down.lost = q.lost ++ q.pending := by
  simp [RxQueue.lost, RxQueue.down, List.filter_map, Function.comp_def]

/-- A call on an empty ring, or with the link down. -/
theorem Implements.input_none (h : Implements b sys q) (hnone : q.pending = []) (frame : UInt32)
    (buffer : Nat → UInt8) :
    ∃ rx, enLlInput sys.port.mem frame RX_DESCRIPTORS.toNat sys.port.rx buffer =
        some (0, rx, buffer) ∧
      Implements b (sys.returned rx ⟨0, buffer, buffer⟩)
        { q with received := q.received ++ [⟨0, buffer, buffer⟩] } := by
  have hcall : sys.port.rx.isUp = false ∨ InRing b sys.port [] := by
    rw [h.isUp, ← hnone]
    cases hup : q.isUp with
    | false => exact Or.inl rfl
    | true => exact Or.inr (h.ring hup)
  refine ⟨_, enLlInput_none hcall frame buffer, h.isUp, h.rxen, ?_, fun hup => ?_, h.down, h.bufc⟩
  · exact congrArg (· ++ [_]) h.received
  · have hring := h.ring hup
    exact ⟨hring.paddr, hring.index, hring.fill, hring.room, hring.free,
      hring.frames.congr rfl (fun _ _ => rfl) fun _ _ _ _ => rfl⟩

/-- Every call returns, with what the queue says. -/
theorem Implements.input (engine : RxEngine b) (h : Implements b sys q) (frame : UInt32)
    (buffer : Nat → UInt8) :
    ∃ t q', rxStep engine sys (.input frame buffer) = some t ∧
      q.step (.input frame buffer) = some q' ∧ Implements b t q' := by
  cases hpending : q.pending with
  | nil =>
    obtain ⟨rx, hcall, himp⟩ := h.input_none hpending frame buffer
    exact ⟨_, _, by rw [rxStep, hcall]; rfl, by rw [RxQueue.step, hpending], himp⟩
  | cons f fs =>
    have hup : q.isUp = true := by
      by_contra hdown
      rw [h.down (Bool.eq_false_iff.mpr hdown)] at hpending
      cases hpending
    have hring := h.ring hup
    have hbufc := h.bufc
    rw [hpending] at hring hbufc
    rw [descriptors_cons] at hbufc
    obtain ⟨rx, hcall, hisUp, hdec, hrest⟩ := hring.input (h.isUp.trans hup) frame buffer
    refine ⟨sys.returned rx (f.receipt buffer), q.taken f fs buffer, by rw [rxStep, hcall]; rfl,
      by rw [RxQueue.step, hpending], hisUp.trans hup.symm, h.rxen, ?_, fun _ => hrest,
      fun hdown => ?_, ?_⟩
    · exact congrArg (· ++ [_]) h.received
    · exact absurd (hup.symm.trans hdown) Bool.noConfusion
    · rw [lost_taken]
      show sys.port.bufcInc = rx.bufcDec + descriptors fs + descriptors q.lost
      omega

theorem Implements.watchdog (h : Implements b sys q) (isUp : Bool) :
    ∃ q', q.step (.watchdog isUp) = some q' ∧
      Implements b { sys with port := enWatchdog b isUp sys.port } q' := by
  refine ⟨_, rfl, ?_⟩
  cases isUp with
  | true =>
    rw [if_pos rfl]
    cases hup : q.isUp with
    | true =>
      have hring := h.ring hup
      rw [enWatchdog_up (h.rxen.trans hup)]
      exact ⟨rfl, h.rxen.trans hup, h.received, fun _ => ⟨hring.paddr, hring.index, hring.fill,
        hring.room, hring.free, hring.frames.congr rfl (fun _ _ => rfl) fun _ _ _ _ => rfl⟩,
        fun hdown => Bool.noConfusion hdown, h.bufc⟩
    | false =>
      have hring := inRing_enSetupDma b { sys.port with rx := { sys.port.rx with isUp := true } }
      have hnone := h.down hup
      rw [enWatchdog_start (h.rxen.trans hup)]
      refine ⟨rfl, rfl, h.received, fun _ => ?_, fun hdown => Bool.noConfusion hdown, h.bufc⟩
      show InRing b _ q.pending
      rw [hnone]
      exact ⟨hring.paddr, hring.index, hring.fill, hring.room, hring.free, trivial⟩
  | false =>
    rw [if_neg Bool.false_ne_true, enWatchdog_down]
    refine ⟨rfl, rfl, h.received, fun hup => Bool.noConfusion hup, fun _ => rfl, ?_⟩
    rw [lost_down, descriptors_append, ← Nat.add_assoc]
    show sys.port.bufcInc = sys.port.rx.bufcDec + 0 + descriptors q.lost + descriptors q.pending
    rw [h.bufc, Nat.add_zero, Nat.add_right_comm]

/-- The frames that an event loses. -/
def RxQueue.losing (q : RxQueue) : RxEvent → List Frame
  | .watchdog false => q.pending
  | _ => []

theorem RxQueue.step_lost (hstep : q.step ev = some q') : q'.lost = q.lost ++ q.losing ev := by
  cases ev with
  | stored f =>
    rw [RxQueue.step] at hstep
    split_ifs at hstep
    obtain rfl := Option.some.inj hstep
    exact (List.append_nil _).symm
  | input frame buffer =>
    cases hpending : q.pending with
    | nil =>
      rw [RxQueue.step, hpending] at hstep
      obtain rfl := Option.some.inj hstep
      exact (List.append_nil _).symm
    | cons f fs =>
      rw [RxQueue.step, hpending] at hstep
      obtain rfl := Option.some.inj hstep
      simp [RxQueue.losing]
  | watchdog isUp =>
    obtain rfl := Option.some.inj hstep
    cases isUp with
    | true => exact (List.append_nil _).symm
    | false => exact lost_down q

theorem rxStep_refines (engine : RxEngine b) (h : Implements b sys q)
    (hstep : rxStep engine sys ev = some sys') :
    ∃ q', q.step ev = some q' ∧ Implements b sys' q' := by
  cases ev with
  | stored f =>
    rw [rxStep] at hstep
    split_ifs at hstep with hrxen
    obtain ⟨p, hstore, rfl⟩ := Option.map_eq_some_iff.mp hstep
    have hup : q.isUp = true := h.rxen.symm.trans hrxen
    have hst := engine.contract (h.ring hup).laid hstore
    have hbufc := h.bufc
    refine ⟨{ q with pending := q.pending ++ [f] }, by rw [RxQueue.step, if_pos hup], ?_,
      hst.rxen.trans h.rxen, h.received, fun _ => (h.ring hup).stored hst, fun hdown => ?_, ?_⟩
    · show p.rx.isUp = q.isUp
      rw [hst.rx]
      exact h.isUp
    · exact absurd (hup.symm.trans hdown) Bool.noConfusion
    · show p.bufcInc = p.rx.bufcDec + descriptors (q.pending ++ [f]) + descriptors q.lost
      have hdec : p.rx.bufcDec = sys.port.rx.bufcDec := by rw [hst.rx]
      rw [hst.bufcInc, hdec, descriptors_append, descriptors_cons, descriptors_nil]
      omega
  | input frame buffer =>
    obtain ⟨t, q', ht, hq, himp⟩ := h.input engine frame buffer
    obtain rfl := Option.some.inj (ht.symm.trans hstep)
    exact ⟨q', hq, himp⟩
  | watchdog isUp =>
    obtain rfl := Option.some.inj hstep
    exact h.watchdog isUp

/-! ### Each frame once -/

theorem RxQueue.step_frames (hstep : q.step ev = some q') :
    q'.gone.map Prod.fst ++ q'.pending =
      q.gone.map Prod.fst ++ q.pending ++ storedFrames [ev] := by
  cases ev with
  | stored f =>
    rw [RxQueue.step] at hstep
    split_ifs at hstep
    obtain rfl := Option.some.inj hstep
    exact (List.append_assoc _ _ _).symm
  | input frame buffer =>
    cases hpending : q.pending with
    | nil =>
      rw [RxQueue.step, hpending] at hstep
      obtain rfl := Option.some.inj hstep
      simp [storedFrames]
    | cons f fs =>
      rw [RxQueue.step, hpending] at hstep
      obtain rfl := Option.some.inj hstep
      simp [storedFrames, RxQueue.taken]
  | watchdog isUp =>
    obtain rfl := Option.some.inj hstep
    cases isUp <;> simp [storedFrames, RxQueue.down, Function.comp_def]

/-- Every frame that was stored has gone or waits, in the order of the controller. -/
theorem RxQueue.run_frames (hrun : run RxQueue.step q es = some q') :
    q'.gone.map Prod.fst ++ q'.pending = q.gone.map Prod.fst ++ q.pending ++ storedFrames es := by
  induction es generalizing q with
  | nil =>
    obtain rfl := Option.some.inj hrun
    simp [storedFrames]
  | cons ev es ih =>
    obtain ⟨t, ht, hrest⟩ := exists_of_run_cons hrun
    rw [ih hrest, RxQueue.step_frames ht, List.append_assoc]
    simp only [storedFrames, ← List.filterMap_append, List.singleton_append]

theorem Frame.receipt_size (f : Frame) (buffer : Nat → UInt8) : (f.receipt buffer).size ≠ 0 := by
  have hheader := f.header
  have hfits := f.fits
  rw [MAC_ADDRESS_SIZE] at hheader
  rw [MTU] at hfits
  intro hzero
  have hnat := congrArg UInt32.toNat hzero
  rw [Frame.receipt, UInt32.toNat_ofNat_of_lt' (hfits.trans_lt (by decide)),
    UInt32.toNat_zero] at hnat
  omega

/-- The calls that have not returned zero are those that have returned a frame, in order. -/
def RxQueue.Answered (q : RxQueue) : Prop :=
  List.Forall₂ (fun f r => r = f.receipt r.before) q.returned
    (q.received.filter fun r => r.size ≠ 0)

theorem RxQueue.answered_start : RxQueue.start.Answered := List.Forall₂.nil

theorem RxQueue.Answered.step (h : q.Answered) (hstep : q.step ev = some q') : q'.Answered := by
  cases ev with
  | stored f =>
    rw [RxQueue.step] at hstep
    split_ifs at hstep
    obtain rfl := Option.some.inj hstep
    exact h
  | input frame buffer =>
    cases hpending : q.pending with
    | nil =>
      rw [RxQueue.step, hpending] at hstep
      obtain rfl := Option.some.inj hstep
      simpa [RxQueue.Answered, RxQueue.returned] using h
    | cons f fs =>
      rw [RxQueue.step, hpending] at hstep
      obtain rfl := Option.some.inj hstep
      have hlast : List.Forall₂ (fun f r => r = f.receipt r.before) [f] [f.receipt buffer] :=
        List.Forall₂.cons rfl List.Forall₂.nil
      simpa [RxQueue.Answered, RxQueue.returned, RxQueue.taken, f.receipt_size] using
        List.rel_append h hlast
  | watchdog isUp =>
    obtain rfl := Option.some.inj hstep
    cases isUp with
    | true => exact h
    | false =>
      simpa [RxQueue.Answered, RxQueue.returned, RxQueue.down, List.filter_map,
        Function.comp_def] using h

/-- In every run of the controller, the guests' calls and the watchdog, each frame that the
controller has stored waits in the ring, or was returned by one call, or was lost when the link went
down, in the order in which they were stored.  A call returns as long as the ring is set up, a size
other than zero exactly for a frame, and of a frame the bytes that `en_ll_input` copies. -/
theorem rx_exactly_once (engine : RxEngine b) (hstart : sys.Started)
    (hrun : run (rxStep engine) sys es = some sys') :
    ∃ q, run RxQueue.step .start es = some q ∧ Implements b sys' q ∧
      q.gone.map Prod.fst ++ q.pending = storedFrames es ∧
      List.Forall₂ (fun f r => r = f.receipt r.before) q.returned
        (sys'.received.filter fun r => r.size ≠ 0) ∧
      ∀ frame buffer, ∃ t, rxStep engine sys' (.input frame buffer) = some t := by
  obtain ⟨q, hq, himp⟩ := run_refines (fun _ _ _ _ => rxStep_refines engine)
    hstart.implements hrun
  have hanswered : q.Answered :=
    run_invariant (fun _ _ _ h hstep => h.step hstep) RxQueue.answered_start hq
  refine ⟨q, hq, himp, RxQueue.run_frames hq, himp.received ▸ hanswered, fun frame buffer => ?_⟩
  obtain ⟨t, -, ht, -⟩ := himp.input engine frame buffer
  exact ⟨t, ht⟩

/-- The port before the watchdog has found the link up. -/
def startedSystem : RxSystem where
  port := ⟨fun _ => 0, ⟨false, fun _ => ⟨0, 0, 0⟩, 0, 0, 0, 0, 0, 0⟩, false, 0, 0⟩
  received := []

theorem started_startedSystem : startedSystem.Started := ⟨rfl, rfl, rfl, rfl⟩

/-- A frame of `n` bytes. -/
def countingFrame (n : Nat) (hheader : MAC_ADDRESS_SIZE ≤ n) (hfits : n ≤ MTU) : Frame where
  bytes := (List.range n).map UInt8.ofNat
  header := by rwa [List.length_map, List.length_range]
  fits := by rwa [List.length_map, List.length_range]

/-- The link comes up, two frames arrive, a call takes the first one, and the link goes down. -/
def linkEvents : List RxEvent :=
  [.watchdog true, .stored (countingFrame 130 (by decide) (by decide)),
    .stored (countingFrame 64 (by decide) (by decide)), .input 0x9d000000 fun _ => 0,
    .watchdog false]

theorem linkEvents_defined :
    (run (rxStep (ringEngine somePlaces)) startedSystem linkEvents).isSome := by
  decide +kernel

theorem rx_exactly_once_link : ∃ q, run RxQueue.step .start linkEvents = some q ∧
    q.gone.map Prod.fst ++ q.pending = storedFrames linkEvents := by
  obtain ⟨sys, hrun⟩ := Option.isSome_iff_exists.mp linkEvents_defined
  obtain ⟨q, hq, -, hframes, -⟩ :=
    rx_exactly_once (ringEngine somePlaces) started_startedSystem hrun
  exact ⟨q, hq, hframes⟩

/-! ### The counter of the buffers in use -/

/-- How many descriptors the driver owns. -/
def RxPort.inUse (p : RxPort) : Nat :=
  ((Finset.range RX_DESCRIPTORS.toNat).filter fun i => ¬DESC_EOWN (p.rx.rxDesc i)).card

/-- How many descriptors the driver has to give back: none when it does not receive, where those of
the frames that are lost stay without EOWN until `en_setup_dma`. -/
def RxPort.owed (p : RxPort) : Nat := if p.rxen then p.inUse else 0

/-- The descriptors that the driver owns are those of the frames that wait. -/
theorem InRing.inUse (h : InRing b p fs) : p.inUse = descriptors fs := by
  have hroom := h.room
  have hslots : ((Finset.range RX_DESCRIPTORS.toNat).filter fun i =>
      ¬DESC_EOWN (p.rx.rxDesc i)) = (Finset.range (descriptors fs)).image p.rx.slot := by
    ext i
    simp only [Finset.mem_filter, Finset.mem_range, Finset.mem_image]
    constructor
    · rintro ⟨hi, hown⟩
      obtain ⟨k, hk, rfl⟩ := p.rx.exists_slot hi
      refine ⟨k, ?_, rfl⟩
      by_contra hle
      exact hown (h.free k (Nat.le_of_not_lt hle) hk)
    · rintro ⟨k, hk, rfl⟩
      exact ⟨p.rx.slot_lt k, h.frames.owned hk⟩
  rw [RxPort.inUse, hslots, Finset.card_image_of_injOn, Finset.card_range]
  intro j hj k hk heq
  simp only [Finset.coe_range, Set.mem_Iio] at hj hk
  exact (Rx.slot_inj (hj.trans_le hroom) (hk.trans_le hroom)).mp heq

theorem Implements.owed (h : Implements b sys q) : sys.port.owed = descriptors q.pending := by
  rw [RxPort.owed, h.rxen]
  cases hup : q.isUp with
  | true => exact (h.ring hup).inUse
  | false => rw [h.down hup]; rfl

/-- The watchdog does not find the link down while frames wait. -/
def LosesNone (s : RxSystem) : RxEvent → Prop
  | .watchdog false => s.port.owed = 0
  | _ => True

theorem Implements.losesNone (h : Implements b sys q) :
    LosesNone sys ev ↔ descriptors (q.losing ev) = 0 := by
  cases ev with
  | stored f => exact iff_of_true trivial rfl
  | input frame buffer => exact iff_of_true trivial rfl
  | watchdog isUp =>
    cases isUp with
    | true => exact iff_of_true trivial rfl
    | false => rw [LosesNone, h.owed, RxQueue.losing]

/-- In every run the driver has decremented the counter of the buffers in use once for each
descriptor that the controller has counted, up to those that it has to give back, exactly when the
link never went down while frames waited: those of the frames that are lost stay in the counter. -/
theorem rx_counter_iff (engine : RxEngine b) (hstart : sys.Started)
    (hrun : run (rxStep engine) sys es = some sys') :
    sys'.port.bufcInc = sys'.port.rx.bufcDec + sys'.port.owed ↔
      Guarded (rxStep engine) LosesNone sys es := by
  have howed : sys.port.owed = 0 := by rw [RxPort.owed, hstart.rxen]; rfl
  have hstep : ∀ s ev t, ev ∈ es → (∃ q, Implements b s q) → rxStep engine s ev = some t →
      (∃ q, Implements b t q) ∧ (t.port.bufcInc = t.port.rx.bufcDec + t.port.owed ↔
        s.port.bufcInc = s.port.rx.bufcDec + s.port.owed ∧ LosesNone s ev) := by
    rintro s ev t - ⟨q, himp⟩ hs
    obtain ⟨q', hq, himp'⟩ := rxStep_refines engine himp hs
    refine ⟨⟨q', himp'⟩, ?_⟩
    rw [himp'.owed, himp'.bufc, himp.owed, himp.bufc, himp.losesNone, Nat.add_eq_left,
      Nat.add_eq_left, RxQueue.step_lost hq, descriptors_append, Nat.add_eq_zero_iff]
  have hiff := run_guarded_iff hstep ⟨_, hstart.implements⟩ hrun
  rw [hiff, howed, Nat.add_zero]
  exact and_iff_right hstart.bufc

theorem rx_counter_iff_link : ∃ sys, run (rxStep (ringEngine somePlaces)) startedSystem linkEvents =
    some sys ∧ (sys.port.bufcInc = sys.port.rx.bufcDec + sys.port.owed ↔
      Guarded (rxStep (ringEngine somePlaces)) LosesNone startedSystem linkEvents) := by
  obtain ⟨sys, hrun⟩ := Option.isSome_iff_exists.mp linkEvents_defined
  exact ⟨sys, hrun, rx_counter_iff (ringEngine somePlaces) started_startedSystem hrun⟩

end PrplHypervisor.Drivers
