import Mathlib.Algebra.BigOperators.Group.List.Basic
import PrplHypervisor.Drivers.EthernetInput

/-! The receive ring as a queue of frames (`drivers/pic32mz-ethernet.c`, and the same in
`drivers/pic32mz-ethernet-shared.c`).  The controller stores frames in the descriptors that it owns,
the guest calls `receive_frame`, and the watchdog sets the ring up when the link comes up, in any
order.  `RxQueue` says what that amounts to, and every run of the ring is one of the queue. -/

namespace PrplHypervisor.Drivers

open Kernel Lib.Ring Lib.Words Lib.Runs

/-- The next-descriptor pointer is valid. -/
def DESC_SET_NPV (d : EthDesc) : EthDesc := { d with hdr := d.hdr ||| 0x00000100 }

def DESC_CLEAR_NPV (d : EthDesc) : EthDesc := { d with hdr := d.hdr &&& ~~~0x00000100 }

/-- What `en_init` has allocated for the reception.  The buffers are in one segment. -/
structure RxPlaces where
  rxBuf : UInt32
  rxDesc : UInt32
  segment : rxBuf.toNat % 2 ^ 29 + RX_BYTES_PER_DESC * RX_DESCRIPTORS.toNat ≤ 2 ^ 29

/-- The address of the `i`-th buffer for the controller. -/
def RxPlaces.paddr (b : RxPlaces) (i : Nat) : UInt32 :=
  MACH_VIRT_TO_PHYS (b.rxBuf + UInt32.ofNat (i * RX_BYTES_PER_DESC))

/-- The port with what belongs to the controller: whether it receives (`RXEN`), the descriptor that
it fills next, and how often it has incremented the counter of the buffers in use.  `mem` is the
memory by physical addresses. -/
structure RxPort where
  mem : UInt32 → UInt8
  rx : Rx
  rxen : Bool
  fill : UInt32
  bufcInc : Nat

/-- `en_setup_dma`, for the reception. -/
def enSetupDma (b : RxPlaces) (p : RxPort) : RxPort :=
  let rxDesc := fun i =>
    if i < RX_DESCRIPTORS.toNat then
      let desc := { DESC_CLEAR_NPV (DESC_SET_EOWN ⟨0, 0, 0⟩) with paddr := b.paddr i }
      if i = RX_DESCRIPTORS.toNat - 1 then DESC_SET_NPV desc else desc
    else if i = RX_DESCRIPTORS.toNat then ⟨MACH_VIRT_TO_PHYS b.rxDesc, 0, 0⟩
    else p.rx.rxDesc i
  -- `ETHRXST`, where the controller goes on, is the first descriptor; the counter stays
  { p with rx := { p.rx with rxDesc := rxDesc, receiveIndex := 0 }, fill := 0 }

/-- `en_watchdog`, when the PHY says whether the link is up. -/
def enWatchdog (b : RxPlaces) (isUp : Bool) (p : RxPort) : RxPort :=
  let p := { p with rx := { p.rx with isUp := isUp } }
  if isUp ∧ ¬p.rxen then { enSetupDma b p with rxen := true }
  else if ¬isUp ∧ p.rxen then { p with rxen := false }
  else p

/-- The descriptors that the controller takes for a frame. -/
def Frame.descriptors (f : Frame) : Nat :=
  (f.bytes.length + (RX_BYTES_PER_DESC - 1)) / RX_BYTES_PER_DESC

/-- The descriptors that the controller takes for some frames. -/
def descriptors (fs : List Frame) : Nat := (fs.map Frame.descriptors).sum

/-- The descriptors and the buffers are as the driver has set them up. -/
structure Laid (b : RxPlaces) (p : RxPort) : Prop where
  paddr : ∀ i < RX_DESCRIPTORS.toNat, (p.rx.rxDesc i).paddr = b.paddr i
  fill : p.fill < RX_DESCRIPTORS

/-- What it is to store a frame: the controller writes it to the descriptors from `fill` on, which
it owns, and gives them to the driver. -/
structure Stores (p : RxPort) (f : Frame) (p' : RxPort) : Prop where
  free : ∀ k < f.descriptors,
    DESC_EOWN (p.rx.rxDesc ((p.fill.toNat + k) % RX_DESCRIPTORS.toNat))
  holds : HoldsFrame p'.mem { p.rx with rxDesc := p'.rx.rxDesc, receiveIndex := p.fill } f.byte
    f.bytes.length f.descriptors
  paddr : ∀ i, (p'.rx.rxDesc i).paddr = (p.rx.rxDesc i).paddr
  others : ∀ i, (∀ k < f.descriptors, i ≠ (p.fill.toNat + k) % RX_DESCRIPTORS.toNat) →
    p'.rx.rxDesc i = p.rx.rxDesc i
  memory : ∀ a, (∀ k < f.descriptors, ∀ i < RX_BYTES_PER_DESC,
    a ≠ (p.rx.rxDesc ((p.fill.toNat + k) % RX_DESCRIPTORS.toNat)).paddr + UInt32.ofNat i) →
    p'.mem a = p.mem a
  rx : p'.rx = { p.rx with rxDesc := p'.rx.rxDesc }
  rxen : p'.rxen = p.rxen
  fill : p'.fill.toNat = (p.fill.toNat + f.descriptors) % RX_DESCRIPTORS.toNat
  bufcInc : p'.bufcInc = p.bufcInc + f.descriptors

/-- The receive engine of the controller.  It does not store a frame that it has no room for. -/
structure RxEngine (b : RxPlaces) where
  store : RxPort → Frame → Option RxPort
  contract : ∀ {p f p'}, Laid b p → store p f = some p' → Stores p f p'

/-- A call that has returned `size`, with the caller's buffer before and after it. -/
structure Receipt where
  size : UInt32
  before : Nat → UInt8
  after : Nat → UInt8

/-- The port, and the calls that have returned. -/
structure RxSystem where
  port : RxPort
  received : List Receipt

inductive RxEvent
  /-- The controller has stored a frame. -/
  | stored (f : Frame)
  /-- A guest calls `receive_frame`, with a buffer at the address `frame`. -/
  | input (frame : UInt32) (buffer : Nat → UInt8)
  /-- A guest calls `en_watchdog`. -/
  | watchdog (isUp : Bool)

/-- A call has returned, with the driver as it has left it. -/
def RxSystem.returned (s : RxSystem) (rx : Rx) (r : Receipt) : RxSystem where
  port := { s.port with rx := rx }
  received := s.received ++ [r]

def rxStep {b : RxPlaces} (engine : RxEngine b) (s : RxSystem) : RxEvent → Option RxSystem
  | .stored f =>
    if s.port.rxen then (engine.store s.port f).map fun p => { s with port := p } else none
  | .input frame buffer =>
    (enLlInput s.port.mem frame RX_DESCRIPTORS.toNat s.port.rx buffer).map fun x =>
      s.returned x.2.1 ⟨x.1, buffer, x.2.2⟩
  | .watchdog isUp => some { s with port := enWatchdog b isUp s.port }

/-! ### The queue -/

/-- The frames that wait for a call, and those that do not any more, with whether a call has
returned them. -/
structure RxQueue where
  isUp : Bool
  pending : List Frame
  gone : List (Frame × Bool)
  received : List Receipt

/-- What a call says of a frame: the whole size, and the bytes that the driver copies of it. -/
def Frame.receipt (f : Frame) (buffer : Nat → UInt8) : Receipt :=
  ⟨UInt32.ofNat f.bytes.length, buffer, withPrefix f.byte (copied f.bytes.length) buffer⟩

/-- A call has returned the frame `f`, with `fs` behind it. -/
def RxQueue.taken (q : RxQueue) (f : Frame) (fs : List Frame) (buffer : Nat → UInt8) : RxQueue where
  isUp := q.isUp
  pending := fs
  gone := q.gone ++ [(f, true)]
  received := q.received ++ [f.receipt buffer]

/-- The link is down. -/
def RxQueue.down (q : RxQueue) : RxQueue where
  isUp := false
  pending := []
  gone := q.gone ++ q.pending.map (·, false)
  received := q.received

/-- A frame goes to the end, a call takes the first one, and a link that is down loses all of
them. -/
def RxQueue.step (q : RxQueue) : RxEvent → Option RxQueue
  | .stored f => if q.isUp then some { q with pending := q.pending ++ [f] } else none
  | .input _ buffer =>
    match q.pending with
    | [] => some { q with received := q.received ++ [⟨0, buffer, buffer⟩] }
    | f :: fs => some (q.taken f fs buffer)
  | .watchdog isUp => some (if isUp then { q with isUp := true } else q.down)

/-- The frames that the controller has stored. -/
def storedFrames (es : List RxEvent) : List Frame :=
  es.filterMap fun e => match e with
    | .stored f => some f
    | _ => none

/-- The frames that the link has lost. -/
def RxQueue.lost (q : RxQueue) : List Frame := (q.gone.filter fun x => ¬x.2).map Prod.fst

/-- The frames that calls have returned. -/
def RxQueue.returned (q : RxQueue) : List Frame := (q.gone.filter fun x => x.2).map Prod.fst

/-! ### The buffers -/

variable {b : RxPlaces} {mem mem' : UInt32 → UInt8} {e e' : Rx} {f : Frame} {fs : List Frame}
  {bytes : Nat → UInt8} {s n k : Nat} {p p' : RxPort}

theorem toNat_virtToPhys (x : UInt32) : (MACH_VIRT_TO_PHYS x).toNat = x.toNat % 2 ^ 29 :=
  toNat_and_low rfl

theorem RxPlaces.toNat_paddr (b : RxPlaces) {i : Nat} (hi : i < RX_DESCRIPTORS.toNat) :
    (b.paddr i).toNat = b.rxBuf.toNat % 2 ^ 29 + i * RX_BYTES_PER_DESC := by
  have hsegment := b.segment
  rw [RX_BYTES_PER_DESC, show RX_DESCRIPTORS.toNat = 48 from rfl] at hsegment
  rw [show RX_DESCRIPTORS.toNat = 48 from rfl] at hi
  have hoffset : i * RX_BYTES_PER_DESC < 128 * 48 := by
    rw [RX_BYTES_PER_DESC]
    omega
  rw [RxPlaces.paddr, toNat_virtToPhys, UInt32.toNat_add,
    UInt32.toNat_ofNat_of_lt' (hoffset.trans (by decide)),
    Nat.mod_mod_of_dvd _ (Nat.pow_dvd_pow 2 (by decide)), ← Nat.mod_add_mod,
    Nat.mod_eq_of_lt (by omega)]

/-- No two bytes of the buffers have one address. -/
theorem RxPlaces.paddr_inj (b : RxPlaces) {i i' j j' : Nat} (hi : i < RX_DESCRIPTORS.toNat)
    (hi' : i' < RX_DESCRIPTORS.toNat) (hj : j < RX_BYTES_PER_DESC) (hj' : j' < RX_BYTES_PER_DESC)
    (h : b.paddr i + UInt32.ofNat j = b.paddr i' + UInt32.ofNat j') : i = i' := by
  have hsegment := b.segment
  have hbase : ∀ {i j : Nat}, i < RX_DESCRIPTORS.toNat → j < RX_BYTES_PER_DESC →
      (b.paddr i + UInt32.ofNat j).toNat =
        b.rxBuf.toNat % 2 ^ 29 + i * RX_BYTES_PER_DESC + j := by
    intro i j hi hj
    have hplace := b.toNat_paddr hi
    simp only [RX_BYTES_PER_DESC, show RX_DESCRIPTORS.toNat = 48 from rfl]
      at hi hj hplace hsegment ⊢
    rw [UInt32.toNat_add, hplace, UInt32.toNat_ofNat_of_lt' (hj.trans (by decide)),
      Nat.mod_eq_of_lt (by omega)]
  have hnat := congrArg UInt32.toNat h
  rw [hbase hi hj, hbase hi' hj'] at hnat
  simp only [RX_BYTES_PER_DESC] at hnat hj hj'
  omega

/-! ### The frames in the ring -/

/-- The driver when it has got past `n` descriptors. -/
def Rx.skip (e : Rx) (n : Nat) : Rx := { e with receiveIndex := UInt32.ofNat (e.slot n) }

theorem Rx.toNat_skip (e : Rx) (n : Nat) : (e.skip n).receiveIndex.toNat = e.slot n :=
  UInt32.toNat_ofNat_of_lt' ((e.slot_lt n).trans (by decide))

theorem Rx.slot_skip (e : Rx) (n k : Nat) : (e.skip n).slot k = e.slot (n + k) := by
  rw [Rx.slot, e.toNat_skip, Rx.slot, Rx.slot, Nat.mod_add_mod, Nat.add_assoc]

theorem Rx.exists_slot (e : Rx) {i : Nat} (hi : i < RX_DESCRIPTORS.toNat) :
    ∃ k < RX_DESCRIPTORS.toNat, e.slot k = i := by
  refine ⟨(i + (RX_DESCRIPTORS.toNat - e.slot 0)) % RX_DESCRIPTORS.toNat, Nat.mod_lt _ (by decide),
    ?_⟩
  have hslot := e.slot_lt 0
  simp only [Rx.slot, show RX_DESCRIPTORS.toNat = 48 from rfl] at hi hslot ⊢
  omega

theorem Rx.skip_lt (e : Rx) (n : Nat) : (e.skip n).receiveIndex < RX_DESCRIPTORS := by
  rw [UInt32.lt_iff_toNat_lt, e.toNat_skip]
  exact e.slot_lt n

theorem Rx.slot_zero (h : e.receiveIndex < RX_DESCRIPTORS) : e.slot 0 = e.receiveIndex.toNat :=
  Nat.mod_eq_of_lt (UInt32.lt_iff_toNat_lt.mp h)

theorem Rx.skip_zero (h : e.receiveIndex < RX_DESCRIPTORS) : e.skip 0 = e := by
  rw [Rx.skip, Rx.slot_zero h, UInt32.ofNat_toNat]

theorem Rx.skip_skip (e : Rx) (m n : Nat) : (e.skip m).skip n = e.skip (m + n) := by
  rw [Rx.skip, e.slot_skip]
  rfl

/-- The descriptors from `receive_index` on hold the frames, one after the other. -/
def InFrames (mem : UInt32 → UInt8) : Rx → List Frame → Prop
  | _, [] => True
  | e, f :: fs =>
    HoldsFrame mem e f.byte f.bytes.length f.descriptors ∧ InFrames mem (e.skip f.descriptors) fs

@[simp] theorem descriptors_nil : descriptors [] = 0 := rfl

@[simp] theorem descriptors_cons (f : Frame) (fs : List Frame) :
    descriptors (f :: fs) = f.descriptors + descriptors fs := rfl

@[simp] theorem descriptors_append (fs gs : List Frame) :
    descriptors (fs ++ gs) = descriptors fs + descriptors gs := by
  simp [descriptors]

theorem Frame.descriptors_pos (f : Frame) : 0 < f.descriptors := by
  have hheader := f.header
  simp only [Frame.descriptors, RX_BYTES_PER_DESC, MAC_ADDRESS_SIZE] at hheader ⊢
  omega

theorem Frame.descriptors_le (f : Frame) : f.descriptors ≤ 12 := by
  have hfits := f.fits
  simp only [Frame.descriptors, RX_BYTES_PER_DESC, MTU] at hfits ⊢
  omega

/-- What a frame in the ring depends on. -/
theorem HoldsFrame.congr (h : HoldsFrame mem e bytes s n)
    (hindex : e'.receiveIndex = e.receiveIndex)
    (hdesc : ∀ k < n, e'.rxDesc (e.slot k) = e.rxDesc (e.slot k))
    (hmem : ∀ k < n, ∀ i < RX_BYTES_PER_DESC,
      mem' ((e.rxDesc (e.slot k)).paddr + UInt32.ofNat i) =
        mem ((e.rxDesc (e.slot k)).paddr + UInt32.ofNat i)) : HoldsFrame mem' e' bytes s n := by
  have hslot : ∀ k, e'.slot k = e.slot k := fun k => by rw [Rx.slot, Rx.slot, hindex]
  have hcount := h.count
  have hlast : n - 1 < n := by omega
  have hbytecnt : ∀ k < n, (DESC_BYTECNT (e.rxDesc (e.slot k))).toNat ≤ RX_BYTES_PER_DESC := by
    intro k hk
    have hupper := h.upper
    rw [h.bytecnt hk]
    simp only [RX_BYTES_PER_DESC] at hupper ⊢
    split_ifs <;> omega
  refine ⟨hindex ▸ h.index, h.count, h.lower, h.upper, ?_, fun k hk => ?_, fun k hk => ?_, ?_,
    fun k hk => ?_, ?_, fun k hk i hi => ?_⟩
  · rw [hslot, hdesc 0 hcount]
    exact h.size
  · rw [hslot, hdesc k hk]
    exact h.owned k hk
  · rw [hslot, hdesc k (by omega)]
    exact h.full k hk
  · rw [hslot, hdesc _ hlast]
    exact h.last
  · rw [hslot, hdesc k (by omega)]
    exact h.inner k hk
  · rw [hslot, hdesc _ hlast]
    exact h.ends
  · rw [hslot, hdesc k hk] at hi ⊢
    rw [hmem k hk i (hi.trans_le (hbytecnt k hk))]
    exact h.bytes k hk i hi

theorem InFrames.congr (h : InFrames mem e fs) (hindex : e'.receiveIndex = e.receiveIndex)
    (hdesc : ∀ k < descriptors fs, e'.rxDesc (e.slot k) = e.rxDesc (e.slot k))
    (hmem : ∀ k < descriptors fs, ∀ i < RX_BYTES_PER_DESC,
      mem' ((e.rxDesc (e.slot k)).paddr + UInt32.ofNat i) =
        mem ((e.rxDesc (e.slot k)).paddr + UInt32.ofNat i)) : InFrames mem' e' fs := by
  induction fs generalizing e e' with
  | nil => trivial
  | cons f fs ih =>
    rw [descriptors_cons] at hdesc hmem
    refine ⟨h.1.congr hindex (fun k hk => hdesc k (by omega)) fun k hk => hmem k (by omega),
      ih h.2 ?_ (fun k hk => ?_) fun k hk => ?_⟩
    · rw [Rx.skip, Rx.skip, Rx.slot, Rx.slot, hindex]
    · rw [e.slot_skip]
      exact hdesc _ (by omega)
    · rw [e.slot_skip]
      exact hmem _ (by omega)

theorem InFrames.append (h : InFrames mem e fs) (hindex : e.receiveIndex < RX_DESCRIPTORS)
    (hlast : HoldsFrame mem (e.skip (descriptors fs)) f.byte f.bytes.length f.descriptors) :
    InFrames mem e (fs ++ [f]) := by
  induction fs generalizing e with
  | nil =>
    rw [descriptors_nil, Rx.skip_zero hindex] at hlast
    exact ⟨hlast, trivial⟩
  | cons g fs ih =>
    refine ⟨h.1, ih h.2 (e.skip_lt _) ?_⟩
    rw [e.skip_skip]
    exact hlast

/-- The ring when the frames `fs` wait in it. -/
structure InRing (b : RxPlaces) (p : RxPort) (fs : List Frame) : Prop where
  paddr : ∀ i < RX_DESCRIPTORS.toNat, (p.rx.rxDesc i).paddr = b.paddr i
  index : p.rx.receiveIndex < RX_DESCRIPTORS
  fill : p.fill.toNat = p.rx.slot (descriptors fs)
  room : descriptors fs ≤ RX_DESCRIPTORS.toNat
  free : ∀ k, descriptors fs ≤ k → k < RX_DESCRIPTORS.toNat →
    DESC_EOWN (p.rx.rxDesc (p.rx.slot k))
  frames : InFrames p.mem p.rx fs

theorem InRing.laid (h : InRing b p fs) : Laid b p := by
  refine ⟨h.paddr, ?_⟩
  rw [UInt32.lt_iff_toNat_lt, h.fill]
  exact p.rx.slot_lt _

/-- The descriptor that the controller fills `k` places on. -/
theorem InRing.fill_slot (h : InRing b p fs) (k : Nat) :
    (p.fill.toNat + k) % RX_DESCRIPTORS.toNat = p.rx.slot (descriptors fs + k) := by
  rw [h.fill, Rx.slot, Rx.slot, Nat.mod_add_mod, Nat.add_assoc]

theorem Rx.slot_inj {j k : Nat} (hj : j < RX_DESCRIPTORS.toNat) (hk : k < RX_DESCRIPTORS.toNat) :
    e.slot j = e.slot k ↔ j = k :=
  Lib.Ring.slot_inj hj hk

/-- The driver owns the descriptors of the frames that wait. -/
theorem InFrames.owned (h : InFrames mem e fs) (hk : k < descriptors fs) :
    ¬DESC_EOWN (e.rxDesc (e.slot k)) := by
  induction fs generalizing e k with
  | nil => exact absurd hk (Nat.not_lt_zero k)
  | cons f fs ih =>
    by_cases hfirst : k < f.descriptors
    · exact h.1.owned k hfirst
    · have hrest := ih h.2 (k := k - f.descriptors) (by rw [descriptors_cons] at hk; omega)
      rw [e.slot_skip, Nat.add_sub_of_le (Nat.le_of_not_lt hfirst)] at hrest
      exact hrest

/-- The controller does not overrun the frames that wait. -/
theorem InRing.room_of_stores (h : InRing b p fs) (hst : Stores p f p') :
    descriptors fs + f.descriptors ≤ RX_DESCRIPTORS.toNat := by
  by_contra hover
  have hle := f.descriptors_le
  have hroom := h.room
  have hsize : RX_DESCRIPTORS.toNat = 48 := rfl
  -- the controller would have come round to the first descriptor of the frames
  have hfree := hst.free (RX_DESCRIPTORS.toNat - descriptors fs) (by omega)
  have hround : p.rx.slot (descriptors fs + (RX_DESCRIPTORS.toNat - descriptors fs)) =
      p.rx.slot 0 := by
    rw [Rx.slot, Rx.slot, Nat.add_sub_of_le hroom, Nat.add_mod_right, Nat.add_zero]
  rw [h.fill_slot, hround] at hfree
  exact h.frames.owned (by omega) hfree

theorem InRing.stored (h : InRing b p fs) (hst : Stores p f p') : InRing b p' (fs ++ [f]) := by
  have hroom := h.room_of_stores hst
  have hpos := f.descriptors_pos
  have hindex : p'.rx.receiveIndex = p.rx.receiveIndex := by rw [hst.rx]
  have hslot : ∀ k, p'.rx.slot k = p.rx.slot k := fun k => by rw [Rx.slot, Rx.slot, hindex]
  have hfilled : ∀ k < descriptors fs, ∀ j < f.descriptors,
      p.rx.slot k ≠ (p.fill.toNat + j) % RX_DESCRIPTORS.toNat := by
    intro k hk j hj heq
    rw [h.fill_slot, Rx.slot_inj (by omega) (by omega)] at heq
    omega
  refine ⟨fun i hi => ?_, hindex ▸ h.index, ?_, ?_, fun k hle hk => ?_,
    InFrames.append ?_ (hindex ▸ h.index) ?_⟩
  · rw [hst.paddr, h.paddr i hi]
  · rw [hst.fill, h.fill_slot, hslot]
    simp
  · simpa using hroom
  · rw [descriptors_append, descriptors_cons, descriptors_nil] at hle
    rw [hslot, hst.others _ fun j hj heq => ?_]
    · exact h.free k (by omega) hk
    · rw [h.fill_slot, Rx.slot_inj hk (by omega)] at heq
      omega
  · refine h.frames.congr hindex (fun k hk => hst.others _ (hfilled k hk)) fun k hk i hi => ?_
    refine hst.memory _ fun j hj i' hi' heq => hfilled k hk j hj ?_
    rw [h.paddr _ (p.rx.slot_lt k), h.paddr _ (Nat.mod_lt _ (by decide))] at heq
    exact b.paddr_inj (p.rx.slot_lt k) (Nat.mod_lt _ (by decide)) hi hi' heq
  · refine hst.holds.congr ?_ (fun _ _ => rfl) fun _ _ _ _ => rfl
    rw [← UInt32.toNat_inj, Rx.toNat_skip, hslot]
    exact h.fill.symm

/-- What a call leaves of the ring when it has given the descriptors of the first frame back. -/
theorem InRing.released (h : InRing b p (f :: fs)) (hrel : Released p.rx f.descriptors e) :
    InRing b { p with rx := e } fs := by
  have hroom := h.room
  have hslot : ∀ k, e.slot k = p.rx.slot (f.descriptors + k) := by
    intro k
    rw [Rx.slot, hrel.receiveIndex, Rx.slot, Rx.slot, Nat.mod_add_mod, Nat.add_assoc]
  have hkept : ∀ k, f.descriptors ≤ k → k < RX_DESCRIPTORS.toNat →
      e.rxDesc (p.rx.slot k) = p.rx.rxDesc (p.rx.slot k) := by
    intro k hle hk
    rw [hrel.rxDesc, if_neg]
    rintro ⟨j, hj, heq⟩
    rw [Rx.slot_inj hk (by omega)] at heq
    omega
  have hindex : e.receiveIndex = (p.rx.skip f.descriptors).receiveIndex := by
    rw [← UInt32.toNat_inj, hrel.receiveIndex, Rx.toNat_skip]
  rw [descriptors_cons] at hroom
  refine ⟨fun i hi => ?_, hindex ▸ p.rx.skip_lt _, ?_, (by omega), fun k hle hk => ?_, ?_⟩
  · show (e.rxDesc i).paddr = b.paddr i
    rw [hrel.rxDesc]
    split_ifs
    · exact h.paddr i hi
    · exact h.paddr i hi
  · show p.fill.toNat = e.slot (descriptors fs)
    rw [hslot]
    exact h.fill
  · show DESC_EOWN (e.rxDesc (e.slot k))
    rw [hslot]
    by_cases hwrap : f.descriptors + k < RX_DESCRIPTORS.toNat
    · rw [hkept _ (by omega) hwrap]
      exact h.free _ (by rw [descriptors_cons]; omega) hwrap
    · -- one of those that the call has given back
      have hround : p.rx.slot (f.descriptors + k) =
          p.rx.slot (f.descriptors + k - RX_DESCRIPTORS.toNat) := by
        rw [Rx.slot, Rx.slot, Nat.mod_eq_sub_mod (by omega)]
        congr 1
        omega
      rw [hrel.rxDesc, if_pos ⟨_, by omega, hround⟩]
      exact hasBits_or_self _ (by decide)
  · refine h.frames.2.congr hindex (fun k hk => ?_) fun _ _ _ _ => rfl
    rw [p.rx.slot_skip]
    exact hkept _ (by omega) (by omega)

/-- A call when a frame waits. -/
theorem InRing.input (h : InRing b p (f :: fs)) (hup : p.rx.isUp = true) (frame : UInt32)
    (buffer : Nat → UInt8) :
    ∃ e, enLlInput p.mem frame RX_DESCRIPTORS.toNat p.rx buffer =
        some (UInt32.ofNat f.bytes.length, e,
          withPrefix f.byte (copied f.bytes.length) buffer) ∧
      e.isUp = true ∧ e.bufcDec = p.rx.bufcDec + f.descriptors ∧
      InRing b { p with rx := e } fs := by
  have hheader := f.header
  obtain ⟨size, e, hcall, hsize, hrel, -⟩ := enLlInput_holds h.frames.1
    (by rw [MAC_ADDRESS_SIZE] at hheader; omega) f.fits hup le_rfl frame buffer
  obtain rfl : size = UInt32.ofNat f.bytes.length := by
    rw [← hsize, UInt32.ofNat_toNat]
  exact ⟨e, hcall, hrel.isUp.trans hup, hrel.bufcDec, h.released hrel⟩

/-- What `en_ll_input` offers of a frame in the ring: the whole size, with the bytes that it copies
before those that the buffer had. -/
def Frame.offered (f : Frame) (buffer : Nat → UInt8) : Frame where
  bytes := (List.range f.bytes.length).map (withPrefix f.byte (copied f.bytes.length) buffer)
  header := by simpa only [List.length_map, List.length_range] using f.header
  fits := by simpa only [List.length_map, List.length_range] using f.fits

theorem Frame.offered_eq (f : Frame) (buffer : Nat → UInt8) (hnot : f.bytes.length % 256 ≠ 0) :
    f.offered buffer = f := by
  obtain ⟨bytes, header, fits⟩ := f
  have hcopied : copied bytes.length = bytes.length := if_neg hnot
  simp only [Frame.offered, hcopied, Frame.mk.injEq]
  refine List.ext_getElem (by simp only [List.length_map, List.length_range]) fun i hi hlt => ?_
  rw [List.getElem_map, List.getElem_range, withPrefix, if_pos hlt]
  exact List.getD_eq_getElem bytes 0 hlt

/-- The frames of the shared driver are those of its `en_ll_input`: with a frame in the ring and the
link up, the call gets the size of what is offered, and leaves it in the buffer as `writeFrame`
does.  That is the frame itself, unless its size is a multiple of 256. -/
theorem InRing.writeFrame (h : InRing b p (f :: fs)) (hup : p.rx.isUp = true) (frame : UInt32)
    (e : Eth) (freebuf : Nat) :
    (∃ rx, enLlInput p.mem frame RX_DESCRIPTORS.toNat p.rx (e.bBuf freebuf).frame =
      some (UInt32.ofNat (f.offered (e.bBuf freebuf).frame).bytes.length, rx,
        ((Drivers.writeFrame e freebuf (f.offered (e.bBuf freebuf).frame)).bBuf freebuf).frame)) ∧
      (f.bytes.length % 256 ≠ 0 → f.offered (e.bBuf freebuf).frame = f) := by
  obtain ⟨rx, hcall, -⟩ := h.input hup frame (e.bBuf freebuf).frame
  refine ⟨⟨rx, ?_⟩, f.offered_eq _⟩
  have hlength : (f.offered (e.bBuf freebuf).frame).bytes.length = f.bytes.length := by
    rw [Frame.offered, List.length_map, List.length_range]
  rw [hcall, hlength]
  refine congrArg (fun buffer => some (UInt32.ofNat f.bytes.length, rx, buffer))
    (funext fun i => ?_)
  simp only [Drivers.writeFrame, Function.update_self, hlength]
  split_ifs with hi
  · rw [Frame.byte, Frame.offered, List.getD_eq_getElem _ 0 (by simpa using hi), List.getElem_map,
      List.getElem_range]
  · exact if_neg fun hlt => hi (hlt.trans_le (copied_le f.bytes.length))

/-- A call when no frame waits, or when the link is down. -/
theorem enLlInput_none (h : p.rx.isUp = false ∨ InRing b p []) (frame : UInt32)
    (buffer : Nat → UInt8) :
    enLlInput p.mem frame RX_DESCRIPTORS.toNat p.rx buffer =
      some (0, { p.rx with readIndex := p.rx.receiveIndex, descOffset := 0, readNbytes := 0 },
        buffer) := by
  rw [enLlInput]
  by_cases hup : p.rx.isUp = false
  · rw [if_pos hup]
  · obtain hring := h.resolve_left hup
    have hfree := hring.free 0 (Nat.zero_le _) (by decide)
    rw [Rx.slot_zero hring.index] at hfree
    rw [if_neg hup, if_pos hfree]

/-- The ring that the driver sets up is empty. -/
theorem inRing_enSetupDma (b : RxPlaces) (p : RxPort) : InRing b (enSetupDma b p) [] := by
  have hslot : ∀ k < RX_DESCRIPTORS.toNat, (enSetupDma b p).rx.slot k = k := by
    intro k hk
    rw [Rx.slot, show (enSetupDma b p).rx.receiveIndex.toNat = 0 from rfl, Nat.zero_add,
      Nat.mod_eq_of_lt hk]
  have hdesc : ∀ i < RX_DESCRIPTORS.toNat, ((enSetupDma b p).rx.rxDesc i).paddr = b.paddr i ∧
      DESC_EOWN ((enSetupDma b p).rx.rxDesc i) := by
    intro i hi
    simp only [enSetupDma, if_pos hi]
    split_ifs
    · exact ⟨rfl, (by decide : HasBits ((((0 : UInt32) ||| 0x80) &&& ~~~0x100) ||| 0x100) 0x80)⟩
    · exact ⟨rfl, (by decide : HasBits (((0 : UInt32) ||| 0x80) &&& ~~~0x100) 0x80)⟩
  refine ⟨fun i hi => (hdesc i hi).1, (by decide : (0 : UInt32) < RX_DESCRIPTORS), rfl,
    Nat.zero_le _, fun k _ hk => ?_, trivial⟩
  rw [hslot k hk]
  exact (hdesc k hk).2

theorem enWatchdog_up (h : p.rxen = true) :
    enWatchdog b true p = { p with rx := { p.rx with isUp := true } } := by
  simp [enWatchdog, h]

theorem enWatchdog_start (h : p.rxen = false) :
    enWatchdog b true p =
      { enSetupDma b { p with rx := { p.rx with isUp := true } } with rxen := true } := by
  simp [enWatchdog, h]

theorem enWatchdog_down (b : RxPlaces) (p : RxPort) :
    enWatchdog b false p = { p with rx := { p.rx with isUp := false }, rxen := false } := by
  cases h : p.rxen <;> simp [enWatchdog, h]

end PrplHypervisor.Drivers
