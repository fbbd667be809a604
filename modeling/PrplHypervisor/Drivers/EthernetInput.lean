import PrplHypervisor.Drivers.Ethernet
import PrplHypervisor.Kernel.Libc

/-! How a frame gets out of the receive ring: `en_ll_input`, the same in both Ethernet drivers
(`drivers/pic32mz-ethernet.c` and `drivers/pic32mz-ethernet-shared.c`).  A first loop copies the
bytes of the descriptors, a second one gives them back to the controller.  The first loop compares
the bytes that it has read with those that are left, so that it ends in the middle of some
frames. -/

namespace PrplHypervisor.Drivers

open Kernel Lib.Ring Lib.Words

def RX_BYTES_PER_DESC : Nat := 128
def RX_DESCRIPTORS : UInt32 := 48

/-- `eth_desc_t`, without the fields that are for transmission and for the controller alone. -/
structure EthDesc where
  hdr : UInt32
  paddr : UInt32
  status : UInt32
  deriving DecidableEq, Repr

/-- End of packet. -/
def DESC_EOP (d : EthDesc) : Prop := HasBits d.hdr 0x40000000

instance (d : EthDesc) : Decidable (DESC_EOP d) := inferInstanceAs (Decidable (HasBits _ _))

/-- The controller owns the descriptor. -/
def DESC_EOWN (d : EthDesc) : Prop := HasBits d.hdr 0x00000080

instance (d : EthDesc) : Decidable (DESC_EOWN d) := inferInstanceAs (Decidable (HasBits _ _))

def DESC_SET_EOWN (d : EthDesc) : EthDesc := { d with hdr := d.hdr ||| 0x00000080 }

/-- Number of data bytes. -/
def DESC_BYTECNT (d : EthDesc) : UInt32 := (d.hdr >>> 16) &&& 0x7ff

/-- Size of the received packet. -/
def DESC_FRAMESZ (d : EthDesc) : UInt32 := d.status &&& 0xffff

def INCR_RX_INDEX (i : UInt32) : UInt32 := (i + 1) % RX_DESCRIPTORS

/-- The port and the static variables of the driver, with how often it has decremented the counter
of the buffers in use. -/
structure Rx where
  isUp : Bool
  rxDesc : Nat → EthDesc
  receiveIndex : UInt32
  readIndex : UInt32
  descOffset : UInt32
  frameSize : UInt32
  readNbytes : UInt32
  bufcDec : Nat

/-- The buffer at `frame` after a `memcpy` of `cb` bytes from the physical address `paddr` to its
place `buf`. -/
def copyIn (mem : UInt32 → UInt8) (frame paddr cb : UInt32) (buf : Nat) (buffer : Nat → UInt8) :
    Nat → UInt8 :=
  let object := memcpy (frame + UInt32.ofNat buf) (MACH_PHYS_TO_VIRT paddr) cb
    (fun i => mem (paddr + UInt32.ofNat i)) fun i => buffer (buf + i)
  fun i => if i < buf then buffer i else object (i - buf)

/-- The first loop of `en_ll_input`, with at most `n` passes, from the place `buf` of the buffer on.
`mem` is the memory by physical addresses. -/
def readLoop (mem : UInt32 → UInt8) (frame : UInt32) :
    Nat → Rx → Nat → (Nat → UInt8) → Option (Rx × (Nat → UInt8))
  | 0, _, _, _ => none
  | n + 1, e, buf, buffer =>
    if e.frameSize > 0 then
      let desc := e.rxDesc e.readIndex.toNat
      if DESC_EOWN desc then some (e, buffer)
      else
        let nbytes := DESC_BYTECNT desc
        let left := nbytes - e.descOffset
        let cb := if left < e.frameSize then left else e.frameSize
        let buffer := copyIn mem frame (desc.paddr + e.descOffset) cb buf buffer
        let buf := buf + cb.toNat
        let e := { e with
          descOffset := e.descOffset + cb
          readNbytes := e.readNbytes + cb
          frameSize := e.frameSize - cb }
        if e.descOffset = nbytes then
          let e := { e with descOffset := 0, readIndex := INCR_RX_INDEX e.readIndex }
          -- meant for the end of the frame, but `frameSize` has become what is left of it
          if DESC_EOP desc ∨ e.readNbytes = e.frameSize then some (e, buffer)
          else readLoop mem frame n e buf buffer
        else readLoop mem frame n e buf buffer
    else some (e, buffer)

/-- The second loop: the descriptors up to the end of the packet go back to the controller. -/
def freeLoop : Nat → Rx → Option Rx
  | 0, _ => none
  | n + 1, e =>
    let desc := e.rxDesc e.receiveIndex.toNat
    if DESC_EOWN desc then some e
    else
      let e := { e with
        rxDesc := Function.update e.rxDesc e.receiveIndex.toNat (DESC_SET_EOWN desc)
        bufcDec := e.bufcDec + 1
        receiveIndex := INCR_RX_INDEX e.receiveIndex }
      if DESC_EOP desc then some e else freeLoop n e

/-- `en_ll_input`, with at most `n` passes of each loop: the size of the frame, the driver and the
caller's buffer at the address `frame`. -/
def enLlInput (mem : UInt32 → UInt8) (frame : UInt32) (n : Nat) (e : Rx) (buffer : Nat → UInt8) :
    Option (UInt32 × Rx × (Nat → UInt8)) :=
  let e := { e with readIndex := e.receiveIndex, descOffset := 0, readNbytes := 0 }
  if e.isUp = false then some (0, e, buffer)
  else if DESC_EOWN (e.rxDesc e.receiveIndex.toNat) then some (0, e, buffer)
  else
    let size := DESC_FRAMESZ (e.rxDesc e.receiveIndex.toNat)
    let e := { e with frameSize := size }
    if e.frameSize = 0 then some (0, e, buffer)
    else
      match readLoop mem frame n e 0 buffer with
      | none => none
      | some (e, buffer) =>
        match freeLoop n e with
        | none => none
        | some e =>
          some (size, { e with readIndex := 0, descOffset := 0, frameSize := 0, readNbytes := 0 },
            buffer)

/-! ### A frame in the ring -/

/-- The `k`-th descriptor from `receive_index` on. -/
def Rx.slot (e : Rx) (k : Nat) : Nat := (e.receiveIndex.toNat + k) % RX_DESCRIPTORS.toNat

/-- The `n` descriptors from `receive_index` on hold the `s` bytes of the frame `f`.  They are full
but perhaps the last one, which ends the packet, and the first one has the size. -/
structure HoldsFrame (mem : UInt32 → UInt8) (e : Rx) (f : Nat → UInt8) (s n : Nat) : Prop where
  index : e.receiveIndex < RX_DESCRIPTORS
  count : 1 ≤ n
  lower : RX_BYTES_PER_DESC * (n - 1) ≤ s
  upper : s ≤ RX_BYTES_PER_DESC * n
  size : (DESC_FRAMESZ (e.rxDesc (e.slot 0))).toNat = s
  owned : ∀ k < n, ¬DESC_EOWN (e.rxDesc (e.slot k))
  full : ∀ k < n - 1, (DESC_BYTECNT (e.rxDesc (e.slot k))).toNat = RX_BYTES_PER_DESC
  last : (DESC_BYTECNT (e.rxDesc (e.slot (n - 1)))).toNat = s - RX_BYTES_PER_DESC * (n - 1)
  inner : ∀ k < n - 1, ¬DESC_EOP (e.rxDesc (e.slot k))
  ends : DESC_EOP (e.rxDesc (e.slot (n - 1)))
  bytes : ∀ k < n, ∀ i < (DESC_BYTECNT (e.rxDesc (e.slot k))).toNat,
    mem ((e.rxDesc (e.slot k)).paddr + UInt32.ofNat i) = f (RX_BYTES_PER_DESC * k + i)

/-- The first `s` bytes of the buffer are those of the frame. -/
def withPrefix (f : Nat → UInt8) (s : Nat) (buffer : Nat → UInt8) : Nat → UInt8 :=
  fun i => if i < s then f i else buffer i

/-- The driver after the `n` descriptors went back to the controller. -/
structure Released (e : Rx) (n : Nat) (e' : Rx) : Prop where
  isUp : e'.isUp = e.isUp
  rxDesc : ∀ i, e'.rxDesc i =
    if ∃ k < n, i = e.slot k then DESC_SET_EOWN (e.rxDesc i) else e.rxDesc i
  receiveIndex : e'.receiveIndex.toNat = e.slot n
  bufcDec : e'.bufcDec = e.bufcDec + n

variable {mem : UInt32 → UInt8} {frame : UInt32} {e₀ e : Rx} {f : Nat → UInt8} {s n k : Nat}

/-- The number of bytes is read back from a header whatever the flags beside it are. -/
theorem bytecnt_of_hdr {d : EthDesc} {n : Nat} {flags : UInt32} (hn : n < 2 ^ 11)
    (hflags : flags >>> 16 &&& 0x7ff = 0) (hhdr : d.hdr = UInt32.ofNat n <<< 16 ||| flags) :
    (DESC_BYTECNT d).toNat = n := by
  rw [DESC_BYTECNT, hhdr]
  exact toNat_field_or (k := 16) hn rfl (by decide) (by decide) rfl hflags

theorem toNat_incr {i : UInt32} (h : i.toNat < RX_DESCRIPTORS.toNat) :
    (INCR_RX_INDEX i).toNat = (i.toNat + 1) % RX_DESCRIPTORS.toNat := by
  rw [show RX_DESCRIPTORS.toNat = 48 from rfl] at h
  rw [INCR_RX_INDEX, UInt32.toNat_mod, UInt32.toNat_add, UInt32.toNat_one,
    Nat.mod_eq_of_lt (a := i.toNat + 1)]
  omega

theorem Rx.slot_lt (e : Rx) (k : Nat) : e.slot k < RX_DESCRIPTORS.toNat := Nat.mod_lt _ (by decide)

theorem toNat_incr_slot {i : UInt32} (h : i.toNat = e.slot k) :
    (INCR_RX_INDEX i).toNat = e.slot (k + 1) := by
  rw [toNat_incr (h ▸ e.slot_lt k), h]
  exact tail_slot_succ

/-- A frame takes 13 descriptors at most, so that they are different ones. -/
theorem HoldsFrame.count_le (h : HoldsFrame mem e f s n) (hs : s ≤ MTU) :
    n < RX_DESCRIPTORS.toNat := by
  have hlower := h.lower
  rw [show RX_DESCRIPTORS.toNat = 48 from rfl]
  simp only [RX_BYTES_PER_DESC, MTU] at hlower hs
  omega

theorem HoldsFrame.slot_inj (h : HoldsFrame mem e f s n) (hs : s ≤ MTU) {j k : Nat} (hj : j < n)
    (hk : k < n) : e.slot j = e.slot k ↔ j = k :=
  Lib.Ring.slot_inj (hj.trans (h.count_le hs)) (hk.trans (h.count_le hs))

/-- The bytes that the descriptors before the `k`-th and that one have. -/
theorem HoldsFrame.bytecnt (h : HoldsFrame mem e f s n) (hk : k < n) :
    (DESC_BYTECNT (e.rxDesc (e.slot k))).toNat =
      if k + 1 < n then RX_BYTES_PER_DESC else s - RX_BYTES_PER_DESC * k := by
  split_ifs with hinner
  · exact h.full k (by omega)
  · obtain rfl : k = n - 1 := by omega
    exact h.last

theorem copyIn_withPrefix (frame : UInt32) {paddr cb : UInt32} {b : Nat} (hcb : cb.toNat < 2 ^ 31)
    (hbytes : ∀ i < cb.toNat, mem (paddr + UInt32.ofNat i) = f (b + i)) (buffer : Nat → UInt8) :
    copyIn mem frame paddr cb b (withPrefix f b buffer) = withPrefix f (b + cb.toNat) buffer := by
  funext i
  simp only [copyIn, withPrefix]
  by_cases hib : i < b
  · rw [if_pos hib, if_pos hib, if_pos (by omega)]
  · obtain ⟨d, rfl⟩ : ∃ d, i = b + d := ⟨i - b, by omega⟩
    rw [if_neg hib, Nat.add_sub_cancel_left, memcpy_apply, memcpyCount_of_lt _ _ hcb, if_neg hib]
    by_cases hd : d < cb.toNat
    · rw [if_pos hd, if_pos (by omega), hbytes d hd]
    · rw [if_neg hd, if_neg (by omega)]

/-! ### The first loop -/

/-- The first loop is at the start of the `k`-th descriptor, with `read` bytes behind it. -/
structure Reading (e₀ : Rx) (s k read : Nat) (e : Rx) : Prop where
  isUp : e.isUp = e₀.isUp
  rxDesc : e.rxDesc = e₀.rxDesc
  receiveIndex : e.receiveIndex = e₀.receiveIndex
  bufcDec : e.bufcDec = e₀.bufcDec
  readIndex : e.readIndex.toNat = e₀.slot k
  descOffset : e.descOffset = 0
  readNbytes : e.readNbytes.toNat = read
  frameSize : e.frameSize.toNat = s - read

/-- What a pass over the `k`-th descriptor does when bytes are left: it reads all of it. -/
theorem Reading.pass (h : HoldsFrame mem e₀ f s n) (hs : s ≤ MTU) (hk : k < n)
    (hr : Reading e₀ s k (RX_BYTES_PER_DESC * k) e) (hleft : RX_BYTES_PER_DESC * k < s)
    (frame : UInt32) (buffer : Nat → UInt8) (fuel : Nat) :
    ∃ e', Reading e₀ s (k + 1)
        (RX_BYTES_PER_DESC * k + (DESC_BYTECNT (e₀.rxDesc (e₀.slot k))).toNat) e' ∧
      readLoop mem frame (fuel + 1) e (RX_BYTES_PER_DESC * k)
          (withPrefix f (RX_BYTES_PER_DESC * k) buffer) =
        if DESC_EOP (e₀.rxDesc (e₀.slot k)) ∨ e'.readNbytes = e'.frameSize then
          some (e', withPrefix f
            (RX_BYTES_PER_DESC * k + (DESC_BYTECNT (e₀.rxDesc (e₀.slot k))).toNat) buffer)
        else readLoop mem frame fuel e'
          (RX_BYTES_PER_DESC * k + (DESC_BYTECNT (e₀.rxDesc (e₀.slot k))).toNat) (withPrefix f
            (RX_BYTES_PER_DESC * k + (DESC_BYTECNT (e₀.rxDesc (e₀.slot k))).toNat) buffer) := by
  have hcount := h.bytecnt hk
  have hlower := h.lower
  set desc := e₀.rxDesc (e₀.slot k) with hdesc
  set nbytes := DESC_BYTECNT desc with hnbytes
  have hfits : RX_BYTES_PER_DESC * k + nbytes.toNat ≤ s := by
    rw [hcount]
    simp only [RX_BYTES_PER_DESC] at hlower hleft ⊢
    split_ifs <;> omega
  have hsmall : nbytes.toNat < 2 ^ 31 := by
    simp only [MTU] at hs
    omega
  have hcb : (if nbytes < e.frameSize then nbytes else e.frameSize) = nbytes := by
    split_ifs with hlt
    · rfl
    · rw [UInt32.lt_iff_toNat_lt, hr.frameSize] at hlt
      rw [← UInt32.toNat_inj, hr.frameSize]
      omega
  have hcopy := copyIn_withPrefix frame hsmall (h.bytes k hk) buffer
  rw [← hdesc] at hcopy
  have hmore : e.frameSize > 0 := by
    rw [gt_iff_lt, UInt32.lt_iff_toNat_lt, hr.frameSize, UInt32.toNat_zero]
    omega
  have hread : e.rxDesc e.readIndex.toNat = desc := by rw [hr.rxDesc, hr.readIndex]
  refine ⟨{ e with
      descOffset := 0
      readNbytes := e.readNbytes + nbytes
      frameSize := e.frameSize - nbytes
      readIndex := INCR_RX_INDEX e.readIndex }, ?_, ?_⟩
  · refine ⟨hr.isUp, hr.rxDesc, hr.receiveIndex, hr.bufcDec, toNat_incr_slot hr.readIndex, rfl,
      ?_, ?_⟩
    · simp only [MTU] at hs
      rw [UInt32.toNat_add, hr.readNbytes, Nat.mod_eq_of_lt (by omega)]
    · rw [UInt32.toNat_sub_of_le, hr.frameSize]
      · omega
      · rw [UInt32.le_iff_toNat_le, hr.frameSize]
        omega
  · rw [readLoop, if_pos hmore, hread, if_neg (h.owned k hk)]
    simp only [← hnbytes, hr.descOffset, UInt32.sub_zero, UInt32.add_zero, UInt32.zero_add, hcb,
      hcopy, if_true]

/-- The bytes that the first loop copies of a frame of `s` bytes. -/
def copied (s : Nat) : Nat := if s % (2 * RX_BYTES_PER_DESC) = 0 then s / 2 else s

theorem copied_le (s : Nat) : copied s ≤ s := by
  unfold copied
  split_ifs
  · exact Nat.div_le_self s 2
  · exact le_rfl

/-- By induction on the descriptors that are left.  No frame boundary was behind half of the frame
so far, where the loop would have ended. -/
theorem Reading.loop (h : HoldsFrame mem e₀ f s n) (hpos : 1 ≤ s) (hs : s ≤ MTU)
    (frame : UInt32) (buffer : Nat → UInt8) (m : Nat) :
    ∀ (k fuel : Nat) (e : Rx), k + m + 1 = n → m < fuel →
      Reading e₀ s k (RX_BYTES_PER_DESC * k) e →
      (∀ q, 1 ≤ q → q ≤ k → s ≠ 2 * RX_BYTES_PER_DESC * q) →
      ∃ e' k' read, Reading e₀ s k' read e' ∧
        readLoop mem frame fuel e (RX_BYTES_PER_DESC * k)
          (withPrefix f (RX_BYTES_PER_DESC * k) buffer) =
            some (e', withPrefix f (copied s) buffer) := by
  have hlower := h.lower
  have hupper := h.upper
  simp only [copied]
  induction m with
  | zero =>
    intro k fuel e hk hfuel hr hhalf
    obtain ⟨fuel, rfl⟩ : ∃ j, fuel = j + 1 := ⟨fuel - 1, by omega⟩
    -- half of the frame would have been the end of an earlier descriptor
    have hnot : s % (2 * RX_BYTES_PER_DESC) ≠ 0 := by
      intro hdvd
      have hq := hhalf (s / (2 * RX_BYTES_PER_DESC))
      simp only [RX_BYTES_PER_DESC] at hdvd hlower hupper hq
      omega
    rw [if_neg hnot]
    by_cases hleft : RX_BYTES_PER_DESC * k < s
    · obtain ⟨e', hr', hloop⟩ := hr.pass h hs (by omega) hleft frame buffer fuel
      have hend : RX_BYTES_PER_DESC * k + (DESC_BYTECNT (e₀.rxDesc (e₀.slot k))).toNat = s := by
        rw [h.bytecnt (by omega), if_neg (by omega)]
        omega
      refine ⟨e', k + 1, _, hr', ?_⟩
      have hlast : DESC_EOP (e₀.rxDesc (e₀.slot k)) := by
        obtain rfl : k = n - 1 := by omega
        exact h.ends
      rw [hloop, if_pos (Or.inl hlast), hend]
    · have hall : RX_BYTES_PER_DESC * k = s := by
        obtain rfl : k = n - 1 := by omega
        omega
      refine ⟨e, k, _, hr, ?_⟩
      have hzero : ¬e.frameSize > 0 := by
        rw [gt_iff_lt, UInt32.lt_iff_toNat_lt, hr.frameSize, UInt32.toNat_zero]
        omega
      rw [readLoop, if_neg hzero, hall]
  | succ m ih =>
    intro k fuel e hk hfuel hr hhalf
    obtain ⟨fuel, rfl⟩ : ∃ j, fuel = j + 1 := ⟨fuel - 1, by omega⟩
    have hinner : k < n - 1 := by omega
    have hfull := h.full k hinner
    have hleft : RX_BYTES_PER_DESC * k < s := by
      simp only [RX_BYTES_PER_DESC] at hlower ⊢
      omega
    obtain ⟨e', hr', hloop⟩ := hr.pass h hs (by omega) hleft frame buffer fuel
    rw [hfull, show RX_BYTES_PER_DESC * k + RX_BYTES_PER_DESC = RX_BYTES_PER_DESC * (k + 1) from
      (Nat.mul_succ _ _).symm] at hr' hloop
    have hequal : e'.readNbytes = e'.frameSize ↔ s = 2 * RX_BYTES_PER_DESC * (k + 1) := by
      rw [← UInt32.toNat_inj, hr'.readNbytes, hr'.frameSize]
      simp only [RX_BYTES_PER_DESC] at hlower ⊢
      omega
    by_cases hmid : s = 2 * RX_BYTES_PER_DESC * (k + 1)
    · refine ⟨e', k + 1, _, hr', ?_⟩
      have hdvd : s % (2 * RX_BYTES_PER_DESC) = 0 := by rw [hmid, Nat.mul_mod_right]
      rw [hloop, if_pos (Or.inr (hequal.mpr hmid)), if_pos hdvd]
      congr 3
      simp only [RX_BYTES_PER_DESC] at hmid ⊢
      omega
    · have hgo : ¬(DESC_EOP (e₀.rxDesc (e₀.slot k)) ∨ e'.readNbytes = e'.frameSize) := by
        rintro (heop | heq)
        · exact h.inner k hinner heop
        · exact hmid (hequal.mp heq)
      rw [hloop, if_neg hgo]
      refine ih (k + 1) fuel e' (by omega) (by omega) hr' fun q hq hle => ?_
      rcases Nat.lt_or_eq_of_le hle with hlt | rfl
      · exact hhalf q hq (Nat.le_of_lt_succ hlt)
      · exact hmid

/-! ### The second loop -/

theorem HoldsFrame.released_zero (h : HoldsFrame mem e₀ f s n) {read : Nat}
    (hr : Reading e₀ s k read e) : Released e₀ 0 e where
  isUp := hr.isUp
  rxDesc i := by
    rw [if_neg fun ⟨_, hk, _⟩ => Nat.not_lt_zero _ hk, hr.rxDesc]
  receiveIndex := by
    rw [hr.receiveIndex, Rx.slot, Nat.add_zero,
      Nat.mod_eq_of_lt (UInt32.lt_iff_toNat_lt.mp h.index)]
  bufcDec := hr.bufcDec

theorem HoldsFrame.rxDesc_slot (h : HoldsFrame mem e₀ f s n) (hs : s ≤ MTU) (hk : k < n)
    (hrel : Released e₀ k e) : e.rxDesc e.receiveIndex.toNat = e₀.rxDesc (e₀.slot k) := by
  rw [hrel.receiveIndex, hrel.rxDesc, if_neg]
  rintro ⟨j, hj, heq⟩
  have := (h.slot_inj hs hk (hj.trans hk)).mp heq
  omega

/-- One more descriptor goes back. -/
theorem Released.next (hrel : Released e₀ k e) :
    Released e₀ (k + 1) { e with
      rxDesc := Function.update e.rxDesc e.receiveIndex.toNat
        (DESC_SET_EOWN (e₀.rxDesc (e₀.slot k)))
      bufcDec := e.bufcDec + 1
      receiveIndex := INCR_RX_INDEX e.receiveIndex } := by
  refine ⟨hrel.isUp, fun i => ?_, toNat_incr_slot hrel.receiveIndex, ?_⟩
  · simp only [Function.update_apply, hrel.receiveIndex]
    by_cases hi : i = e₀.slot k
    · rw [if_pos hi, if_pos ⟨k, Nat.lt_succ_self k, hi⟩, hi]
    · have hset : (∃ j < k + 1, i = e₀.slot j) ↔ ∃ j < k, i = e₀.slot j := by
        constructor
        · rintro ⟨j, hj, heq⟩
          rcases Nat.lt_or_eq_of_le (Nat.le_of_lt_succ hj) with hlt | rfl
          · exact ⟨j, hlt, heq⟩
          · exact absurd heq hi
        · exact fun ⟨j, hj, heq⟩ => ⟨j, Nat.lt_succ_of_lt hj, heq⟩
      rw [if_neg hi, hrel.rxDesc]
      simp only [hset]
  · show e.bufcDec + 1 = e₀.bufcDec + (k + 1)
    rw [hrel.bufcDec, Nat.add_assoc]

/-- By induction on the descriptors that are left. -/
theorem Released.loop (h : HoldsFrame mem e₀ f s n) (hs : s ≤ MTU) (m : Nat) :
    ∀ (k fuel : Nat) (e : Rx), k + m + 1 = n → m < fuel → Released e₀ k e →
      ∃ e', freeLoop fuel e = some e' ∧ Released e₀ n e' := by
  induction m with
  | zero =>
    intro k fuel e hk hfuel hrel
    obtain ⟨fuel, rfl⟩ : ∃ j, fuel = j + 1 := ⟨fuel - 1, by omega⟩
    have hlast : DESC_EOP (e₀.rxDesc (e₀.slot k)) := by
      obtain rfl : k = n - 1 := by omega
      exact h.ends
    refine ⟨_, ?_, hk ▸ hrel.next⟩
    rw [freeLoop, h.rxDesc_slot hs (by omega) hrel, if_neg (h.owned k (by omega))]
    simp only [if_pos hlast]
  | succ m ih =>
    intro k fuel e hk hfuel hrel
    obtain ⟨fuel, rfl⟩ : ∃ j, fuel = j + 1 := ⟨fuel - 1, by omega⟩
    obtain ⟨e', hloop, hrel'⟩ := ih (k + 1) fuel _ (by omega) (by omega) hrel.next
    refine ⟨e', ?_, hrel'⟩
    rw [freeLoop, h.rxDesc_slot hs (by omega) hrel, if_neg (h.owned k (by omega))]
    simp only [if_neg (h.inner k (by omega))]
    exact hloop

/-! ### The call -/

/-- The static variables of the driver between two calls. -/
def Rx.Idle (e : Rx) : Prop :=
  e.readIndex = 0 ∧ e.descOffset = 0 ∧ e.frameSize = 0 ∧ e.readNbytes = 0

/-- With the link up a call returns the size of the frame and gives its descriptors back, but the
buffer gets only `copied s` of its bytes. -/
theorem enLlInput_holds (h : HoldsFrame mem e f s n) (hpos : 1 ≤ s) (hs : s ≤ MTU)
    (hup : e.isUp = true) {fuel : Nat} (hfuel : RX_DESCRIPTORS.toNat ≤ fuel) (frame : UInt32)
    (buffer : Nat → UInt8) :
    ∃ size e', enLlInput mem frame fuel e buffer = some (size, e', withPrefix f (copied s) buffer) ∧
      size.toNat = s ∧ Released e n e' ∧ e'.Idle := by
  have hcount := h.count
  have hlt := h.count_le hs
  have hindex : e.receiveIndex.toNat = e.slot 0 := by
    rw [Rx.slot, Nat.add_zero, Nat.mod_eq_of_lt (UInt32.lt_iff_toNat_lt.mp h.index)]
  set size := DESC_FRAMESZ (e.rxDesc (e.slot 0)) with hsize
  set e₁ : Rx := { e with
    isUp := true, readIndex := e.receiveIndex, descOffset := 0, readNbytes := 0
    frameSize := size } with he₁
  have hstart : Reading e s 0 (RX_BYTES_PER_DESC * 0) e₁ :=
    ⟨hup.symm, rfl, rfl, rfl, hindex, rfl, rfl, h.size⟩
  obtain ⟨e₂, k, read, hr, hread⟩ :=
    Reading.loop h hpos hs frame buffer (n - 1) 0 fuel e₁ (by omega)
    (by omega) hstart (fun q hq hle => by omega)
  obtain ⟨e₃, hfree, hrel⟩ := Released.loop h hs (n - 1) 0 fuel e₂ (by omega) (by omega)
    (h.released_zero hr)
  have hnone : withPrefix f (RX_BYTES_PER_DESC * 0) buffer = buffer := by
    funext i
    exact if_neg (Nat.not_lt_zero i)
  rw [hnone] at hread
  have hnonzero : size ≠ 0 := fun heq => by
    have := h.size
    rw [← hsize, heq, UInt32.toNat_zero] at this
    omega
  refine ⟨size, { e₃ with readIndex := 0, descOffset := 0, frameSize := 0, readNbytes := 0 }, ?_,
    h.size, ⟨hrel.isUp, hrel.rxDesc, hrel.receiveIndex, hrel.bufcDec⟩, rfl, rfl, rfl, rfl⟩
  simp only [enLlInput, hup, hindex, if_neg (h.owned 0 (by omega)), ← hsize, if_neg hnonzero,
    Bool.true_eq_false, if_false]
  rw [Nat.mul_zero] at hread
  simp only [← he₁, hread, hfree]

/-- A call copies the `s` bytes of the frame to the buffer and nothing else, whatever the buffer
held, returns `s`, and gives exactly the descriptors of the frame back. -/
def InputsFrame (mem : UInt32 → UInt8) (frame : UInt32) (fuel : Nat) (e : Rx) (f : Nat → UInt8)
    (s n : Nat) : Prop :=
  ∀ buffer, ∃ size e', enLlInput mem frame fuel e buffer = some (size, e', withPrefix f s buffer) ∧
    size.toNat = s ∧ Released e n e' ∧ e'.Idle

/-- For every frame in the ring and every place of it, `en_ll_input` gets the frame exactly when the
link is up and the size is not a multiple of 256. -/
theorem enLlInput_iff (mem : UInt32 → UInt8) (frame : UInt32) (e : Rx) (f : Nat → UInt8) (s n : Nat)
    (hpos : 1 ≤ s) (hs : s ≤ MTU) (h : HoldsFrame mem e f s n) (fuel : Nat)
    (hfuel : RX_DESCRIPTORS.toNat ≤ fuel) :
    InputsFrame mem frame fuel e f s n ↔ e.isUp = true ∧ s % 256 ≠ 0 := by
  constructor
  · intro hinputs
    have hup : e.isUp = true := by
      by_contra hdown
      obtain ⟨size, e', hcall, hsize, -⟩ := hinputs fun _ => 0
      rw [enLlInput, if_pos (Bool.eq_false_iff.mpr hdown)] at hcall
      obtain ⟨rfl, -⟩ := Prod.mk.inj (Option.some.inj hcall)
      rw [UInt32.toNat_zero] at hsize
      omega
    refine ⟨hup, fun hdvd => ?_⟩
    -- a buffer that differs from the frame keeps the second half of its bytes
    obtain ⟨size, e', hcall, -⟩ := hinputs fun i => f i + 1
    obtain ⟨size', e'', hcall', -⟩ := enLlInput_holds h hpos hs hup hfuel frame fun i => f i + 1
    rw [hcall] at hcall'
    have hbuffer := (Prod.mk.inj (Prod.mk.inj (Option.some.inj hcall')).2).2
    have hbyte := congrFun hbuffer (s / 2)
    have hcopied : copied s = s / 2 := if_pos hdvd
    rw [hcopied, withPrefix, withPrefix, if_pos (by omega), if_neg (by omega)] at hbyte
    exact absurd hbyte (by simp)
  · rintro ⟨hup, hnot⟩ buffer
    have hall : copied s = s := if_neg hnot
    simpa only [hall] using enLlInput_holds h hpos hs hup hfuel frame buffer

/-- A ring whose frame of `s` bytes starts in the last descriptor. -/
def ringWith (s : Nat) : Rx where
  isUp := true
  rxDesc i :=
    let k := (i + 1) % 48
    { hdr := if 128 * (k + 1) < s then (128 : UInt32) <<< 16
        else UInt32.ofNat (s - 128 * k) <<< 16 ||| 0x40000000
      paddr := UInt32.ofNat (128 * k)
      status := UInt32.ofNat s }
  receiveIndex := 47
  readIndex := 0
  descOffset := 0
  frameSize := 0
  readNbytes := 0
  bufcDec := 0

theorem ringWith_130 :
    HoldsFrame (fun a => a.toUInt8) (ringWith 130) (fun i => UInt8.ofNat i) 130 2 := by
  constructor <;> decide +kernel

theorem ringWith_256 :
    HoldsFrame (fun a => a.toUInt8) (ringWith 256) (fun i => UInt8.ofNat i) 256 2 := by
  constructor <;> decide +kernel

theorem enLlInput_two : InputsFrame (fun a => a.toUInt8) 0x9d000000 48 (ringWith 130)
    (fun i => UInt8.ofNat i) 130 2 ↔ (ringWith 130).isUp = true ∧ 130 % 256 ≠ 0 :=
  enLlInput_iff _ 0x9d000000 (ringWith 130) _ 130 2 (by decide) (by decide) ringWith_130 48
    (by decide)

/-- Of a frame of 256 bytes the buffer gets 128. -/
theorem half_frame :
    HoldsFrame (fun a => a.toUInt8) (ringWith 256) (fun i => UInt8.ofNat i) 256 2 ∧
      ¬InputsFrame (fun a => a.toUInt8) 0x9d000000 48 (ringWith 256) (fun i => UInt8.ofNat i)
        256 2 := by
  refine ⟨ringWith_256, fun hinputs => ?_⟩
  obtain ⟨size, e', hcall, -⟩ := hinputs fun _ => 0
  obtain ⟨size', e'', hcall', -⟩ := enLlInput_holds ringWith_256 (by decide) (by decide) rfl
    (le_refl 48) 0x9d000000 fun _ => 0
  rw [hcall] at hcall'
  have hbuffer := (Prod.mk.inj (Prod.mk.inj (Option.some.inj hcall')).2).2
  exact absurd (congrFun hbuffer 129) (by decide)

end PrplHypervisor.Drivers
