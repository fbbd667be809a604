import Mathlib.Data.List.Perm.Subperm
import PrplHypervisor.Drivers.EthernetRings

/-! What the shared Ethernet driver delivers.  As long as no ring has to take a tenth frame and
every frame that is read on behalf of another VM is for a registered one, each VM gets its frames
and the broadcast ones, in order, and the buffers count their references. -/

namespace PrplHypervisor.Drivers

open Lib.Runs

variable {e : Eth} {i j b : Nat}

/-! ### The loop -/

/-- What the loop reads for the `j`-th VM before a frame that is for it. -/
def ahead (e : Eth) (j : Nat) (dma : List Frame) : List Frame :=
  dma.takeWhile fun f => !addressed e j f

/-- Those frames are for registered VMs, and with them and the frame behind them no other ring gets
more than nine. -/
structure Fits (e : Eth) (j : Nat) (dma : List Frame) : Prop where
  registered : ∀ f ∈ ahead e j dma, ∃ i < e.vmCounter.toNat, maccmp (e.vmctrl i).mac f.byte
  room : ∀ i < e.vmCounter.toNat, i ≠ j → (refs (e.vmctrl i)).length +
    ((dma.take ((ahead e j dma).length + 1)).filter (addressed e i)).length ≤ 9

theorem EthOk.exists_free (h : EthOk e) (hj : j < e.vmCounter.toNat)
    (hempty : refs (e.vmctrl j) = [])
    (hroom : ∀ i < e.vmCounter.toNat, i ≠ j → (refs (e.vmctrl i)).length ≤ 9) :
    ∃ b < NUMBER_OF_FRAMES.toNat, (e.bBuf b).used = 0 := by
  have hcounter : e.vmCounter.toNat ≤ 2 := h.vmCounter
  -- all references are those of the other VM
  obtain ⟨other, hother, hlength⟩ : ∃ l : List Nat, (∀ i < e.vmCounter.toNat,
      refs (e.vmctrl i) ⊆ l) ∧ l.length ≤ 9 := by
    by_cases hex : ∃ i < e.vmCounter.toNat, i ≠ j
    · obtain ⟨i, hi, hij⟩ := hex
      refine ⟨refs (e.vmctrl i), fun k hk => ?_, hroom i hi hij⟩
      by_cases hki : k = i
      · rw [hki]
        exact List.Subset.refl _
      · obtain rfl : k = j := by omega
        rw [hempty]
        exact List.nil_subset _
    · refine ⟨[], fun k hk => ?_, by simp⟩
      obtain rfl : k = j := not_not.mp fun hne => hex ⟨k, hk, hne⟩
      rw [hempty]
      exact List.nil_subset _
  obtain ⟨b, hb, hnot⟩ : ∃ b < NUMBER_OF_FRAMES.toNat, b ∉ other := by
    by_contra hall
    have hsub : List.range NUMBER_OF_FRAMES.toNat ⊆ other := by
      intro b hb
      exact not_not.mp fun hnot => hall ⟨b, List.mem_range.mp hb, hnot⟩
    have hle := (List.nodup_range.subperm hsub).length_le
    rw [List.length_range, toNat_frames] at hle
    omega
  refine ⟨b, hb, UInt32.toNat_inj.mp ?_⟩
  rw [h.used b hb, UInt32.toNat_zero]
  refine Finset.sum_eq_zero fun i hi => ?_
  exact List.count_eq_zero.mpr fun hmem => hnot (hother i (Finset.mem_range.mp hi) hmem)

theorem EthOk.getFreeBuffer (h : EthOk e) (hj : j < e.vmCounter.toNat)
    (hempty : refs (e.vmctrl j) = [])
    (hroom : ∀ i < e.vmCounter.toNat, i ≠ j → (refs (e.vmctrl i)).length ≤ 9) :
    ∃ b < NUMBER_OF_FRAMES.toNat, (e.bBuf b).used = 0 ∧ getFreeBuffer e = b := by
  obtain ⟨b, hb, hfree⟩ := h.exists_free hj hempty hroom
  obtain ⟨c, hc, hcfree, hfirst⟩ :=
    firstIndex_some (p := fun i => (e.bBuf i).used = 0) ⟨b, hb, decide_eq_true hfree⟩
  exact ⟨c, hc, of_decide_eq_true hcfree, hfirst⟩

theorem writeFrame_byte (e : Eth) (b : Nat) (f : Frame) {i : Nat} (hi : i < f.bytes.length) :
    ((writeFrame e b f).bBuf b).frame i = f.byte i := by
  simp [writeFrame, hi]

theorem writeFrame_maccmp (e : Eth) (b : Nat) (f : Frame) (mac : Nat → UInt8) :
    maccmp ((writeFrame e b f).bBuf b).frame mac = maccmp f.byte mac :=
  maccmp_congr (fun _ hi => writeFrame_byte e b f (Nat.lt_of_lt_of_le hi f.header)) mac

theorem writeFrame_content (e : Eth) (f : Frame) {b c : Nat} (h : c ≠ b) :
    content ((writeFrame e b f).bBuf c) = content (e.bBuf c) := by
  simp [writeFrame, h]

theorem EthOk.writeFrame (h : EthOk e) (b : Nat) (f : Frame) : EthOk (writeFrame e b f) :=
  h.setBuffer b rfl

theorem EthOk.setFrameSize (h : EthOk e) (b : Nat) (framesz : UInt32) :
    EthOk (setFrameSize e b framesz) := h.setBuffer b rfl

theorem EthOk.stored_none (h : EthOk e) (hb : b < NUMBER_OF_FRAMES.toNat)
    (hfree : (e.bBuf b).used = 0) (f : Frame) : Stored e f [] (Drivers.writeFrame e b f) := by
  refine ⟨h.writeFrame b f, ⟨rfl, fun _ => rfl, fun _ => rfl⟩, fun i hi => ?_⟩
  refine queuedFrames_of (b := b) ?_ (h.not_mem hb hfree hi)
    (fun c hc => writeFrame_content e f hc) ?_
  · simp [Drivers.writeFrame]
  · simp

theorem EthOk.stored_one (h : EthOk e) (hb : b < NUMBER_OF_FRAMES.toNat)
    (hfree : (e.bBuf b).used = 0) (f : Frame) (hi : i < e.vmCounter.toNat)
    (room : (refs (e.vmctrl i)).length < 9) :
    Stored e f [i] (Drivers.setFrameSize (pushBuffer (Drivers.writeFrame e b f) i b) b
      (UInt32.ofNat f.bytes.length)) := by
  have hpush := (h.writeFrame b f).push hi hb room
  have hsame := pushBuffer_same (Drivers.writeFrame e b f) i b
  refine ⟨hpush.setFrameSize b _, ⟨hsame.vmCounter, hsame.vmId, hsame.mac⟩, fun j hj => ?_⟩
  refine queuedFrames_of (b := b) ?_ (h.not_mem hb hfree hj) (fun c hc => ?_) fun _ => ?_
  · have hrefs := pushBuffer_refs (h.writeFrame b f) hi room b j
    simp only [Drivers.setFrameSize, hrefs, List.mem_singleton]
    rfl
  · simp only [Drivers.setFrameSize, Function.update_of_ne hc, pushBuffer_content]
    exact writeFrame_content e f hc
  · refine content_frame f _ (fun k hk => ?_) ?_
    · simp only [Drivers.setFrameSize, Function.update_self, pushBuffer]
      exact writeFrame_byte e b f hk
    · simp [Drivers.setFrameSize]

theorem EthOk.stored_all (h : EthOk e) (hb : b < NUMBER_OF_FRAMES.toNat)
    (hfree : (e.bBuf b).used = 0) (f : Frame) {l : List Nat} (nodup : l.Nodup)
    (room : ∀ i ∈ l, i < e.vmCounter.toNat ∧ (refs (e.vmctrl i)).length < 9) :
    Stored e f l (l.foldl (fun e i => pushBuffer e i b) (Drivers.setFrameSize
      (Drivers.writeFrame e b f) b (UInt32.ofNat f.bytes.length))) := by
  obtain ⟨hok, hsame, hcontent, hrefs⟩ := EthOk.pushAll hb l
    ((h.writeFrame b f).setFrameSize b (UInt32.ofNat f.bytes.length)) nodup room
  refine ⟨hok, ⟨hsame.vmCounter, hsame.vmId, hsame.mac⟩, fun i hi => ?_⟩
  refine queuedFrames_of (b := b) (hrefs i) (h.not_mem hb hfree hi) (fun c hc => ?_) fun _ => ?_
  · rw [hcontent]
    simp only [Drivers.setFrameSize, Function.update_of_ne hc]
    exact writeFrame_content e f hc
  · rw [hcontent]
    refine content_frame f _ (fun k hk => ?_) ?_
    · simp only [Drivers.setFrameSize, Function.update_self]
      exact writeFrame_byte e b f hk
    · simp [Drivers.setFrameSize]

/-- A call for the `j`-th VM that ends in `e'` with `framesz` and `bytes`, after it read `n` of the
frames of `dma`: what it gave to the VM and what it left in the rings are the frames read. -/
structure Delivers (e : Eth) (j : Nat) (dma : List Frame) (framesz : UInt32) (bytes : List UInt8)
    (e' : Eth) (n : Nat) : Prop where
  ok : EthOk e'
  same : SameVms e e'
  rest : e'.dma = dma.drop n
  le : n ≤ dma.length
  frames : ∀ i < e.vmCounter.toNat,
    (if i = j ∧ framesz ≠ 0 then [bytes] else []) ++ queuedFrames e' i =
      queuedFrames e i ++ ((dma.take n).filter (addressed e i)).map Frame.bytes

theorem EthOk.setDma (h : EthOk e) (dma : List Frame) (n : UInt32) :
    EthOk { e with dma := dma, numberUsedBuffers := n } :=
  ⟨h.vmCounter, h.mac, h.vmId, h.input, h.output, h.unused, h.bounded, h.used⟩

theorem toNat_framesz (f : Frame) : (UInt32.ofNat f.bytes.length).toNat = f.bytes.length := by
  have hfits := f.fits
  rw [UInt32.toNat_ofNat_of_lt']
  simp only [MTU, UInt32.size] at hfits ⊢
  omega

theorem framesz_ne_zero (f : Frame) : UInt32.ofNat f.bytes.length ≠ 0 := by
  intro hzero
  have hheader := f.header
  have := toNat_framesz f
  rw [hzero, UInt32.toNat_zero] at this
  simp only [MAC_ADDRESS_SIZE] at hheader
  omega

theorem bytes_writeFrame (e : Eth) (b : Nat) (f : Frame) :
    (List.range (UInt32.ofNat f.bytes.length).toNat).map ((writeFrame e b f).bBuf b).frame =
      f.bytes := by
  rw [toNat_framesz]
  refine List.ext_getElem (by simp) fun i h1 h2 => ?_
  simp only [List.getElem_map, List.getElem_range]
  rw [writeFrame_byte e b f h2, Frame.byte]
  simp [h2]

/-- A frame for no broadcast belongs to one VM at most. -/
theorem EthOk.addressed_iff (h : EthOk e) (hi : i < e.vmCounter.toNat) (hj : j < e.vmCounter.toNat)
    {f : Frame} (hcast : isBroadcast f.byte = false) (hmac : maccmp (e.vmctrl j).mac f.byte) :
    addressed e i f = decide (i = j) := by
  rw [addressed, hcast, Bool.or_false, Bool.eq_iff_iff, decide_eq_true_iff]
  constructor
  · intro hif
    refine h.mac i hi j hj (maccmp_iff.mpr fun k hk => ?_)
    rw [← maccmp_iff.mp hif k hk, maccmp_iff.mp hmac k hk]
  · rintro rfl
    rw [maccmp_comm]
    exact hmac

theorem EthOk.receive_addressed (h : EthOk e) (hj : j < e.vmCounter.toNat)
    (hempty : refs (e.vmctrl j) = []) {f : Frame} (hf : addressed e j f) (dma : List Frame)
    (hroom : ∀ i < e.vmCounter.toNat, i ≠ j →
      (refs (e.vmctrl i)).length + ([f].filter (addressed e i)).length ≤ 9)
    {b : Nat} (hb : b < NUMBER_OF_FRAMES.toNat) (hfree : (e.bBuf b).used = 0)
    (hget : Drivers.getFreeBuffer e = b) :
    ∃ framesz bytes e', receiveLoop j (f :: dma) e = .ok ((framesz, bytes), e') ∧
      Delivers e j (f :: dma) framesz bytes e' 1 := by
  have hqueue : queuedFrames e j = [] := by rw [queuedFrames, hempty, List.map_nil]
  obtain ⟨hindex, hnonneg⟩ := toNat_index hb (by decide)
  have hlt : ¬NUMBER_OF_FRAMES ≤ UInt32.ofInt (b : Int) := by
    rw [UInt32.le_iff_toNat_le, hindex]
    exact Nat.not_le_of_lt hb
  have hcond : (maccmp ((Drivers.writeFrame e b f).bBuf b).frame
      ((Drivers.writeFrame e b f).vmctrl j).mac || isBroadcast f.byte) = true := by
    rw [writeFrame_maccmp]
    exact hf
  have hcast : isBroadcast ((Drivers.writeFrame e b f).bBuf b).frame = isBroadcast f.byte := by
    rw [isBroadcast, writeFrame_maccmp]
    rfl
  simp only [receiveLoop, hget, if_neg hnonneg, if_neg hlt, hindex, if_pos hcond, hcast,
    bytes_writeFrame]
  by_cases hb' : isBroadcast f.byte = true
  · -- the buffer goes into the rings of the other VMs too
    have haddressed : ∀ i, addressed e i f = true := fun i => by rw [addressed, hb', Bool.or_true]
    have hrooms : ∀ i ∈ (List.range e.vmCounter.toNat).filter (· ≠ j),
        i < e.vmCounter.toNat ∧ (refs (e.vmctrl i)).length < 9 := by
      intro i hi
      simp only [List.mem_filter, List.mem_range, decide_eq_true_eq] at hi
      have hone := hroom i hi.1 hi.2
      rw [List.filter_cons_of_pos (haddressed i)] at hone
      simp only [List.filter_nil, List.length_singleton] at hone
      exact ⟨hi.1, hone⟩
    obtain ⟨e₁, he₁, hstored⟩ : ∃ e₁, e₁ = _ ∧ Stored e f _ e₁ :=
      ⟨_, rfl, h.stored_all hb hfree f (List.nodup_range.filter _) hrooms⟩
    refine ⟨_, _, { e₁ with numberUsedBuffers := e₁.numberUsedBuffers + 1, dma := dma },
      by rw [if_pos hb', he₁]; rfl, hstored.ok.setDma _ _,
      ⟨hstored.same.vmCounter, hstored.same.vmId, hstored.same.mac⟩, rfl, by simp,
      fun i hi => ?_⟩
    have hqueued := hstored.queued i hi
    simp only [List.take_succ_cons, List.take_zero, List.filter_cons_of_pos (haddressed i),
      List.filter_nil, List.map_cons, List.map_nil]
    show _ ++ queuedFrames e₁ i = _
    rw [hqueued]
    by_cases hij : i = j
    · subst hij
      simp [hqueue, framesz_ne_zero f]
    · simp [hij, hi]
  · -- the frame is copied to the guest, and the buffer stays free
    have hcast' : isBroadcast f.byte = false := Bool.eq_false_iff.mpr hb'
    have hmac : maccmp (e.vmctrl j).mac f.byte = true := by
      rw [addressed, hcast', Bool.or_false] at hf
      rw [maccmp_comm]
      exact hf
    have hstored := h.stored_none hb hfree f
    refine ⟨_, _, { Drivers.writeFrame e b f with dma := dma }, by rw [if_neg hb'],
      hstored.ok.setDma _ _, ⟨hstored.same.vmCounter, hstored.same.vmId, hstored.same.mac⟩, rfl,
      by simp, fun i hi => ?_⟩
    have hqueued := hstored.queued i hi
    show _ ++ queuedFrames (Drivers.writeFrame e b f) i = _
    rw [hqueued]
    have hi' := h.addressed_iff hi hj hcast' hmac
    by_cases hij : i = j
    · subst hij
      simp [hqueue, framesz_ne_zero f, hi']
    · simp [hij, hi']

/-- It is for another VM: it goes into the ring of that VM, and the loop goes on. -/
theorem EthOk.receive_other (h : EthOk e) {f : Frame} (hf : addressed e j f = false)
    (dma : List Frame) (hi : i < e.vmCounter.toNat) (hmac : maccmp (e.vmctrl i).mac f.byte)
    (room : (refs (e.vmctrl i)).length < 9) {b : Nat} (hb : b < NUMBER_OF_FRAMES.toNat)
    (hfree : (e.bBuf b).used = 0) (hget : Drivers.getFreeBuffer e = b) :
    ∃ e', receiveLoop j (f :: dma) e = receiveLoop j dma e' ∧ Stored e f [i] e' := by
  obtain ⟨hindex, hnonneg⟩ := toNat_index hb (by decide)
  have hlt : ¬NUMBER_OF_FRAMES ≤ UInt32.ofInt (b : Int) := by
    rw [UInt32.le_iff_toNat_le, hindex]
    exact Nat.not_le_of_lt hb
  have hcond : (maccmp ((Drivers.writeFrame e b f).bBuf b).frame
      ((Drivers.writeFrame e b f).vmctrl j).mac ||
      isBroadcast ((Drivers.writeFrame e b f).bBuf b).frame) ≠ true := by
    rw [isBroadcast, writeFrame_maccmp, writeFrame_maccmp]
    exact Bool.eq_false_iff.mp hf
  have hcast : isBroadcast f.byte = false := by
    rw [addressed, Bool.or_eq_false_iff] at hf
    exact hf.2
  have hdest : getVmDestination (Drivers.writeFrame e b f)
      ((Drivers.writeFrame e b f).bBuf b).frame = i := by
    obtain ⟨k, hk, hmac', hfirst⟩ := firstIndex_some
      (p := fun i => maccmp (e.vmctrl i).mac ((Drivers.writeFrame e b f).bBuf b).frame)
      ⟨i, hi, by rw [maccmp_comm, writeFrame_maccmp, maccmp_comm]; exact hmac⟩
    rw [maccmp_comm, writeFrame_maccmp, maccmp_comm] at hmac'
    have hki := h.addressed_iff hk hi hcast hmac
    rw [addressed, maccmp_comm, hmac', Bool.true_or, eq_comm, decide_eq_true_iff] at hki
    rw [← hki]
    exact hfirst
  have hcounter : e.vmCounter.toNat < 2 ^ 32 := e.vmCounter.toNat_lt
  obtain ⟨hiindex, hinonneg⟩ := toNat_index hi hcounter
  have hilt : ¬NUMBER_OF_VM ≤ UInt32.ofInt (i : Int) := by
    rw [UInt32.le_iff_toNat_le, hiindex]
    exact Nat.not_le_of_lt (Nat.lt_of_lt_of_le hi h.vmCounter)
  obtain ⟨e₁, he₁, hstored⟩ : ∃ e₁, e₁ = _ ∧ Stored e f [i] e₁ :=
    ⟨_, rfl, h.stored_one hb hfree f hi room⟩
  refine ⟨{ e₁ with numberUsedBuffers := e₁.numberUsedBuffers + 1 }, ?_, ?_⟩
  · rw [he₁]
    simp only [receiveLoop, hget, if_neg hnonneg, if_neg hlt, hindex, if_neg hcond, hdest,
      if_neg hinonneg, if_neg hilt, hiindex]
  · exact ⟨hstored.ok.setDma _ _, ⟨hstored.same.vmCounter, hstored.same.vmId, hstored.same.mac⟩,
      hstored.queued⟩

theorem SameVms.ahead {e e' : Eth} (h : SameVms e e') (j : Nat) (dma : List Frame) :
    ahead e' j dma = ahead e j dma := by
  simp only [Drivers.ahead, h.addressed]

theorem ahead_cons {f : Frame} (hf : addressed e j f = false) (dma : List Frame) :
    ahead e j (f :: dma) = f :: ahead e j dma := by
  rw [ahead, List.takeWhile_cons_of_pos (by simp [hf]), ahead]

/-- The frame takes one of the nine places of another ring, and the rest still fits. -/
theorem Fits.stored {e' : Eth} {f : Frame} {dma : List Frame} (h : Fits e j (f :: dma))
    (hf : addressed e j f = false)
    (hdest : ∀ k < e.vmCounter.toNat, addressed e k f = decide (k = i))
    (hstored : Stored e f [i] e') : Fits e' j dma := by
  have hroom := h.room
  simp only [ahead_cons hf, List.length_cons, List.take_succ_cons] at hroom
  constructor
  · intro g hg
    rw [hstored.same.ahead] at hg
    obtain ⟨k, hk, hmac⟩ := h.registered g (by
      rw [ahead_cons hf]
      exact List.mem_cons_of_mem _ hg)
    exact ⟨k, by rw [hstored.same.vmCounter]; exact hk, by rw [hstored.same.mac]; exact hmac⟩
  · intro k hk hkj
    rw [hstored.same.vmCounter] at hk
    have hroom_k := hroom k hk hkj
    rw [hstored.length_refs hk, hstored.same.ahead, funext (hstored.same.addressed k)]
    by_cases hki : k = i
    · subst hki
      rw [List.filter_cons_of_pos (by rw [hdest k hk]; simp), List.length_cons] at hroom_k
      rw [if_pos rfl]
      omega
    · rw [List.filter_cons_of_neg (by rw [hdest k hk]; simpa using hki)] at hroom_k
      rw [if_neg hki]
      exact hroom_k

theorem Fits.room_lt {f : Frame} {dma : List Frame} (h : Fits e j (f :: dma))
    (hf : addressed e j f = false) (hi : i < e.vmCounter.toNat) (hij : i ≠ j)
    (hdest : addressed e i f = true) : (refs (e.vmctrl i)).length < 9 := by
  have hroom := h.room i hi hij
  rw [ahead_cons hf, List.length_cons, List.take_succ_cons, List.filter_cons_of_pos hdest,
    List.length_cons] at hroom
  omega

/-- By induction on the frames that are offered. -/
theorem receiveLoop_delivers (dma : List Frame) : ∀ {e : Eth}, EthOk e → j < e.vmCounter.toNat →
    refs (e.vmctrl j) = [] → Fits e j dma →
    ∃ framesz bytes e' n, receiveLoop j dma e = .ok ((framesz, bytes), e') ∧
      Delivers e j dma framesz bytes e' n := by
  induction dma with
  | nil =>
    intro e h hj hempty hfits
    refine ⟨0, [], _, 0, rfl, h.setDma [] _, ⟨rfl, fun _ => rfl, fun _ => rfl⟩, rfl, le_refl _,
      fun i hi => ?_⟩
    simp only [ne_eq, not_true_eq_false, and_false, if_false, List.nil_append, List.take_nil,
      List.filter_nil, List.map_nil, List.append_nil]
    rfl
  | cons f dma ih =>
    intro e h hj hempty hfits
    obtain ⟨b, hb, hfree, hget⟩ := h.getFreeBuffer hj hempty fun i hi hij =>
      (Nat.le_add_right _ _).trans (hfits.room i hi hij)
    by_cases hf : addressed e j f = true
    · obtain ⟨framesz, bytes, e', hcall, hdelivers⟩ :=
        h.receive_addressed hj hempty hf dma (by
          intro i hi hij
          have := hfits.room i hi hij
          rwa [ahead, List.takeWhile_cons_of_neg (by simp [hf]), List.length_nil,
            List.take_succ_cons, List.take_zero] at this) hb hfree hget
      exact ⟨framesz, bytes, e', 1, hcall, hdelivers⟩
    · have hf' : addressed e j f = false := Bool.eq_false_iff.mpr hf
      have hcast : isBroadcast f.byte = false := by
        rw [addressed, Bool.or_eq_false_iff] at hf'
        exact hf'.2
      obtain ⟨i, hi, hmac⟩ := hfits.registered f (by
        rw [ahead_cons hf']
        exact List.mem_cons_self)
      have hdest : ∀ k < e.vmCounter.toNat, addressed e k f = decide (k = i) :=
        fun k hk => h.addressed_iff hk hi hcast hmac
      have hij : i ≠ j := by
        rintro rfl
        rw [hdest i hi, decide_eq_true rfl] at hf'
        cases hf'
      have hroom := hfits.room_lt hf' hi hij (by rw [hdest i hi, decide_eq_true rfl])
      obtain ⟨e₁, hstep, hstored⟩ := h.receive_other hf' dma hi hmac hroom hb hfree hget
      have hempty₁ : refs (e₁.vmctrl j) = [] := by
        rw [← List.length_eq_zero_iff, hstored.length_refs hj, hempty,
          if_neg fun heq => hij heq.symm]
        rfl
      have hcounter := hstored.same.vmCounter
      obtain ⟨framesz, bytes, e', n, hcall, hdelivers⟩ :=
        ih hstored.ok (by rw [hcounter]; exact hj) hempty₁ (hfits.stored hf' hdest hstored)
      refine ⟨framesz, bytes, e', n + 1, hstep.trans hcall, hdelivers.ok,
        hstored.same.trans hdelivers.same, hdelivers.rest, Nat.succ_le_succ hdelivers.le,
        fun k hk => ?_⟩
      have hframes := hdelivers.frames k (by rw [hcounter]; exact hk)
      rw [hframes, hstored.queued k hk, List.take_succ_cons, funext (hstored.same.addressed k),
        List.append_assoc]
      congr 1
      by_cases hki : k = i
      · rw [List.filter_cons_of_pos (by rw [hdest k hk]; simpa using hki)]
        simp [hki]
      · rw [List.filter_cons_of_neg (by rw [hdest k hk]; simpa using hki)]
        simp [hki]

theorem receiveFrame_delivers {id : UInt32} (h : EthOk e) (hj : j < e.vmCounter.toNat)
    (hid : (e.vmctrl j).vmId = id) (hqueued : ∀ l ∈ queuedFrames e j, l ≠ [])
    (hfits : (e.vmctrl j).input = (e.vmctrl j).output → Fits e j e.dma) :
    ∃ framesz bytes e' n, receiveFrame e id = .ok ((framesz, bytes), e') ∧
      Delivers e j e.dma framesz bytes e' n := by
  have hpos : getVmBufferPos e id = j := by
    obtain ⟨i, hi, hp, hfirst⟩ :=
      firstIndex_some (p := fun i => (e.vmctrl i).vmId = id) ⟨j, hj, decide_eq_true hid⟩
    obtain rfl := h.vmId i hi j hj ((of_decide_eq_true hp).trans hid.symm)
    exact hfirst
  obtain ⟨hindex, hnonneg⟩ := toNat_index hj e.vmCounter.toNat_lt
  have hlt : ¬NUMBER_OF_VM ≤ UInt32.ofInt (j : Int) := by
    rw [UInt32.le_iff_toNat_le, hindex]
    exact Nat.not_le_of_lt (Nat.lt_of_lt_of_le hj h.vmCounter)
  simp only [receiveFrame, hpos, if_neg hnonneg, if_neg hlt, hindex]
  by_cases hne : (e.vmctrl j).input ≠ (e.vmctrl j).output
  · -- the oldest frame of the ring; its size is not 0, which would mean that there is none
    have hrefs := h.popBuffer_refs hj hne
    have hpop : ∀ i, queuedFrames e i =
        (if i = j then [content (e.bBuf ((e.vmctrl j).frameList (e.vmctrl j).output.toNat))]
          else []) ++ queuedFrames (popBuffer e j) i := by
      intro i
      simp only [queuedFrames, popBuffer_content]
      rw [hrefs i, List.map_append]
      split_ifs <;> rfl
    have hsize : (e.bBuf ((e.vmctrl j).frameList (e.vmctrl j).output.toNat)).frameSize ≠ 0 := by
      intro hzero
      refine hqueued (content (e.bBuf ((e.vmctrl j).frameList (e.vmctrl j).output.toNat))) ?_ ?_
      · rw [hpop j, if_pos rfl]
        exact List.mem_append_left _ (List.mem_singleton_self _)
      · rw [content, hzero]
        rfl
    refine ⟨_, _, _, 0, by rw [if_pos hne], h.pop hj hne, popBuffer_same e j, rfl, Nat.zero_le _,
      fun i _ => ?_⟩
    rw [hpop i, List.take_zero, List.filter_nil, List.map_nil, List.append_nil]
    by_cases hij : i = j
    · rw [if_pos hij, if_pos ⟨hij, hsize⟩]
      rfl
    · rw [if_neg hij, if_neg fun hboth => hij hboth.1]
  · have heq := not_not.mp hne
    obtain ⟨framesz, bytes, e', n, hcall, hdelivers⟩ :=
      receiveLoop_delivers e.dma h hj (refs_nil heq (h.output j hj)) (hfits heq)
    exact ⟨framesz, bytes, e', n, by rw [if_neg hne]; exact hcall, hdelivers⟩

/-! ### Runs -/

/-- The driver with the frames that it read since a VM has its MAC, and those that the VM got. -/
structure EthRun where
  eth : Eth
  read : UInt32 → List Frame
  received : UInt32 → List (List UInt8)

inductive EthEvent
  | offer (f : Frame)
  | getMac (id : UInt32)
  | receive (id : UInt32)

def ethStep (macaddr : Nat → UInt8) (r : EthRun) : EthEvent → Option EthRun
  | .offer f => some { r with eth := { r.eth with dma := r.eth.dma ++ [f] } }
  | .getMac id => some { r with
      eth := enGetMac macaddr r.eth id
      read := Function.update r.read id [] }
  | .receive id =>
    match receiveFrame r.eth id with
    | .ok ((framesz, bytes), eth) => some {
        eth := eth
        read := fun k => r.read k ++ r.eth.dma.take (r.eth.dma.length - eth.dma.length)
        received :=
          if framesz ≠ 0 then Function.update r.received id (r.received id ++ [bytes])
          else r.received }
    | .error _ => none

/-- The driver before a VM has called it. -/
def ethStart : EthRun where
  eth := {
    bBuf := fun _ => { used := 0, frameSize := 0, frame := fun _ => 0 }
    vmctrl := fun _ => {
      vmId := 0, mac := fun _ => 0, input := 0, output := 0, frameList := fun _ => 0 }
    vmCounter := 0
    numberUsedBuffers := 0
    dma := [] }
  read := fun _ => []
  received := fun _ => []

/-- The condition on a step.  A VM calls `en_get_mac` once, and `receive_frame` after that.  When
its ring is empty, the frames up to one for it are for registered VMs, and fit in their rings. -/
def Serves (r : EthRun) : EthEvent → Prop
  | .offer _ => True
  | .getMac id => ∀ i < r.eth.vmCounter.toNat, (r.eth.vmctrl i).vmId ≠ id
  | .receive id => ∃ j < r.eth.vmCounter.toNat, (r.eth.vmctrl j).vmId = id ∧
      ((r.eth.vmctrl j).input = (r.eth.vmctrl j).output → Fits r.eth j r.eth.dma)

/-- The frames of a VM were given to it, in order, or wait for it. -/
structure Delivered (macaddr : Nat → UInt8) (r : EthRun) : Prop where
  ok : EthOk r.eth
  mac : ∀ i < r.eth.vmCounter.toNat, (r.eth.vmctrl i).mac = vmMac macaddr (UInt32.ofNat i)
  unregistered : ∀ id, (∀ i < r.eth.vmCounter.toNat, (r.eth.vmctrl i).vmId ≠ id) →
    r.received id = []
  frames : ∀ i < r.eth.vmCounter.toNat,
    r.received (r.eth.vmctrl i).vmId ++ queuedFrames r.eth i =
      ((r.read (r.eth.vmctrl i).vmId).filter (addressed r.eth i)).map Frame.bytes

variable {macaddr : Nat → UInt8} {r : EthRun}

theorem ethStart_delivered : Delivered macaddr ethStart where
  ok := {
    vmCounter := Nat.zero_le _
    mac := fun _ hi => absurd hi (Nat.not_lt_zero _)
    vmId := fun _ hi => absurd hi (Nat.not_lt_zero _)
    input := fun _ hi => absurd hi (Nat.not_lt_zero _)
    output := fun _ hi => absurd hi (Nat.not_lt_zero _)
    unused := fun _ _ => ⟨rfl, rfl⟩
    bounded := fun _ hi => absurd hi (Nat.not_lt_zero _)
    used := fun _ _ => rfl }
  mac := fun _ hi => absurd hi (Nat.not_lt_zero _)
  unregistered := fun _ _ => rfl
  frames := fun _ hi => absurd hi (Nat.not_lt_zero _)

theorem Delivered.receive {id : UInt32} (h : Delivered macaddr r)
    (hserves : Serves r (.receive id)) :
    ∃ r', ethStep macaddr r (.receive id) = some r' ∧ Delivered macaddr r' := by
  obtain ⟨j, hj, hid, hfits⟩ := hserves
  have hqueued : ∀ l ∈ queuedFrames r.eth j, l ≠ [] := by
    intro l hl
    have hmem := List.mem_append_right (r.received (r.eth.vmctrl j).vmId) hl
    rw [h.frames j hj] at hmem
    obtain ⟨f, -, rfl⟩ := List.mem_map.mp hmem
    exact List.ne_nil_of_length_pos (Nat.lt_of_lt_of_le (by decide) f.header)
  obtain ⟨framesz, bytes, e', n, hcall, hdelivers⟩ :=
    receiveFrame_delivers h.ok hj hid hqueued hfits
  have hsame := hdelivers.same
  refine ⟨_, by simp only [ethStep, hcall]; rfl, hdelivers.ok, fun i hi => ?_, fun k hk => ?_,
    fun i hi => ?_⟩
  · rw [hsame.mac]
    exact h.mac i (hsame.vmCounter ▸ hi)
  · have hk' : ∀ i < r.eth.vmCounter.toNat, (r.eth.vmctrl i).vmId ≠ k := fun i hi => by
      rw [← hsame.vmId]
      exact hk i (hsame.vmCounter ▸ hi)
    have hkid : k ≠ id := fun heq => hk' j hj (hid.trans heq.symm)
    dsimp only
    split_ifs
    · rw [Function.update_of_ne hkid]
      exact h.unregistered k hk'
    · exact h.unregistered k hk'
  · have hi' : i < r.eth.vmCounter.toNat := hsame.vmCounter ▸ hi
    have hframes := hdelivers.frames i hi'
    have htake : r.eth.dma.length - e'.dma.length = n := by
      have hle := hdelivers.le
      rw [hdelivers.rest, List.length_drop]
      omega
    have hreceived : (if framesz ≠ 0 then
          Function.update r.received id (r.received id ++ [bytes]) else r.received)
            (r.eth.vmctrl i).vmId =
        r.received (r.eth.vmctrl i).vmId ++ if i = j ∧ framesz ≠ 0 then [bytes] else [] := by
      by_cases hij : i = j
      · subst hij
        by_cases hsize : framesz ≠ 0
        · rw [if_pos hsize, if_pos ⟨rfl, hsize⟩, hid, Function.update_self]
        · rw [if_neg hsize, if_neg fun hboth : i = i ∧ framesz ≠ 0 => hsize hboth.2,
            List.append_nil]
      · have hne : (r.eth.vmctrl i).vmId ≠ id :=
          fun heq => hij (h.ok.vmId i hi' j hj (heq.trans hid.symm))
        rw [if_neg fun hboth : i = j ∧ framesz ≠ 0 => hij hboth.1, List.append_nil]
        split_ifs
        · rw [Function.update_of_ne hne]
        · rfl
    dsimp only
    rw [hsame.vmId, hreceived, htake, List.append_assoc, hframes, ← List.append_assoc,
      h.frames i hi', funext (hsame.addressed i), List.filter_append, List.map_append]

theorem vmMac_injective {i j : Nat} (hi : i < 2) (hj : j < 2)
    (h : maccmp (vmMac macaddr (UInt32.ofNat i)) (vmMac macaddr (UInt32.ofNat j))) : i = j := by
  have hlast := maccmp_iff.mp h 5 (by decide)
  simp only [vmMac, Function.update_self] at hlast
  have hbyte := congrArg UInt8.toNat ((UInt8.add_right_inj _).mp hlast)
  rw [UInt32.toNat_toUInt8, UInt32.toNat_toUInt8, UInt32.toNat_ofNat', UInt32.toNat_ofNat'] at hbyte
  omega

section

variable (macaddr : Nat → UInt8) (id : UInt32) (hroom : r.eth.vmCounter < NUMBER_OF_VM)

include hroom

theorem enGetMac_vmCounter :
    (enGetMac macaddr r.eth id).vmCounter.toNat = r.eth.vmCounter.toNat + 1 := by
  have hlt := UInt32.lt_iff_toNat_lt.mp hroom
  rw [show NUMBER_OF_VM.toNat = 2 from rfl] at hlt
  simp only [enGetMac, if_pos hroom, UInt32.toNat_add, UInt32.toNat_one]
  omega

theorem enGetMac_new : (enGetMac macaddr r.eth id).vmctrl r.eth.vmCounter.toNat =
    { r.eth.vmctrl r.eth.vmCounter.toNat with
      mac := vmMac macaddr r.eth.vmCounter, vmId := id } := by
  simp only [enGetMac, if_pos hroom, Function.update_self]

theorem enGetMac_old {i : Nat} (hi : i ≠ r.eth.vmCounter.toNat) :
    (enGetMac macaddr r.eth id).vmctrl i = r.eth.vmctrl i := by
  simp only [enGetMac, if_pos hroom, Function.update_of_ne hi]

theorem enGetMac_bBuf (b : Nat) : (enGetMac macaddr r.eth id).bBuf b = r.eth.bBuf b := by
  simp only [enGetMac, if_pos hroom]

end

theorem EthOk.refs_unused (h : EthOk e) : refs (e.vmctrl e.vmCounter.toNat) = [] := by
  obtain ⟨hin, hout⟩ := h.unused _ (le_refl _)
  exact refs_nil (hin.trans hout.symm) (hout ▸ by decide)

theorem Delivered.register {id : UInt32} (h : Delivered macaddr r)
    (hfresh : ∀ i < r.eth.vmCounter.toNat, (r.eth.vmctrl i).vmId ≠ id)
    (hroom : r.eth.vmCounter < NUMBER_OF_VM) : EthOk (enGetMac macaddr r.eth id) := by
  have hlt : r.eth.vmCounter.toNat < 2 := UInt32.lt_iff_toNat_lt.mp hroom
  have hcounter := enGetMac_vmCounter macaddr id hroom
  have hnew := enGetMac_new macaddr id hroom
  have hold : ∀ {i}, i < r.eth.vmCounter.toNat →
      (enGetMac macaddr r.eth id).vmctrl i = r.eth.vmctrl i :=
    fun hi => enGetMac_old macaddr id hroom (Nat.ne_of_lt hi)
  -- the VMs are those that have registered and the new one
  have hcases : ∀ {i}, i < (enGetMac macaddr r.eth id).vmCounter.toNat →
      i < r.eth.vmCounter.toNat ∨ i = r.eth.vmCounter.toNat :=
    fun hi => Nat.lt_or_eq_of_le (Nat.le_of_lt_succ (Nat.lt_of_lt_of_eq hi hcounter))
  have hrefs : refs ((enGetMac macaddr r.eth id).vmctrl r.eth.vmCounter.toNat) = [] := by
    rw [hnew]
    exact h.ok.refs_unused
  have hmac : ∀ i < (enGetMac macaddr r.eth id).vmCounter.toNat,
      ((enGetMac macaddr r.eth id).vmctrl i).mac = vmMac macaddr (UInt32.ofNat i) := by
    intro i hi
    rcases hcases hi with hi | rfl
    · rw [hold hi]
      exact h.mac i hi
    · rw [hnew, UInt32.ofNat_toNat]
  constructor
  · rw [hcounter]
    exact hlt
  · intro i hi j hj hcmp
    rw [hmac i hi, hmac j hj] at hcmp
    rw [hcounter] at hi hj
    exact vmMac_injective (by omega) (by omega) hcmp
  · intro i hi j hj hid
    rcases hcases hi with hi | rfl
    · rcases hcases hj with hj | rfl
      · rw [hold hi, hold hj] at hid
        exact h.ok.vmId i hi j hj hid
      · rw [hold hi, hnew] at hid
        exact absurd hid (hfresh i hi)
    · rcases hcases hj with hj | rfl
      · rw [hold hj, hnew] at hid
        exact absurd hid.symm (hfresh j hj)
      · rfl
  · intro i hi
    rcases hcases hi with hi | rfl
    · rw [hold hi]
      exact h.ok.input i hi
    · rw [hnew, (h.ok.unused _ (le_refl _)).1]
      decide
  · intro i hi
    rcases hcases hi with hi | rfl
    · rw [hold hi]
      exact h.ok.output i hi
    · rw [hnew, (h.ok.unused _ (le_refl _)).2]
      decide
  · intro i hi
    rw [hcounter] at hi
    rw [enGetMac_old macaddr id hroom (Nat.ne_of_gt hi)]
    exact h.ok.unused i (Nat.le_of_succ_le hi)
  · intro i hi b hb
    rcases hcases hi with hi | rfl
    · rw [hold hi] at hb
      exact h.ok.bounded i hi b hb
    · rw [hrefs] at hb
      exact absurd hb List.not_mem_nil
  · intro b hb
    have hsame : ∀ i ∈ Finset.range r.eth.vmCounter.toNat,
        (refs ((enGetMac macaddr r.eth id).vmctrl i)).count b = (refs (r.eth.vmctrl i)).count b :=
      fun i hi => by rw [hold (Finset.mem_range.mp hi)]
    rw [enGetMac_bBuf macaddr id hroom, hcounter, Finset.sum_range_succ, hrefs,
      Finset.sum_congr rfl hsame]
    exact h.ok.used b hb

theorem Delivered.getMac {id : UInt32} (h : Delivered macaddr r) (hserves : Serves r (.getMac id)) :
    ∃ r', ethStep macaddr r (.getMac id) = some r' ∧ Delivered macaddr r' := by
  have hread : ∀ i < r.eth.vmCounter.toNat,
      Function.update r.read id [] (r.eth.vmctrl i).vmId = r.read (r.eth.vmctrl i).vmId :=
    fun i hi => Function.update_of_ne (hserves i hi) _ _
  refine ⟨_, rfl, ?_⟩
  by_cases hroom : r.eth.vmCounter < NUMBER_OF_VM
  · have hcounter := enGetMac_vmCounter macaddr id hroom
    have hnew := enGetMac_new macaddr id hroom
    have hold : ∀ {i}, i < r.eth.vmCounter.toNat →
        (enGetMac macaddr r.eth id).vmctrl i = r.eth.vmctrl i :=
      fun hi => enGetMac_old macaddr id hroom (Nat.ne_of_lt hi)
    have hqueued : ∀ {i}, refs ((enGetMac macaddr r.eth id).vmctrl i) = refs (r.eth.vmctrl i) →
        queuedFrames (enGetMac macaddr r.eth id) i = queuedFrames r.eth i := by
      intro i hi
      rw [queuedFrames, hi]
      exact List.map_congr_left fun b _ => by rw [enGetMac_bBuf macaddr id hroom]
    refine ⟨h.register hserves hroom, fun i hi => ?_, fun k hk => ?_, fun i hi => ?_⟩
    · rcases Nat.lt_or_eq_of_le (Nat.le_of_lt_succ (hcounter ▸ hi)) with hi | rfl
      · rw [hold hi]
        exact h.mac i hi
      · rw [hnew, UInt32.ofNat_toNat]
    · refine h.unregistered k fun i hi => ?_
      have hki := hk i (hcounter ▸ Nat.lt_succ_of_lt hi)
      rwa [hold hi] at hki
    · rcases Nat.lt_or_eq_of_le (Nat.le_of_lt_succ (hcounter ▸ hi)) with hi | rfl
      · dsimp only
        rw [hqueued (by rw [hold hi]),
          funext fun f => show addressed (enGetMac macaddr r.eth id) i f
          = addressed r.eth i f by rw [addressed, addressed, hold hi], hold hi, hread i hi]
        exact h.frames i hi
      · dsimp only
        rw [hqueued (by rw [hnew]; rfl), queuedFrames, h.ok.refs_unused, hnew,
          h.unregistered id hserves, Function.update_self]
        rfl
  · -- all places are taken: the VM gets an address but no ring
    have hsame : enGetMac macaddr r.eth id = r.eth := if_neg hroom
    rw [hsame]
    refine ⟨h.ok, h.mac, h.unregistered, fun i hi => ?_⟩
    dsimp only
    rw [hread i hi]
    exact h.frames i hi

theorem Delivered.step (h : Delivered macaddr r) (event : EthEvent) (hserves : Serves r event) :
    ∃ r', ethStep macaddr r event = some r' ∧ Delivered macaddr r' := by
  cases event with
  | offer f => exact ⟨_, rfl, h.ok.setDma _ _, h.mac, h.unregistered, h.frames⟩
  | getMac id => exact h.getMac hserves
  | receive id => exact h.receive hserves

/-- In a run whose frames fit in the rings, the buffers count the references to them, and each VM
got its frames and the broadcast ones, or has them in its ring. -/
theorem ethernet_delivery (macaddr : Nat → UInt8) (es : List EthEvent)
    (hserves : Guarded (ethStep macaddr) Serves ethStart es) :
    ∃ r, run (ethStep macaddr) ethStart es = some r ∧
      (∀ b < NUMBER_OF_FRAMES.toNat, (r.eth.bBuf b).used.toNat =
        ∑ i ∈ Finset.range r.eth.vmCounter.toNat, (refs (r.eth.vmctrl i)).count b) ∧
      ∀ i < r.eth.vmCounter.toNat, r.received (r.eth.vmctrl i).vmId ++ queuedFrames r.eth i =
        ((r.read (r.eth.vmctrl i).vmId).filter (addressed r.eth i)).map Frame.bytes := by
  obtain ⟨r, hrun, h⟩ := run_guarded (fun _ e h he => h.step e he) ethStart_delivered hserves
  exact ⟨r, hrun, h.ok.used, h.frames⟩

instance (e : Eth) (j : Nat) (dma : List Frame) : Decidable (Fits e j dma) :=
  decidable_of_iff ((∀ f ∈ ahead e j dma, ∃ i < e.vmCounter.toNat, maccmp (e.vmctrl i).mac f.byte) ∧
    ∀ i < e.vmCounter.toNat, i ≠ j → (refs (e.vmctrl i)).length +
      ((dma.take ((ahead e j dma).length + 1)).filter (addressed e i)).length ≤ 9)
    ⟨fun h => ⟨h.1, h.2⟩, fun h => ⟨h.registered, h.room⟩⟩

instance (r : EthRun) : (e : EthEvent) → Decidable (Serves r e)
  | .offer _ => isTrue trivial
  | .getMac id => inferInstanceAs (Decidable
      (∀ i < r.eth.vmCounter.toNat, (r.eth.vmctrl i).vmId ≠ id))
  | .receive id => inferInstanceAs (Decidable (∃ j < r.eth.vmCounter.toNat,
      (r.eth.vmctrl j).vmId = id ∧
        ((r.eth.vmctrl j).input = (r.eth.vmctrl j).output → Fits r.eth j r.eth.dma)))

/-- A frame of the least size, for the VM with the MAC that ends with `last`, or all. -/
def minFrame (destination : List UInt8) (h : destination.length = 6) : Frame where
  bytes := destination ++ List.replicate 54 0
  header := by simp [h, MAC_ADDRESS_SIZE]
  fits := by simp [h, MTU]

theorem ethernet_delivery_broadcast :
    ∃ r, run (ethStep fun _ => 0) ethStart
        [.getMac 1, .getMac 2, .offer (minFrame [0, 0, 0, 0, 0, 1] rfl),
          .offer (minFrame [255, 255, 255, 255, 255, 255] rfl), .receive 1, .receive 2] = some r ∧
      (∀ b < NUMBER_OF_FRAMES.toNat, (r.eth.bBuf b).used.toNat =
        ∑ i ∈ Finset.range r.eth.vmCounter.toNat, (refs (r.eth.vmctrl i)).count b) ∧
      ∀ i < r.eth.vmCounter.toNat, r.received (r.eth.vmctrl i).vmId ++ queuedFrames r.eth i =
        ((r.read (r.eth.vmctrl i).vmId).filter (addressed r.eth i)).map Frame.bytes :=
  ethernet_delivery (fun _ => 0) _ (by decide +kernel)

/-- Ten frames for a VM that does not ask for them: its ring looks empty, and the buffers stay in
use with nothing that refers to them. -/
theorem burst_lost :
    ∃ r, run (ethStep fun _ => 0) ethStart
        ([.getMac 1, .getMac 2] ++
          List.replicate 10 (.offer (minFrame [0, 0, 0, 0, 0, 1] rfl)) ++ [.receive 1]) = some r ∧
      r.eth.vmCounter = 2 ∧ (r.eth.vmctrl 1).vmId = 2 ∧
      ((r.read 2).filter (addressed r.eth 1)).length = 10 ∧
      r.received 2 = [] ∧ queuedFrames r.eth 1 = [] ∧
      ∀ b < NUMBER_OF_FRAMES.toNat, (r.eth.bBuf b).used = 1 ∧
        ∀ i < 2, b ∉ refs (r.eth.vmctrl i) := by
  have hrun : (run (ethStep fun _ => 0) ethStart
      ([.getMac 1, .getMac 2] ++
        List.replicate 10 (.offer (minFrame [0, 0, 0, 0, 0, 1] rfl)) ++ [.receive 1])).any
      (fun r => r.eth.vmCounter = 2 ∧ (r.eth.vmctrl 1).vmId = 2 ∧
        ((r.read 2).filter (addressed r.eth 1)).length = 10 ∧
        r.received 2 = [] ∧ queuedFrames r.eth 1 = [] ∧
        ∀ b < NUMBER_OF_FRAMES.toNat, (r.eth.bBuf b).used = 1 ∧
          ∀ i < 2, b ∉ refs (r.eth.vmctrl i)) := by
    decide +kernel
  obtain ⟨r, hr, h⟩ := (Option.any_eq_true _ _).mp hrun
  exact ⟨r, hr, of_decide_eq_true h⟩

end PrplHypervisor.Drivers
