import Mathlib.Algebra.BigOperators.Group.Finset.Piecewise
import Mathlib.Algebra.Group.Action.Defs
import PrplHypervisor.Drivers.Ethernet

/-! The rings and the buffers of the shared Ethernet driver.  A buffer counts the slots between the
output and the input of a ring that refer to it: a reference that goes into a ring with room, or one
that leaves a ring, keeps the counts right. -/

namespace PrplHypervisor.Drivers

open Lib.Ring

/-- The number of slots between the output and the input of a ring. -/
def ringLength (vm : VmCtrlBuffer) : Nat :=
  (vm.input.toNat + NUMBER_OF_FRAMES.toNat - vm.output.toNat) % NUMBER_OF_FRAMES.toNat

/-- The buffers in those slots. -/
def refs (vm : VmCtrlBuffer) : List Nat :=
  window vm.frameList vm.output.toNat (ringLength vm) NUMBER_OF_FRAMES.toNat

/-- The frame that a buffer holds. -/
def content (b : BoundedBuffer) : List UInt8 := (List.range b.frameSize.toNat).map b.frame

/-- The frames that wait for the `i`-th VM. -/
def queuedFrames (e : Eth) (i : Nat) : List (List UInt8) :=
  (refs (e.vmctrl i)).map fun b => content (e.bBuf b)

/-- The frame is for the `i`-th VM: it has its MAC or is broadcast. -/
def addressed (e : Eth) (i : Nat) (f : Frame) : Bool :=
  maccmp f.byte (e.vmctrl i).mac || isBroadcast f.byte

/-- What the VMs of the driver have registered. -/
structure SameVms (e e' : Eth) : Prop where
  vmCounter : e'.vmCounter = e.vmCounter
  vmId : ∀ i, (e'.vmctrl i).vmId = (e.vmctrl i).vmId
  mac : ∀ i, (e'.vmctrl i).mac = (e.vmctrl i).mac

/-- The rings of the registered VMs are well formed and the buffers count their references. -/
structure EthOk (e : Eth) : Prop where
  vmCounter : e.vmCounter.toNat ≤ NUMBER_OF_VM.toNat
  mac : ∀ i < e.vmCounter.toNat, ∀ j < e.vmCounter.toNat,
    maccmp (e.vmctrl i).mac (e.vmctrl j).mac → i = j
  vmId : ∀ i < e.vmCounter.toNat, ∀ j < e.vmCounter.toNat,
    (e.vmctrl i).vmId = (e.vmctrl j).vmId → i = j
  input : ∀ i < e.vmCounter.toNat, (e.vmctrl i).input < NUMBER_OF_FRAMES
  output : ∀ i < e.vmCounter.toNat, (e.vmctrl i).output < NUMBER_OF_FRAMES
  unused : ∀ i, e.vmCounter.toNat ≤ i → (e.vmctrl i).input = 0 ∧ (e.vmctrl i).output = 0
  bounded : ∀ i < e.vmCounter.toNat, ∀ b ∈ refs (e.vmctrl i), b < NUMBER_OF_FRAMES.toNat
  used : ∀ b < NUMBER_OF_FRAMES.toNat, (e.bBuf b).used.toNat =
    ∑ i ∈ Finset.range e.vmCounter.toNat, (refs (e.vmctrl i)).count b

/-! ### Comparing addresses, and searching -/

theorem maccmp_iff {a b : Nat → UInt8} : maccmp a b = true ↔ ∀ i < MAC_ADDRESS_SIZE, a i = b i := by
  simp [maccmp]

theorem maccmp_comm (a b : Nat → UInt8) : maccmp a b = maccmp b a := by
  simp only [maccmp, eq_comm]

theorem maccmp_congr {a a' : Nat → UInt8} (h : ∀ i < MAC_ADDRESS_SIZE, a i = a' i)
    (b : Nat → UInt8) : maccmp a b = maccmp a' b := by
  rw [Bool.eq_iff_iff, maccmp_iff, maccmp_iff]
  constructor
  · exact fun hab i hi => (h i hi).symm.trans (hab i hi)
  · exact fun hab i hi => (h i hi).trans (hab i hi)

theorem firstIndex_some {p : Nat → Bool} {n : Nat} (h : ∃ i < n, p i) :
    ∃ i < n, p i ∧ firstIndex p n = i := by
  obtain ⟨j, hj, hp⟩ := h
  cases hfind : (List.range n).find? p with
  | none => exact absurd hp (by simpa using List.find?_eq_none.mp hfind j (List.mem_range.mpr hj))
  | some i =>
    refine ⟨i, List.mem_range.mp (List.mem_of_find?_eq_some hfind), List.find?_some hfind, ?_⟩
    rw [firstIndex, hfind]

/-- An index that was found is not -1, so it is used as it is. -/
theorem toNat_index {i n : Nat} (hi : i < n) (hn : n < 2 ^ 32) :
    (UInt32.ofInt (i : Int)).toNat = i ∧ ¬UInt32.ofInt (i : Int) < 0 := by
  have htoNat : (UInt32.ofInt (i : Int)).toNat = i := by
    simp only [UInt32.ofInt, UInt32.toNat_ofNat']
    omega
  exact ⟨htoNat, fun hlt => Nat.not_lt_zero _ (UInt32.lt_iff_toNat_lt.mp hlt)⟩

/-! ### The rings -/

theorem length_refs (vm : VmCtrlBuffer) : (refs vm).length = ringLength vm := length_window

theorem toNat_frames : NUMBER_OF_FRAMES.toNat = 10 := rfl

variable {vm : VmCtrlBuffer}

theorem output_add_ringLength (hin : vm.input < NUMBER_OF_FRAMES)
    (hout : vm.output < NUMBER_OF_FRAMES) :
    (vm.output.toNat + ringLength vm) % NUMBER_OF_FRAMES.toNat = vm.input.toNat := by
  have h1 := UInt32.lt_iff_toNat_lt.mp hin
  have h2 := UInt32.lt_iff_toNat_lt.mp hout
  rw [ringLength]
  rw [toNat_frames] at *
  omega

theorem toNat_nextSlot {i : UInt32} (h : i < NUMBER_OF_FRAMES) :
    ((i + 1) % NUMBER_OF_FRAMES).toNat = (i.toNat + 1) % NUMBER_OF_FRAMES.toNat := by
  have hlt := UInt32.lt_iff_toNat_lt.mp h
  rw [toNat_frames] at hlt
  rw [UInt32.toNat_mod, UInt32.toNat_add, UInt32.toNat_one, Nat.mod_eq_of_lt (a := i.toNat + 1)]
  omega

theorem nextSlot_lt (i : UInt32) : (i + 1) % NUMBER_OF_FRAMES < NUMBER_OF_FRAMES := by
  rw [UInt32.lt_iff_toNat_lt, UInt32.toNat_mod]
  exact Nat.mod_lt _ (by decide)

theorem refs_push (hin : vm.input < NUMBER_OF_FRAMES) (hout : vm.output < NUMBER_OF_FRAMES)
    (room : (refs vm).length < 9) (b : Nat) :
    refs { vm with
      frameList := Function.update vm.frameList vm.input.toNat b
      input := (vm.input + 1) % NUMBER_OF_FRAMES } = refs vm ++ [b] := by
  rw [length_refs] at room
  have hslot := output_add_ringLength hin hout
  have hlength : ringLength { vm with
      frameList := Function.update vm.frameList vm.input.toNat b
      input := (vm.input + 1) % NUMBER_OF_FRAMES } = ringLength vm + 1 := by
    have h1 := UInt32.lt_iff_toNat_lt.mp hin
    have h2 := UInt32.lt_iff_toNat_lt.mp hout
    simp only [ringLength, toNat_nextSlot hin] at room ⊢
    rw [toNat_frames] at *
    omega
  rw [refs, hlength, ← hslot]
  exact window_push (Nat.lt_trans room (by decide)) b

theorem refs_pop (hin : vm.input < NUMBER_OF_FRAMES) (hout : vm.output < NUMBER_OF_FRAMES)
    (hne : vm.input ≠ vm.output) :
    refs vm = vm.frameList vm.output.toNat ::
      refs { vm with output := (vm.output + 1) % NUMBER_OF_FRAMES } := by
  have hlength : ringLength vm =
      ringLength { vm with output := (vm.output + 1) % NUMBER_OF_FRAMES } + 1 := by
    have h1 := UInt32.lt_iff_toNat_lt.mp hin
    have h2 := UInt32.lt_iff_toNat_lt.mp hout
    have h3 : vm.input.toNat ≠ vm.output.toNat := fun heq => hne (UInt32.toNat_inj.mp heq)
    simp only [ringLength, toNat_nextSlot hout]
    rw [toNat_frames] at *
    omega
  rw [refs, hlength, window_succ (UInt32.lt_iff_toNat_lt.mp hout), refs, toNat_nextSlot hout]

theorem refs_nil (heq : vm.input = vm.output) (hout : vm.output < NUMBER_OF_FRAMES) :
    refs vm = [] := by
  have h := UInt32.lt_iff_toNat_lt.mp hout
  rw [← List.length_eq_zero_iff, length_refs, ringLength, heq]
  rw [toNat_frames] at *
  omega

/-! ### Changes of the buffers -/

variable {e : Eth} {i j b : Nat}

theorem EthOk.setBuffer (h : EthOk e) (b : Nat) {buffer : BoundedBuffer}
    (hused : buffer.used = (e.bBuf b).used) :
    EthOk { e with bBuf := Function.update e.bBuf b buffer } where
  vmCounter := h.vmCounter
  mac := h.mac
  vmId := h.vmId
  input := h.input
  output := h.output
  unused := h.unused
  bounded := h.bounded
  used := fun c hc => by
    rw [← h.used c hc]
    simp only [Function.update_apply]
    split_ifs with heq
    · rw [heq, hused]
    · rfl

theorem pushBuffer_refs (h : EthOk e) (hi : i < e.vmCounter.toNat)
    (room : (refs (e.vmctrl i)).length < 9) (b j : Nat) :
    refs ((pushBuffer e i b).vmctrl j) = refs (e.vmctrl j) ++ if j = i then [b] else [] := by
  simp only [pushBuffer, Function.update_apply]
  split_ifs with hji
  · rw [hji]
    exact refs_push (h.input i hi) (h.output i hi) room b
  · rw [List.append_nil]

theorem pushBuffer_same (e : Eth) (i b : Nat) : SameVms e (pushBuffer e i b) := by
  refine ⟨rfl, fun j => ?_, fun j => ?_⟩
  · simp only [pushBuffer, Function.update_apply]
    split_ifs with heq
    · rw [heq]
    · rfl
  · simp only [pushBuffer, Function.update_apply]
    split_ifs with heq
    · rw [heq]
    · rfl

@[simp] theorem pushBuffer_content (e : Eth) (i b c : Nat) :
    content ((pushBuffer e i b).bBuf c) = content (e.bBuf c) := by
  simp only [pushBuffer, Function.update_apply]
  split_ifs with heq
  · rw [heq]
    rfl
  · rfl

theorem SameVms.refl (e : Eth) : SameVms e e := ⟨rfl, fun _ => rfl, fun _ => rfl⟩

theorem SameVms.trans {e e' e'' : Eth} (h : SameVms e e') (h' : SameVms e' e'') : SameVms e e'' :=
  ⟨h'.vmCounter.trans h.vmCounter, fun i => (h'.vmId i).trans (h.vmId i),
    fun i => (h'.mac i).trans (h.mac i)⟩

theorem SameVms.addressed {e e' : Eth} (h : SameVms e e') (i : Nat) (f : Frame) :
    addressed e' i f = addressed e i f := by
  rw [Drivers.addressed, Drivers.addressed, h.mac i]

theorem EthOk.used_le (h : EthOk e) {b : Nat} (hb : b < NUMBER_OF_FRAMES.toNat) :
    (e.bBuf b).used.toNat ≤ 18 := by
  rw [h.used b hb]
  have hone : ∀ i ∈ Finset.range e.vmCounter.toNat, (refs (e.vmctrl i)).count b ≤ 9 := by
    intro i hi
    refine (List.count_le_length).trans ?_
    have := Nat.mod_lt ((e.vmctrl i).input.toNat + NUMBER_OF_FRAMES.toNat -
      (e.vmctrl i).output.toNat) (show NUMBER_OF_FRAMES.toNat > 0 by decide)
    rw [length_refs, ringLength]
    rw [toNat_frames] at *
    omega
  have hsum := Finset.sum_le_card_nsmul _ _ _ hone
  have hcounter := h.vmCounter
  rw [Finset.card_range, smul_eq_mul] at hsum
  rw [show NUMBER_OF_VM.toNat = 2 from rfl] at hcounter
  omega

/-- One more reference to `b` in the ring of the `i`-th VM is one more to `b` in all. -/
theorem sum_count_add {l l' : Nat → List Nat} {n i : Nat} (hi : i < n) (b c : Nat)
    (h : ∀ j, (l' j).Perm (l j ++ if j = i then [b] else [])) :
    ∑ j ∈ Finset.range n, (l' j).count c =
      (∑ j ∈ Finset.range n, (l j).count c) + if b = c then 1 else 0 := by
  have hcount : ∀ j, (l' j).count c =
      (l j).count c + if j = i then (if b = c then 1 else 0) else 0 := by
    intro j
    rw [(h j).count_eq, List.count_append]
    split_ifs with hji hbc
    · rw [hbc, List.count_singleton_self]
    · rw [List.count_singleton, if_neg (by simpa using hbc)]
    · rfl
  rw [Finset.sum_congr rfl fun j _ => hcount j, Finset.sum_add_distrib, Finset.sum_ite_eq',
    if_pos (Finset.mem_range.mpr hi)]

theorem EthOk.push (h : EthOk e) (hi : i < e.vmCounter.toNat) (hb : b < NUMBER_OF_FRAMES.toNat)
    (room : (refs (e.vmctrl i)).length < 9) : EthOk (pushBuffer e i b) := by
  have hrefs := pushBuffer_refs h hi room b
  have hsame := pushBuffer_same e i b
  constructor
  · exact h.vmCounter
  · intro j hj k hk
    rw [hsame.mac j, hsame.mac k]
    exact h.mac j hj k hk
  · intro j hj k hk
    rw [hsame.vmId j, hsame.vmId k]
    exact h.vmId j hj k hk
  · intro j hj
    simp only [pushBuffer, Function.update_apply]
    split_ifs
    · exact nextSlot_lt _
    · exact h.input j hj
  · intro j hj
    simp only [pushBuffer, Function.update_apply]
    split_ifs with heq
    · exact h.output i hi
    · exact h.output j hj
  · intro j hj
    have hji : j ≠ i := by
      rintro rfl
      exact Nat.not_lt_of_le hj hi
    simpa only [pushBuffer, Function.update_of_ne hji] using h.unused j hj
  · intro j hj c hc
    rw [hrefs] at hc
    rcases List.mem_append.mp hc with hc | hc
    · exact h.bounded j hj c hc
    · split_ifs at hc
      · exact List.mem_singleton.mp hc ▸ hb
      · cases hc
  · intro c hc
    show ((pushBuffer e i b).bBuf c).used.toNat =
      ∑ j ∈ Finset.range e.vmCounter.toNat, (refs ((pushBuffer e i b).vmctrl j)).count c
    rw [sum_count_add hi b c fun j => List.Perm.of_eq (hrefs j), ← h.used c hc]
    simp only [pushBuffer, Function.update_apply]
    by_cases hcb : c = b
    · subst hcb
      have hle := h.used_le hc
      rw [if_pos rfl, if_pos rfl, UInt32.toNat_add, UInt32.toNat_one, Nat.mod_eq_of_lt]
      omega
    · rw [if_neg hcb, if_neg fun heq => hcb heq.symm, Nat.add_zero]

theorem EthOk.pushAll (hb : b < NUMBER_OF_FRAMES.toNat) (l : List Nat) :
    ∀ {e : Eth}, EthOk e → l.Nodup →
      (∀ i ∈ l, i < e.vmCounter.toNat ∧ (refs (e.vmctrl i)).length < 9) →
      EthOk (l.foldl (fun e i => pushBuffer e i b) e) ∧
        SameVms e (l.foldl (fun e i => pushBuffer e i b) e) ∧
        (∀ c, content ((l.foldl (fun e i => pushBuffer e i b) e).bBuf c) = content (e.bBuf c)) ∧
        ∀ j, refs ((l.foldl (fun e i => pushBuffer e i b) e).vmctrl j) =
          refs (e.vmctrl j) ++ if j ∈ l then [b] else [] := by
  induction l with
  | nil => exact fun h _ _ => ⟨h, SameVms.refl _, fun _ => rfl, by simp⟩
  | cons i l ih =>
    intro e h nodup room
    obtain ⟨hi, hroom⟩ := room i List.mem_cons_self
    obtain ⟨fresh, nodup⟩ := List.nodup_cons.mp nodup
    have hrefs := pushBuffer_refs h hi hroom b
    have hsame := pushBuffer_same e i b
    obtain ⟨hok, hsame', hcontent, hrefs'⟩ := ih (h.push hi hb hroom) nodup fun k hk => by
      have hki : k ≠ i := fun heq => fresh (heq ▸ hk)
      rw [hsame.vmCounter, hrefs, if_neg hki, List.append_nil]
      exact room k (List.mem_cons_of_mem _ hk)
    refine ⟨hok, hsame.trans hsame', fun c => ?_, fun j => ?_⟩
    · rw [List.foldl_cons, hcontent, pushBuffer_content]
    · rw [List.foldl_cons, hrefs', hrefs]
      by_cases hji : j = i
      · subst hji
        simp [fresh]
      · simp [hji]

/-- The frame `f` was read into a buffer, which went into the rings of the VMs in `l`. -/
structure Stored (e : Eth) (f : Frame) (l : List Nat) (e' : Eth) : Prop where
  ok : EthOk e'
  same : SameVms e e'
  queued : ∀ i < e.vmCounter.toNat,
    queuedFrames e' i = queuedFrames e i ++ if i ∈ l then [f.bytes] else []

theorem length_queuedFrames (e : Eth) (i : Nat) :
    (queuedFrames e i).length = (refs (e.vmctrl i)).length := List.length_map _

theorem Stored.length_refs {e' : Eth} {f : Frame} {i k : Nat} (h : Stored e f [i] e')
    (hk : k < e.vmCounter.toNat) :
    (refs (e'.vmctrl k)).length = (refs (e.vmctrl k)).length + if k = i then 1 else 0 := by
  have hqueued := congrArg List.length (h.queued k hk)
  rw [length_queuedFrames, List.length_append, length_queuedFrames] at hqueued
  rw [hqueued]
  by_cases hki : k = i <;> simp [hki]

theorem EthOk.not_mem (h : EthOk e) (hb : b < NUMBER_OF_FRAMES.toNat)
    (hfree : (e.bBuf b).used = 0) (hi : i < e.vmCounter.toNat) : b ∉ refs (e.vmctrl i) := by
  have hused := h.used b hb
  rw [hfree, UInt32.toNat_zero, eq_comm, Finset.sum_eq_zero_iff] at hused
  exact List.count_eq_zero.mp (hused i (Finset.mem_range.mpr hi))

/-- The frames in the rings are those in the buffers that they refer to. -/
theorem queuedFrames_of {e e' : Eth} {l : List Nat} {f : Frame} {i : Nat}
    (hrefs : refs (e'.vmctrl i) = refs (e.vmctrl i) ++ if i ∈ l then [b] else [])
    (hnot : b ∉ refs (e.vmctrl i))
    (hcontent : ∀ c, c ≠ b → content (e'.bBuf c) = content (e.bBuf c))
    (hnew : i ∈ l → content (e'.bBuf b) = f.bytes) :
    queuedFrames e' i = queuedFrames e i ++ if i ∈ l then [f.bytes] else [] := by
  have hold : (refs (e.vmctrl i)).map (fun c => content (e'.bBuf c)) = queuedFrames e i :=
    List.map_congr_left fun c hc => hcontent c fun heq => hnot (heq ▸ hc)
  rw [queuedFrames, hrefs, List.map_append, hold]
  split_ifs with hmem
  · rw [List.map_singleton, hnew hmem]
  · rfl

theorem content_frame (f : Frame) (buffer : BoundedBuffer)
    (hframe : ∀ i < f.bytes.length, buffer.frame i = f.byte i)
    (hsize : buffer.frameSize = UInt32.ofNat f.bytes.length) : content buffer = f.bytes := by
  have hlen : buffer.frameSize.toNat = f.bytes.length := by
    have hfits := f.fits
    rw [hsize, UInt32.toNat_ofNat_of_lt']
    simp only [MTU, UInt32.size] at hfits ⊢
    omega
  rw [content, hlen]
  refine List.ext_getElem (by simp) fun i h1 h2 => ?_
  simp only [List.getElem_map, List.getElem_range]
  rw [hframe i h2, Frame.byte]
  simp [h2]

/-! ### A frame from the ring -/

theorem popBuffer_same (e : Eth) (j : Nat) : SameVms e (popBuffer e j) := by
  refine ⟨rfl, fun i => ?_, fun i => ?_⟩
  · simp only [popBuffer, Function.update_apply]
    split_ifs with heq
    · rw [heq]
    · rfl
  · simp only [popBuffer, Function.update_apply]
    split_ifs with heq
    · rw [heq]
    · rfl

theorem popBuffer_content (e : Eth) (j c : Nat) :
    content ((popBuffer e j).bBuf c) = content (e.bBuf c) := by
  simp only [popBuffer, Function.update_apply]
  split_ifs with heq
  · rw [heq]
    rfl
  · rfl

theorem EthOk.popBuffer_refs (h : EthOk e) (hj : j < e.vmCounter.toNat)
    (hne : (e.vmctrl j).input ≠ (e.vmctrl j).output) (i : Nat) :
    refs (e.vmctrl i) =
      (if i = j then [(e.vmctrl j).frameList (e.vmctrl j).output.toNat] else []) ++
        refs ((popBuffer e j).vmctrl i) := by
  simp only [popBuffer, Function.update_apply]
  split_ifs with hij
  · rw [hij]
    exact refs_pop (h.input j hj) (h.output j hj) hne
  · rfl

theorem EthOk.pop (h : EthOk e) (hj : j < e.vmCounter.toNat)
    (hne : (e.vmctrl j).input ≠ (e.vmctrl j).output) : EthOk (popBuffer e j) := by
  have hrefs := h.popBuffer_refs hj hne
  have hsame := popBuffer_same e j
  constructor
  · exact h.vmCounter
  · intro i hi k hk
    rw [hsame.mac i, hsame.mac k]
    exact h.mac i hi k hk
  · intro i hi k hk
    rw [hsame.vmId i, hsame.vmId k]
    exact h.vmId i hi k hk
  · intro i hi
    simp only [popBuffer, Function.update_apply]
    split_ifs with hij
    · exact h.input j hj
    · exact h.input i hi
  · intro i hi
    simp only [popBuffer, Function.update_apply]
    split_ifs
    · exact nextSlot_lt _
    · exact h.output i hi
  · intro i hi
    have hij : i ≠ j := by
      rintro rfl
      exact Nat.not_lt_of_le hi hj
    simpa only [popBuffer, Function.update_of_ne hij] using h.unused i hi
  · intro i hi c hc
    apply h.bounded i hi c
    rw [hrefs i]
    exact List.mem_append_right _ hc
  · intro c hc
    have hused := h.used c hc
    rw [sum_count_add hj _ c fun i => (List.Perm.of_eq (hrefs i)).trans List.perm_append_comm]
      at hused
    show ((popBuffer e j).bBuf c).used.toNat =
      ∑ i ∈ Finset.range e.vmCounter.toNat, (refs ((popBuffer e j).vmctrl i)).count c
    simp only [popBuffer, Function.update_apply] at hused ⊢
    by_cases hcb : c = (e.vmctrl j).frameList (e.vmctrl j).output.toNat
    · rw [if_pos hcb.symm] at hused
      rw [if_pos hcb, ← hcb, UInt32.toNat_sub_of_le]
      · rw [UInt32.toNat_one]
        exact Nat.sub_eq_of_eq_add hused
      · rw [UInt32.le_iff_toNat_le, UInt32.toNat_one]
        exact hused ▸ Nat.le_add_left _ _
    · rw [if_neg fun heq => hcb heq.symm, Nat.add_zero] at hused
      rw [if_neg hcb]
      exact hused

end PrplHypervisor.Drivers
