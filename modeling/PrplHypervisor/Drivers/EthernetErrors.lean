import PrplHypervisor.Drivers.EthernetDelivery

/-! The error paths of `receive_frame`.  Its lookups answer -1 when they find nothing, but the
variables that take the answer are unsigned and the tests never fail, so that -1 becomes a
subscript.  The call stays within its arrays when its lookups find what they look for. -/

namespace PrplHypervisor.Drivers

open Lib.Runs

/-- An element of one of the two arrays of the driver. -/
inductive Subscript
  | vmctrl (i : UInt32)
  | bBuf (i : UInt32)

def Subscript.InRange : Subscript → Prop
  | .vmctrl i => i < NUMBER_OF_VM
  | .bBuf i => i < NUMBER_OF_FRAMES

/-- The subscripts of a search among the registered VMs. -/
def vmSubscripts (e : Eth) : List Subscript :=
  (List.range e.vmCounter.toNat).map fun i => .vmctrl (UInt32.ofNat i)

/-- The subscripts of `get_free_buffer`. -/
def bufferSubscripts : List Subscript :=
  (List.range NUMBER_OF_FRAMES.toNat).map fun i => .bBuf (UInt32.ofNat i)

/-- What the loop does with a frame for another VM: the buffer `b` gets it and goes into the ring of
the `i`-th VM. -/
def storeFrame (e : Eth) (b i : Nat) (f : Frame) : Eth :=
  let e := setFrameSize (pushBuffer (writeFrame e b f) i b) b (UInt32.ofNat f.bytes.length)
  { e with numberUsedBuffers := e.numberUsedBuffers + 1 }

/-- The loop of `receive_frame` for the `j`-th VM, from the frames `dma` in the state `e` on, comes
back to its head with the frames `dma'` in the state `e'`. -/
inductive AtHead (j : Nat) : List Frame → Eth → List Frame → Eth → Prop
  | here (dma : List Frame) (e : Eth) : AtHead j dma e dma e
  | next {f : Frame} {dma dma' : List Frame} {e e' : Eth} {b i : Nat} (hfree : getFreeBuffer e = b)
      (hother : addressed e j f = false) (hdest : getVmDestination e f.byte = i)
      (hrest : AtHead j dma (storeFrame e b i f) dma' e') : AtHead j (f :: dma) e dma' e'

/-- The subscripts of one pass of the loop.  The argument of `en_ll_input` has one even when there
is no frame. -/
def passSubscripts (j : Nat) (dma : List Frame) (e : Eth) : List Subscript :=
  bufferSubscripts ++ .bBuf (UInt32.ofInt (getFreeBuffer e)) :: match dma with
    | [] => []
    | f :: _ =>
      .vmctrl (UInt32.ofNat j) ::
        if addressed e j f then if isBroadcast f.byte then vmSubscripts e else []
        else vmSubscripts e ++ [.vmctrl (UInt32.ofInt (getVmDestination e f.byte))]

/-- The subscripts of `receive_frame`, called by the VM `id`, with the elements of `b_buf` that it
gets at through a ring. -/
def ReceiveSubscript (e : Eth) (id : UInt32) (s : Subscript) : Prop :=
  let j := UInt32.ofInt (getVmBufferPos e id)
  s ∈ vmSubscripts e ∨ s = .vmctrl j ∨
    j < NUMBER_OF_VM ∧
      let vm := e.vmctrl j.toNat
      if vm.input ≠ vm.output then s = .bBuf (UInt32.ofNat (vm.frameList vm.output.toNat))
      else ∃ dma e', AtHead j.toNat e.dma e dma e' ∧ s ∈ passSubscripts j.toNat dma e'

/-- The frame is for no VM that has registered. -/
def Unknown (e : Eth) (f : Frame) : Prop :=
  isBroadcast f.byte = false ∧ ∀ i < e.vmCounter.toNat, maccmp (e.vmctrl i).mac f.byte = false

/-- The error paths of a call of `receive_frame` by the VM `id`.  All subscripts are in range; a
caller that has not registered gets 0 and changes nothing; a frame for no registered VM is
discarded; and without a free buffer the call returns 0 and leaves the frames in the controller. -/
structure ErrorPaths (e : Eth) (id : UInt32) : Prop where
  inRange : ∀ s, ReceiveSubscript e id s → s.InRange
  unregistered : (∀ i < e.vmCounter.toNat, (e.vmctrl i).vmId ≠ id) →
    receiveFrame e id = .ok ((0, []), e)
  discards : ∀ j : Nat, getVmBufferPos e id = j → (e.vmctrl j).input = (e.vmctrl j).output →
    ∀ f dma e', AtHead j e.dma e (f :: dma) e' → Unknown e' f → ∀ b : Nat, getFreeBuffer e' = b →
      receiveFrame e id = receiveLoop j dma (writeFrame e' b f)
  full : ∀ j : Nat, getVmBufferPos e id = j → (e.vmctrl j).input = (e.vmctrl j).output →
    ∀ dma e', AtHead j e.dma e dma e' → getFreeBuffer e' = -1 →
      receiveFrame e id = .ok ((0, []), { e' with dma := dma })

/-- The number of buffers that no ring refers to. -/
def freeBuffers (e : Eth) : Nat :=
  ((Finset.range NUMBER_OF_FRAMES.toNat).filter fun b => (e.bBuf b).used = 0).card

/-- The frames that the loop reads ahead of one for the `j`-th VM are for registered VMs, and there
is a buffer for each of them and one more. -/
structure Handles (e : Eth) (j : Nat) (dma : List Frame) : Prop where
  registered : ∀ f ∈ ahead e j dma, ∃ i < e.vmCounter.toNat, maccmp (e.vmctrl i).mac f.byte
  room : (ahead e j dma).length < freeBuffers e

/-- The indexes that the driver keeps are in range, also when rings have overflown. -/
structure Indexed (e : Eth) : Prop where
  vmCounter : e.vmCounter.toNat ≤ NUMBER_OF_VM.toNat
  input : ∀ i, (e.vmctrl i).input < NUMBER_OF_FRAMES
  output : ∀ i, (e.vmctrl i).output < NUMBER_OF_FRAMES
  bounded : ∀ i, ∀ b ∈ refs (e.vmctrl i), b < NUMBER_OF_FRAMES.toNat

variable {e e' : Eth} {i j b : Nat} {f : Frame} {dma dma' : List Frame}

/-! ### Lookups -/

theorem firstIndex_cases (p : Nat → Bool) (n : Nat) :
    (∃ i < n, p i ∧ firstIndex p n = i) ∨ (∀ i < n, p i = false) ∧ firstIndex p n = -1 := by
  by_cases hex : ∃ i < n, p i
  · exact Or.inl (firstIndex_some hex)
  · have hnone : ∀ i < n, p i = false := fun i hi =>
      Bool.eq_false_iff.mpr fun hp => hex ⟨i, hi, hp⟩
    refine Or.inr ⟨hnone, ?_⟩
    have hfind : (List.range n).find? p = none :=
      List.find?_eq_none.mpr fun i hi => by simp [hnone i (List.mem_range.mp hi)]
    rw [firstIndex, hfind]

theorem getFreeBuffer_cases (e : Eth) :
    (∃ b < NUMBER_OF_FRAMES.toNat, (e.bBuf b).used = 0 ∧ getFreeBuffer e = b) ∨
      freeBuffers e = 0 ∧ getFreeBuffer e = -1 := by
  rcases firstIndex_cases (fun b => (e.bBuf b).used = 0) NUMBER_OF_FRAMES.toNat with
    ⟨b, hb, hfree, hfirst⟩ | ⟨hnone, hfirst⟩
  · exact Or.inl ⟨b, hb, of_decide_eq_true hfree, hfirst⟩
  · refine Or.inr ⟨Finset.card_eq_zero.mpr (Finset.filter_eq_empty_iff.mpr fun b hb => ?_), hfirst⟩
    exact of_decide_eq_false (hnone b (Finset.mem_range.mp hb))

theorem freeBuffers_pos (hb : b < NUMBER_OF_FRAMES.toNat) (hfree : (e.bBuf b).used = 0) :
    0 < freeBuffers e :=
  Finset.card_pos.mpr ⟨b, Finset.mem_filter.mpr ⟨Finset.mem_range.mpr hb, hfree⟩⟩

/-- What -1 is as a subscript. -/
theorem not_inRange_neg : ¬(Subscript.bBuf (UInt32.ofInt (-1))).InRange ∧
    ¬(Subscript.vmctrl (UInt32.ofInt (-1))).InRange :=
  ⟨by simp only [Subscript.InRange]; decide, by simp only [Subscript.InRange]; decide⟩

theorem vmctrl_inRange {n : Nat} (hi : i < n) (hn : n ≤ NUMBER_OF_VM.toNat) :
    (Subscript.vmctrl (UInt32.ofNat i)).InRange := by
  have hlt : i < 2 := Nat.lt_of_lt_of_le hi hn
  rw [Subscript.InRange, UInt32.lt_iff_toNat_lt, UInt32.toNat_ofNat']
  show i % 2 ^ 32 < 2
  omega

theorem bBuf_inRange (hb : b < NUMBER_OF_FRAMES.toNat) :
    (Subscript.bBuf (UInt32.ofNat b)).InRange := by
  rw [toNat_frames] at hb
  rw [Subscript.InRange, UInt32.lt_iff_toNat_lt, UInt32.toNat_ofNat']
  show b % 2 ^ 32 < 10
  omega

theorem ofInt_natCast (i : Nat) : UInt32.ofInt (i : Int) = UInt32.ofNat i := by
  rw [← UInt32.toNat_inj, UInt32.toNat_ofNat']
  simp only [UInt32.ofInt, UInt32.toNat_ofNat']
  omega

theorem vmSubscripts_inRange (h : Indexed e) : ∀ s ∈ vmSubscripts e, s.InRange := by
  intro s hs
  obtain ⟨i, hi, rfl⟩ := List.mem_map.mp hs
  exact vmctrl_inRange (List.mem_range.mp hi) h.vmCounter

theorem bufferSubscripts_inRange : ∀ s ∈ bufferSubscripts, s.InRange := by
  intro s hs
  obtain ⟨b, hb, rfl⟩ := List.mem_map.mp hs
  exact bBuf_inRange (List.mem_range.mp hb)

theorem getVmDestination_writeFrame (e : Eth) (b : Nat) (f : Frame) :
    getVmDestination (writeFrame e b f) ((writeFrame e b f).bBuf b).frame =
      getVmDestination e f.byte := by
  have hsame : ∀ i, maccmp (e.vmctrl i).mac ((writeFrame e b f).bBuf b).frame =
      maccmp (e.vmctrl i).mac f.byte := by
    intro i
    rw [maccmp_comm, writeFrame_maccmp, maccmp_comm]
  show firstIndex (fun i => maccmp (e.vmctrl i).mac _) e.vmCounter.toNat = _
  rw [funext hsame]
  rfl

theorem addressed_writeFrame (e : Eth) (b j : Nat) (f : Frame) :
    (maccmp ((writeFrame e b f).bBuf b).frame ((writeFrame e b f).vmctrl j).mac ||
      isBroadcast ((writeFrame e b f).bBuf b).frame) = addressed e j f := by
  rw [isBroadcast, writeFrame_maccmp, writeFrame_maccmp]
  rfl

theorem getVmDestination_lt (hdest : getVmDestination e f.byte = (i : Int)) :
    i < e.vmCounter.toNat ∧ maccmp (e.vmctrl i).mac f.byte := by
  rcases firstIndex_cases (fun i => maccmp (e.vmctrl i).mac f.byte) e.vmCounter.toNat with
    ⟨k, hk, hmac, hfirst⟩ | ⟨-, hfirst⟩
  · obtain rfl : k = i := Int.natCast_inj.mp (hfirst.symm.trans hdest)
    exact ⟨hk, hmac⟩
  · have := hfirst.symm.trans hdest
    omega

theorem getFreeBuffer_lt (hfree : getFreeBuffer e = (b : Int)) :
    b < NUMBER_OF_FRAMES.toNat ∧ (e.bBuf b).used = 0 := by
  rcases getFreeBuffer_cases e with ⟨c, hc, hused, hfirst⟩ | ⟨-, hnone⟩
  · obtain rfl : c = b := Int.natCast_inj.mp (hfirst.symm.trans hfree)
    exact ⟨hc, hused⟩
  · have := hnone.symm.trans hfree
    omega

/-! ### Passes of the loop -/

theorem index_in {n : UInt32} (hi : i < n.toNat) :
    (UInt32.ofInt (i : Int)).toNat = i ∧ ¬UInt32.ofInt (i : Int) < 0 ∧
      ¬n ≤ UInt32.ofInt (i : Int) := by
  obtain ⟨hindex, hnonneg⟩ := toNat_index hi n.toNat_lt
  refine ⟨hindex, hnonneg, ?_⟩
  rw [UInt32.le_iff_toNat_le, hindex]
  exact Nat.not_le_of_lt hi

theorem index_in_le {n m : UInt32} (hi : i < n.toNat) (hle : n.toNat ≤ m.toNat) :
    (UInt32.ofInt (i : Int)).toNat = i ∧ ¬UInt32.ofInt (i : Int) < 0 ∧
      ¬m ≤ UInt32.ofInt (i : Int) := index_in (Nat.lt_of_lt_of_le hi hle)

/-- A frame for another VM goes into its ring, and the loop goes on. -/
theorem receiveLoop_store (h : Indexed e) (hfree : getFreeBuffer e = (b : Int))
    (hother : addressed e j f = false) (hdest : getVmDestination e f.byte = (i : Int)) :
    receiveLoop j (f :: dma) e = receiveLoop j dma (storeFrame e b i f) := by
  obtain ⟨hindex, hnonneg, hlt⟩ := index_in (getFreeBuffer_lt hfree).1
  obtain ⟨hindex', hnonneg', hlt'⟩ := index_in_le (getVmDestination_lt hdest).1 h.vmCounter
  simp only [receiveLoop, hfree, if_neg hnonneg, if_neg hlt, hindex, addressed_writeFrame, hother,
    Bool.false_eq_true, if_false, getVmDestination_writeFrame, hdest, if_neg hnonneg', if_neg hlt',
    hindex']
  rfl

theorem storeFrame_same (e : Eth) (b i : Nat) (f : Frame) : SameVms e (storeFrame e b i f) := by
  have hsame := pushBuffer_same (writeFrame e b f) i b
  exact ⟨hsame.vmCounter, hsame.vmId, hsame.mac⟩

theorem storeFrame_used (e : Eth) (b i c : Nat) (f : Frame) :
    ((storeFrame e b i f).bBuf c).used =
      if c = b then (e.bBuf b).used + 1 else (e.bBuf c).used := by
  simp only [storeFrame, setFrameSize, pushBuffer, writeFrame, Function.update_apply]
  split_ifs <;> rfl

/-- The buffer is not free any more. -/
theorem freeBuffers_store (hb : b < NUMBER_OF_FRAMES.toNat) (hfree : (e.bBuf b).used = 0) (i : Nat)
    (f : Frame) : freeBuffers (storeFrame e b i f) + 1 = freeBuffers e := by
  have hmem : b ∈ (Finset.range NUMBER_OF_FRAMES.toNat).filter fun c => (e.bBuf c).used = 0 :=
    Finset.mem_filter.mpr ⟨Finset.mem_range.mpr hb, hfree⟩
  rw [freeBuffers, freeBuffers, ← Finset.card_erase_add_one hmem]
  congr 2
  ext c
  simp only [Finset.mem_filter, Finset.mem_erase, storeFrame_used]
  by_cases hcb : c = b
  · subst hcb
    simp [hfree]
  · simp [hcb]

theorem refs_push_subset {vm : VmCtrlBuffer} (hin : vm.input < NUMBER_OF_FRAMES)
    (hout : vm.output < NUMBER_OF_FRAMES) (b : Nat) :
    refs { vm with
      frameList := Function.update vm.frameList vm.input.toNat b
      input := (vm.input + 1) % NUMBER_OF_FRAMES } ⊆ refs vm ++ [b] := by
  by_cases hroom : (refs vm).length < 9
  · rw [refs_push hin hout hroom b]
    exact List.Subset.refl _
  · -- the ring is full, and looks empty afterwards
    rw [length_refs] at hroom
    have hfull : (vm.input + 1) % NUMBER_OF_FRAMES = vm.output := by
      have h1 := UInt32.lt_iff_toNat_lt.mp hin
      have h2 := UInt32.lt_iff_toNat_lt.mp hout
      rw [← UInt32.toNat_inj, toNat_nextSlot hin]
      simp only [ringLength] at hroom
      rw [toNat_frames] at *
      omega
    have hnil : refs { vm with
        frameList := Function.update vm.frameList vm.input.toNat b
        input := (vm.input + 1) % NUMBER_OF_FRAMES } = [] := refs_nil hfull hout
    rw [hnil]
    exact List.nil_subset _

theorem Indexed.same {e e' : Eth} (h : Indexed e) (hvm : e'.vmctrl = e.vmctrl)
    (hcounter : e'.vmCounter = e.vmCounter) : Indexed e' := by
  constructor
  · rw [hcounter]
    exact h.vmCounter
  · exact fun i => hvm ▸ h.input i
  · exact fun i => hvm ▸ h.output i
  · exact fun i => hvm ▸ h.bounded i

theorem Indexed.push (h : Indexed e) (i : Nat) (hb : b < NUMBER_OF_FRAMES.toNat) :
    Indexed (pushBuffer e i b) := by
  refine ⟨h.vmCounter, fun k => ?_, fun k => ?_, fun k c hc => ?_⟩
  · simp only [pushBuffer, Function.update_apply]
    split_ifs
    · exact nextSlot_lt _
    · exact h.input k
  · simp only [pushBuffer, Function.update_apply]
    split_ifs with hki
    · exact h.output i
    · exact h.output k
  · simp only [pushBuffer, Function.update_apply] at hc
    split_ifs at hc
    · rcases List.mem_append.mp (refs_push_subset (h.input i) (h.output i) b hc) with hc | hc
      · exact h.bounded i c hc
      · exact List.mem_singleton.mp hc ▸ hb
    · exact h.bounded k c hc

theorem Indexed.store (h : Indexed e) (hb : b < NUMBER_OF_FRAMES.toNat) (i : Nat) (f : Frame) :
    Indexed (storeFrame e b i f) := by
  have hwritten : Indexed (writeFrame e b f) := h.same rfl rfl
  exact (hwritten.push i hb).same rfl rfl

theorem Indexed.pop (h : Indexed e) (hne : (e.vmctrl j).input ≠ (e.vmctrl j).output) :
    Indexed (popBuffer e j) := by
  refine ⟨h.vmCounter, fun k => ?_, fun k => ?_, fun k c hc => ?_⟩
  · simp only [popBuffer, Function.update_apply]
    split_ifs with hkj
    · exact h.input j
    · exact h.input k
  · simp only [popBuffer, Function.update_apply]
    split_ifs
    · exact nextSlot_lt _
    · exact h.output k
  · simp only [popBuffer, Function.update_apply] at hc
    split_ifs at hc
    · apply h.bounded j c
      rw [refs_pop (h.input j) (h.output j) hne]
      exact List.mem_cons_of_mem _ hc
    · exact h.bounded k c hc

/-! ### Reachable states -/

theorem Indexed.pushAll (hb : b < NUMBER_OF_FRAMES.toNat) (l : List Nat) :
    ∀ {e : Eth}, Indexed e → Indexed (l.foldl (fun e i => pushBuffer e i b) e) := by
  induction l with
  | nil => exact fun h => h
  | cons i l ih => exact fun h => ih (h.push i hb)

/-- By induction on the frames that are offered. -/
theorem Indexed.receiveLoop (dma : List Frame) : ∀ {e : Eth}, Indexed e →
    ∀ r e', Drivers.receiveLoop j dma e = .ok (r, e') → Indexed e' := by
  induction dma with
  | nil =>
    rintro e h r e' ⟨⟩
    exact h.same rfl rfl
  | cons f dma ih =>
    intro e h r e' hcall
    rcases getFreeBuffer_cases e with ⟨b, hb, hused, hfree⟩ | ⟨-, hnone⟩
    · obtain ⟨hindex, hnonneg, hlt⟩ := index_in hb
      have hwritten : Indexed (writeFrame e b f) := h.same rfl rfl
      simp only [Drivers.receiveLoop, hfree, if_neg hnonneg, if_neg hlt, hindex,
        addressed_writeFrame, getVmDestination_writeFrame] at hcall
      split_ifs at hcall with hmine hcast hneg hbound
      · obtain ⟨-, rfl⟩ := Prod.mk.inj (Except.ok.inj hcall)
        have hsized : Indexed (setFrameSize (writeFrame e b f) b (UInt32.ofNat f.bytes.length)) :=
          hwritten.same rfl rfl
        exact (Indexed.pushAll hb _ hsized).same rfl rfl
      · obtain ⟨-, rfl⟩ := Prod.mk.inj (Except.ok.inj hcall)
        exact hwritten.same rfl rfl
      · exact absurd hneg (Nat.not_lt_zero _)
      · exact ih (h.store hb _ f) r e' hcall
    · simp only [Drivers.receiveLoop, hnone] at hcall
      exact absurd hcall (by
        rw [if_neg (by decide), if_pos (by decide)]
        exact fun heq => by cases heq)

theorem Indexed.receiveFrame (h : Indexed e) (id : UInt32) :
    ∀ r e', Drivers.receiveFrame e id = .ok (r, e') → Indexed e' := by
  intro r e' hcall
  simp only [Drivers.receiveFrame] at hcall
  split_ifs at hcall with hneg hbound hne
  · exact absurd hneg (Nat.not_lt_zero _)
  · obtain ⟨-, rfl⟩ := Prod.mk.inj (Except.ok.inj hcall)
    exact h.pop hne
  · exact Indexed.receiveLoop e.dma h r e' hcall

theorem Indexed.enGetMac (h : Indexed e) (macaddr : Nat → UInt8) (id : UInt32) :
    Indexed (Drivers.enGetMac macaddr e id) := by
  simp only [Drivers.enGetMac]
  split_ifs with hroom
  · have hlt : e.vmCounter.toNat < 2 := UInt32.lt_iff_toNat_lt.mp hroom
    have hring : ∀ k, (Function.update e.vmctrl e.vmCounter.toNat
        { e.vmctrl e.vmCounter.toNat with
          mac := vmMac macaddr e.vmCounter, vmId := id } k).input = (e.vmctrl k).input ∧
        (Function.update e.vmctrl e.vmCounter.toNat
        { e.vmctrl e.vmCounter.toNat with
          mac := vmMac macaddr e.vmCounter, vmId := id } k).output = (e.vmctrl k).output ∧
        refs (Function.update e.vmctrl e.vmCounter.toNat
        { e.vmctrl e.vmCounter.toNat with
          mac := vmMac macaddr e.vmCounter, vmId := id } k) = refs (e.vmctrl k) := by
      intro k
      rw [Function.update_apply]
      split_ifs with hk
      · rw [hk]
        exact ⟨rfl, rfl, rfl⟩
      · exact ⟨rfl, rfl, rfl⟩
    refine ⟨?_, fun k => ?_, fun k => ?_, fun k c hc => ?_⟩
    · rw [show NUMBER_OF_VM.toNat = 2 from rfl, UInt32.toNat_add, UInt32.toNat_one]
      omega
    · rw [(hring k).1]
      exact h.input k
    · rw [(hring k).2.1]
      exact h.output k
    · rw [(hring k).2.2] at hc
      exact h.bounded k c hc
  · exact h

theorem ethStart_indexed : Indexed ethStart.eth where
  vmCounter := Nat.zero_le _
  input := fun _ => show (0 : UInt32) < NUMBER_OF_FRAMES by decide
  output := fun _ => show (0 : UInt32) < NUMBER_OF_FRAMES by decide
  bounded := fun i b hb => by
    have hnil : refs (ethStart.eth.vmctrl i) = [] :=
      refs_nil rfl (show (0 : UInt32) < NUMBER_OF_FRAMES by decide)
    rw [hnil] at hb
    exact absurd hb List.not_mem_nil

theorem Indexed.step {macaddr : Nat → UInt8} {r r' : EthRun} (event : EthEvent)
    (h : Indexed r.eth) (hstep : ethStep macaddr r event = some r') : Indexed r'.eth := by
  cases event with
  | offer f =>
    obtain rfl := Option.some.inj hstep
    exact h.same rfl rfl
  | getMac id =>
    obtain rfl := Option.some.inj hstep
    exact h.enGetMac macaddr id
  | receive id =>
    simp only [ethStep] at hstep
    cases hcall : Drivers.receiveFrame r.eth id with
    | error _ => simp only [hcall, reduceCtorEq] at hstep
    | ok result =>
      obtain ⟨⟨framesz, bytes⟩, e'⟩ := result
      simp only [hcall] at hstep
      obtain rfl := Option.some.inj hstep
      exact h.receiveFrame id _ _ hcall

/-! ### The condition -/

/-- At the head of the loop the call goes on from there. -/
theorem AtHead.receiveLoop (h : AtHead j dma e dma' e') (hok : Indexed e) :
    Drivers.receiveLoop j dma e = Drivers.receiveLoop j dma' e' := by
  induction h with
  | here => rfl
  | next hfree hother hdest _ ih =>
    rw [receiveLoop_store hok hfree hother hdest]
    exact ih (hok.store (getFreeBuffer_lt hfree).1 _ _)

theorem AtHead.indexed (hhead : AtHead j dma e dma' e') (h : Indexed e) : Indexed e' := by
  induction hhead with
  | here => exact h
  | next hfree _ _ _ ih => exact ih (h.store (getFreeBuffer_lt hfree).1 _ _)

theorem AtHead.vmCounter (hhead : AtHead j dma e dma' e') : e'.vmCounter = e.vmCounter := by
  induction hhead with
  | here => rfl
  | next _ _ _ _ ih => exact ih.trans (storeFrame_same _ _ _ _).vmCounter

theorem Handles.store (hfree : getFreeBuffer e = (b : Int)) (hother : addressed e j f = false)
    (hdest : getVmDestination e f.byte = (i : Int)) :
    Handles (storeFrame e b i f) j dma ↔ Handles e j (f :: dma) := by
  obtain ⟨hb, hused⟩ := getFreeBuffer_lt hfree
  have hcount := freeBuffers_store hb hused i f
  have hsame := storeFrame_same e b i f
  constructor
  · rintro ⟨hregistered, hroom⟩
    rw [hsame.ahead] at hregistered hroom
    refine ⟨fun g hg => ?_, ?_⟩
    · rw [ahead_cons hother] at hg
      rcases List.mem_cons.mp hg with rfl | hg
      · exact ⟨i, getVmDestination_lt hdest⟩
      · obtain ⟨k, hk, hmac⟩ := hregistered g hg
        exact ⟨k, hsame.vmCounter ▸ hk, hsame.mac k ▸ hmac⟩
    · rw [ahead_cons hother, List.length_cons]
      omega
  · rintro ⟨hregistered, hroom⟩
    rw [ahead_cons hother] at hregistered hroom
    refine ⟨fun g hg => ?_, ?_⟩
    · rw [hsame.ahead] at hg
      obtain ⟨k, hk, hmac⟩ := hregistered g (List.mem_cons_of_mem _ hg)
      exact ⟨k, hsame.vmCounter.symm ▸ hk, (hsame.mac k).symm ▸ hmac⟩
    · rw [List.length_cons] at hroom
      rw [hsame.ahead]
      omega

theorem Handles.atHead (hhead : AtHead j dma e dma' e') (h : Handles e j dma) :
    Handles e' j dma' := by
  induction hhead with
  | here => exact h
  | next hfree hother hdest _ ih => exact ih ((Handles.store hfree hother hdest).mpr h)

theorem Handles.exists_free (h : Handles e j dma) :
    ∃ b < NUMBER_OF_FRAMES.toNat, (e.bBuf b).used = 0 ∧ getFreeBuffer e = b := by
  rcases getFreeBuffer_cases e with hfree | ⟨hnone, -⟩
  · exact hfree
  · have hroom := h.room
    omega

theorem Handles.exists_destination (h : Handles e j (f :: dma)) (hother : addressed e j f = false) :
    ∃ i < e.vmCounter.toNat, getVmDestination e f.byte = i := by
  obtain ⟨k, hk, hmac⟩ := h.registered f (by
    rw [ahead_cons hother]
    exact List.mem_cons_self)
  obtain ⟨i, hi, -, hdest⟩ :=
    firstIndex_some (p := fun i => maccmp (e.vmctrl i).mac f.byte) ⟨k, hk, hmac⟩
  exact ⟨i, hi, hdest⟩

/-- With a free buffer and, for a frame of another VM, a registered destination, a pass uses no
subscript out of range. -/
theorem Handles.passSubscripts (h : Handles e j dma) (hok : Indexed e)
    (hj : j < e.vmCounter.toNat) :
    ∀ s ∈ Drivers.passSubscripts j dma e, s.InRange := by
  intro s hs
  obtain ⟨b, hb, -, hfree⟩ := h.exists_free
  simp only [Drivers.passSubscripts, hfree, ofInt_natCast, List.mem_append, List.mem_cons] at hs
  rcases hs with hs | rfl | hs
  · exact bufferSubscripts_inRange s hs
  · exact bBuf_inRange hb
  cases dma with
  | nil => cases hs
  | cons f dma =>
    rcases List.mem_cons.mp hs with rfl | hs
    · exact vmctrl_inRange hj hok.vmCounter
    split_ifs at hs with hmine hcast
    · exact vmSubscripts_inRange hok s hs
    · cases hs
    · rcases List.mem_append.mp hs with hs | hs
      · exact vmSubscripts_inRange hok s hs
      · obtain rfl := List.mem_singleton.mp hs
        obtain ⟨i, hi, hdest⟩ := h.exists_destination (Bool.eq_false_iff.mpr hmine)
        rw [hdest, ofInt_natCast]
        exact vmctrl_inRange hi hok.vmCounter

/-- By induction on the frames that are offered. -/
theorem handles_of_inRange (dma : List Frame) : ∀ {e : Eth},
    (∀ dma' e', AtHead j dma e dma' e' → ∀ s ∈ passSubscripts j dma' e', s.InRange) →
    Handles e j dma := by
  induction dma with
  | nil =>
    intro e hall
    refine ⟨fun g hg => absurd hg List.not_mem_nil, ?_⟩
    rcases getFreeBuffer_cases e with ⟨b, hb, hused, -⟩ | ⟨-, hnone⟩
    · exact freeBuffers_pos hb hused
    · have hin := hall _ _ (.here [] e) (.bBuf (UInt32.ofInt (getFreeBuffer e)))
        (by simp [passSubscripts])
      rw [hnone] at hin
      exact absurd hin not_inRange_neg.1
  | cons f dma ih =>
    intro e hall
    have hhead := hall _ _ (.here (f :: dma) e)
    rcases getFreeBuffer_cases e with ⟨b, hb, hused, hfree⟩ | ⟨-, hnone⟩
    · by_cases hmine : addressed e j f = true
      · have hahead : ahead e j (f :: dma) = [] :=
          List.takeWhile_cons_of_neg (by simp [hmine])
        refine ⟨fun g hg => ?_, ?_⟩
        · rw [hahead] at hg
          exact absurd hg List.not_mem_nil
        · rw [hahead]
          exact freeBuffers_pos hb hused
      · have hother : addressed e j f = false := Bool.eq_false_iff.mpr hmine
        rcases firstIndex_cases (fun i => maccmp (e.vmctrl i).mac f.byte) e.vmCounter.toNat with
          ⟨i, -, -, hdest⟩ | ⟨-, hnone⟩
        · refine (Handles.store hfree hother hdest).mp (ih fun dma' e' hrest => ?_)
          exact hall dma' e' (.next hfree hother hdest hrest)
        · have hin := hhead (.vmctrl (UInt32.ofInt (getVmDestination e f.byte)))
            (by simp [passSubscripts, hother])
          rw [show getVmDestination e f.byte = -1 from hnone] at hin
          exact absurd hin not_inRange_neg.2
    · have hin := hhead (.bBuf (UInt32.ofInt (getFreeBuffer e))) (by simp [passSubscripts])
      rw [hnone] at hin
      exact absurd hin not_inRange_neg.1

/-! ### The call -/

/-- The caller has registered as the `j`-th VM, and has a frame in its ring or one that the loop
handles. -/
def Served (e : Eth) (id : UInt32) (j : Nat) : Prop :=
  getVmBufferPos e id = j ∧
    ((e.vmctrl j).input ≠ (e.vmctrl j).output ∨ Handles e j e.dma)

theorem getVmBufferPos_lt {id : UInt32} (hpos : getVmBufferPos e id = (j : Int)) :
    j < e.vmCounter.toNat ∧ (e.vmctrl j).vmId = id := by
  rcases firstIndex_cases (fun i => (e.vmctrl i).vmId = id) e.vmCounter.toNat with
    ⟨k, hk, hid, hfirst⟩ | ⟨-, hfirst⟩
  · obtain rfl : k = j := Int.natCast_inj.mp (hfirst.symm.trans hpos)
    exact ⟨hk, of_decide_eq_true hid⟩
  · have := hfirst.symm.trans hpos
    omega

theorem Indexed.errorPaths_of_served {id : UInt32} (h : Indexed e) (hserved : Served e id j) :
    ErrorPaths e id := by
  obtain ⟨hpos, hcase⟩ := hserved
  obtain ⟨hj, hid⟩ := getVmBufferPos_lt hpos
  have hindex := (index_in_le hj h.vmCounter).1
  have hhandles : (e.vmctrl j).input = (e.vmctrl j).output → Handles e j e.dma :=
    fun heq => hcase.resolve_left (not_not.mpr heq)
  have hsame : ∀ k : Nat, getVmBufferPos e id = k → k = j := fun k hk =>
    Int.natCast_inj.mp (hk.symm.trans hpos)
  constructor
  · intro s hs
    rw [ReceiveSubscript, hpos, hindex, ofInt_natCast] at hs
    rcases hs with hs | rfl | ⟨-, hs⟩
    · exact vmSubscripts_inRange h s hs
    · exact vmctrl_inRange hj h.vmCounter
    · dsimp only at hs
      split_ifs at hs with hne
      · rw [hs]
        refine bBuf_inRange (h.bounded j _ ?_)
        rw [refs_pop (h.input j) (h.output j) hne]
        exact List.mem_cons_self
      · obtain ⟨dma', e', hhead, hs⟩ := hs
        refine ((hhandles (not_not.mp hne)).atHead hhead).passSubscripts (hhead.indexed h) ?_ s hs
        rw [hhead.vmCounter]
        exact hj
  · exact fun hnone => absurd hid (hnone j hj)
  · intro k hk heq f dma e' hhead hunknown b hfree
    obtain rfl := hsame k hk
    have hother : addressed e' k f = false := by
      have hmac := hunknown.2 k (hhead.vmCounter.symm ▸ hj)
      rw [maccmp_comm] at hmac
      rw [addressed, hunknown.1, hmac]
      rfl
    obtain ⟨i, hi, hdest⟩ := ((hhandles heq).atHead hhead).exists_destination hother
    have hmac := (getVmDestination_lt hdest).2
    rw [hunknown.2 i hi] at hmac
    cases hmac
  · intro k hk heq dma e' hhead hnone
    obtain rfl := hsame k hk
    obtain ⟨b, -, -, hfree⟩ := ((hhandles heq).atHead hhead).exists_free
    have := hfree.symm.trans hnone
    omega

theorem Indexed.served_of_errorPaths {id : UInt32} (h : Indexed e) (herrors : ErrorPaths e id) :
    ∃ j < e.vmCounter.toNat, Served e id j := by
  have hin := herrors.inRange
  rcases firstIndex_cases (fun i => (e.vmctrl i).vmId = id) e.vmCounter.toNat with
    ⟨j, hj, -, hpos⟩ | ⟨-, hnone⟩
  · have hpos' : getVmBufferPos e id = j := hpos
    obtain ⟨hindex, -, hlt⟩ := index_in_le hj h.vmCounter
    refine ⟨j, hj, hpos', ?_⟩
    by_cases heq : (e.vmctrl j).input = (e.vmctrl j).output
    · refine Or.inr (handles_of_inRange e.dma fun dma' e' hhead s hs => hin s ?_)
      rw [ReceiveSubscript, hpos', hindex, if_neg (not_not.mpr heq)]
      exact Or.inr (Or.inr ⟨UInt32.not_le.mp hlt, dma', e', hhead, hs⟩)
    · exact Or.inl heq
  · have hbad := hin (.vmctrl (UInt32.ofInt (getVmBufferPos e id))) (Or.inr (Or.inl rfl))
    rw [show getVmBufferPos e id = -1 from hnone] at hbad
    exact absurd hbad not_inRange_neg.2

/-- In every reachable state, the error paths of a call are right exactly when it takes none of
them. -/
theorem receive_errors_iff (macaddr : Nat → UInt8) (es : List EthEvent) (r : EthRun)
    (hrun : run (ethStep macaddr) ethStart es = some r) (id : UInt32) :
    ErrorPaths r.eth id ↔ ∃ j < r.eth.vmCounter.toNat, Served r.eth id j := by
  have hindexed : Indexed r.eth :=
    run_invariant (P := fun r => Indexed r.eth) (fun _ e _ h hstep => h.step e hstep)
      ethStart_indexed hrun
  constructor
  · exact hindexed.served_of_errorPaths
  · rintro ⟨j, -, hserved⟩
    exact hindexed.errorPaths_of_served hserved

theorem receive_errors_one :
    ∃ r, run (ethStep fun _ => 0) ethStart [.getMac 1, .offer (minFrame [0, 0, 0, 0, 0, 0] rfl)] =
        some r ∧
      (ErrorPaths r.eth 1 ↔ ∃ j < r.eth.vmCounter.toNat, Served r.eth 1 j) :=
  ⟨_, rfl, receive_errors_iff (fun _ => 0)
    [.getMac 1, .offer (minFrame [0, 0, 0, 0, 0, 0] rfl)] _ rfl 1⟩

/-- A VM that has not registered makes the driver use -1 as a subscript, and so does a frame for no
registered VM. -/
theorem minus_one_subscript :
    (∃ r, run (ethStep fun _ => 0) ethStart [.getMac 1] = some r ∧
      receiveFrame r.eth 2 = .error .outOfBounds ∧ ¬ErrorPaths r.eth 2) ∧
    ∃ r, run (ethStep fun _ => 0) ethStart
        [.getMac 1, .offer (minFrame [0, 0, 0, 0, 0, 9] rfl)] = some r ∧
      receiveFrame r.eth 1 = .error .outOfBounds := by
  refine ⟨⟨_, rfl, rfl, fun herrors => ?_⟩, ⟨_, rfl, ?_⟩⟩
  · have hbad := herrors.inRange (.vmctrl (UInt32.ofInt (-1))) (Or.inr (Or.inl rfl))
    exact absurd hbad not_inRange_neg.2
  · rfl

end PrplHypervisor.Drivers
