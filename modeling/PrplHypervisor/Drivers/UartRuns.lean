import PrplHypervisor.Drivers.Uart

/-! The UART over runs.  A VCPU is blocked exactly while its transfer waits, and as long as one
waits there is an active transfer and its interrupt is enabled, so each blocked VCPU goes on some
time.  What is written to the hardware is a sequence of whole buffers and the beginning of the
active one. -/

namespace PrplHypervisor.Drivers

open Arch Kernel Lib.Runs

/-- The driver with the buffers that each VCPU sent so far. -/
structure Console where
  uart : Uart
  accepted : VcpuPtr → List (List UInt8)

/-- The bytes at `str` in the memory of the guest of `v`. -/
def Uart.bytes (s : Uart) (v : VcpuPtr) (str size : UInt32) : List UInt8 :=
  (List.range size.toNat).map (s.strMapped v str)

/-- A tick of the scheduler, a fast interrupt, a context switch, a guest of a VCPU that stores a
byte or sends a buffer, or a TX interrupt. -/
inductive UartEvent
  | tick
  | deliver (target : VcpuPtr)
  | switchTo (aux : Option VcpuPtr)
  | store (v : VcpuPtr) (address : UInt32) (value : UInt8)
  | send (caller : VcpuPtr) (str size : UInt32) (full : Nat → Bool)
  | txInterrupt (full : Nat → Bool)

def uartStep (quantum : UInt32) (n : Nat) (c : Console) : UartEvent → Option Console
  | .tick => (runScheduler .pic32mz quantum c.uart.hv).toOption.map fun hv =>
      { c with uart := { c.uart with hv := hv } }
  | .deliver target =>
    some { c with uart := { c.uart with hv := fastInterruptDelivery c.uart.hv target } }
  | .switchTo aux =>
    some { c with uart := { c.uart with hv := contextSwitch .pic32mz c.uart.hv aux } }
  | .store v address value =>
    some { c with uart := { c.uart with
      memory := Function.update c.uart.memory v
        (Function.update (c.uart.memory v) address value) } }
  | .send caller str size full =>
    (send n full { c.uart with
      hv := hypercall .pic32mz c.uart.hv caller [(REG_A0, str), (REG_A1, size)] }).toOption.map
      fun uart =>
        { uart := uart
          accepted := Function.update c.accepted caller
            (c.accepted caller ++ [c.uart.bytes caller str size]) }
  | .txInterrupt full =>
    (transferTxDone n full c.uart).toOption.map fun uart => { c with uart := uart }

/-- Only a VCPU that can run makes a hypercall or stores in its memory, and the interrupt is taken
only while it is enabled. -/
def Allowed (n : Nat) (c : Console) : UartEvent → Prop
  | .store v _ _ => (c.uart.hv.vcpus v).state = .running
  | .send caller _ _ _ => caller < n ∧ (c.uart.hv.vcpus caller).state = .running
  | .txInterrupt _ => c.uart.txEnabled = true
  | _ => True

instance (n : Nat) (c : Console) (e : UartEvent) : Decidable (Allowed n c e) := by
  cases e <;> unfold Allowed <;> infer_instance

/-! ### Who waits -/

/-- The transfers, the states of the VCPUs, the active transfer and the interrupt agree. -/
structure Waiting (s : Uart) (n : Nat) : Prop where
  ready : Ready s.hv n
  owner : ∀ j < n, ∀ v, (s.transfers j).vcpu = some v → v = j
  blocked : ∀ j < n, (s.hv.vcpus j).state = .blocked ↔ (s.transfers j).vcpu = some j
  next : ∀ j < n, (s.transfers j).vcpu = some j →
    (s.transfers j).nextCharacter ≤ (s.transfers j).size ∧
      (s.activeTransfer ≠ Int32.ofNat j → (s.transfers j).nextCharacter = 0)
  active : (s.activeTransfer = -1 ∧ s.txEnabled = false ∧ ∀ j < n, (s.transfers j).vcpu = none) ∨
    ∃ a < n, s.activeTransfer = Int32.ofNat a ∧ s.txEnabled = true ∧ (s.transfers a).vcpu = some a

variable {s t : Uart} {n : Nat} {v : VcpuPtr} {str size : UInt32}

/-- A step of the kernel, which leaves the states of the VCPUs. -/
theorem Waiting.frame (h : Waiting s n) {hv : Hv} (hready : Ready hv n)
    (hstate : ∀ w, (hv.vcpus w).state = (s.hv.vcpus w).state) :
    Waiting { s with hv := hv } n :=
  ⟨hready, h.owner, fun j hj => (hstate j) ▸ h.blocked j hj, h.next, h.active⟩

theorem Waiting.not_waiting (h : Waiting s n) (hv : v < n)
    (hrun : (s.hv.vcpus v).state = .running) : (s.transfers v).vcpu = none := by
  cases hvcpu : (s.transfers v).vcpu with
  | none => rfl
  | some w =>
    have hw := h.owner v hv w hvcpu
    subst hw
    have hblocked := (h.blocked w hv).mpr hvcpu
    rw [hrun] at hblocked
    cases hblocked

/-- The driver is idle, or the active transfer is that of another VCPU than one that can run. -/
theorem Waiting.idle_or_other (h : Waiting s n) (halloc : AllocationsSucceed n) (hv : v < n)
    (hrun : (s.hv.vcpus v).state = .running) :
    (s.activeTransfer < 0 ∧ s.txEnabled = false ∧ ∀ j < n, (s.transfers j).vcpu = none) ∨
      ∃ a < n, a ≠ v ∧ ¬s.activeTransfer < 0 ∧ s.activeTransfer = Int32.ofNat a ∧
        s.txEnabled = true ∧ (s.transfers a).vcpu = some a := by
  rcases h.active with ⟨hactive, henabled, hnone⟩ | ⟨a, ha, hactive, henabled, hvcpu⟩
  · exact Or.inl ⟨by rw [hactive]; decide, henabled, hnone⟩
  · refine Or.inr ⟨a, ha, ?_, ?_, hactive, henabled, hvcpu⟩
    · rintro rfl
      rw [h.not_waiting hv hrun] at hvcpu
      cases hvcpu
    · rw [hactive]
      exact not_ofNat_neg halloc ha

theorem ofNat_ne {a b : Nat} (halloc : AllocationsSucceed n) (ha : a < n) (hb : b < n)
    (hab : a ≠ b) : Int32.ofNat a ≠ Int32.ofNat b := by
  intro heq
  have htoInt := congrArg Int32.toInt heq
  rw [toInt_ofNat halloc ha, toInt_ofNat halloc hb] at htoInt
  exact hab (Int.natCast_inj.mp htoInt)

theorem setState_state (hv : Hv) (v w : VcpuPtr) (state : VcpuState) :
    ((setState hv v state).vcpus w).state = if w = v then state else (hv.vcpus w).state := by
  rw [setState, Hv.setVcpu_apply]
  split_ifs <;> rfl

/-- The new transfer of a VCPU that can run blocks it. -/
theorem Waiting.wait (h : Waiting s n) (hv : v < n) (cpu : Cpu) (str : UInt32)
    (txreg : List UInt8) {i : UInt32} (hi : i ≤ size) {active : Int32}
    (hactive : (active = Int32.ofNat v ∧ ∀ j < n, (s.transfers j).vcpu = none) ∨
      (i = 0 ∧ active = s.activeTransfer ∧ ∃ a < n, a ≠ v ∧ s.activeTransfer = Int32.ofNat a ∧
        (s.transfers a).vcpu = some a)) :
    Waiting { s with
      hv := { setState s.hv v .blocked with cpu := cpu }
      transfers := Function.update s.transfers v
        { bufAddr := str, nextCharacter := i, size := size, vcpu := some v }
      activeTransfer := active
      txEnabled := true
      txreg := txreg } n := by
  constructor
  · exact Ready.setCpu (h.ready.setState v .blocked) cpu
  · intro j hj w hw
    by_cases hjv : j = v
    · subst hjv
      simpa using hw.symm
    · simp only [Function.update_of_ne hjv] at hw
      exact h.owner j hj w hw
  · intro j hj
    show ((setState s.hv v .blocked).vcpus j).state = .blocked ↔ _
    rw [setState_state]
    by_cases hjv : j = v
    · subst hjv
      simp
    · simp only [if_neg hjv, Function.update_of_ne hjv]
      exact h.blocked j hj
  · intro j hj hvcpu
    by_cases hjv : j = v
    · subst hjv
      simp only [Function.update_self]
      refine ⟨hi, fun hne => ?_⟩
      rcases hactive with ⟨heq, _⟩ | ⟨hzero, _⟩
      · exact absurd heq hne
      · exact hzero
    · simp only [Function.update_of_ne hjv] at hvcpu ⊢
      obtain ⟨hle, hzero⟩ := h.next j hj hvcpu
      refine ⟨hle, fun hne => hzero ?_⟩
      rcases hactive with ⟨_, hnone⟩ | ⟨_, heq, _⟩
      · rw [hnone j hj] at hvcpu
        cases hvcpu
      · exact heq ▸ hne
  · apply Or.inr
    rcases hactive with ⟨heq, _⟩ | ⟨_, heq, a, ha, hav, ha', hvcpu⟩
    · exact ⟨v, hv, heq, rfl, by simp⟩
    · exact ⟨a, ha, heq.trans ha', rfl, by simpa [hav] using hvcpu⟩

theorem Waiting.sent (h : Waiting s n) (halloc : AllocationsSucceed n) (hv : v < n)
    (hrun : (s.hv.vcpus v).state = .running) (ht : Sent s v str size t) : Waiting t n := by
  rcases h.idle_or_other halloc hv hrun with
    ⟨hidle, henabled, hnone⟩ | ⟨a, ha, hav, hbusy, hactive, henabled, hvcpu⟩
  · cases ht with
    | whole cpu direct => exact ⟨Ready.setCpu h.ready cpu, h.owner, h.blocked, h.next, h.active⟩
    | first cpu i idle rest =>
      exact h.wait hv cpu str _ (UInt32.le_of_lt rest) (Or.inl ⟨rfl, hnone⟩)
    | queued cpu busy => exact absurd hidle busy
  · cases ht with
    | whole cpu direct => exact ⟨Ready.setCpu h.ready cpu, h.owner, h.blocked, h.next, h.active⟩
    | first cpu i idle rest => exact absurd idle hbusy
    | queued cpu busy =>
      have hwait := h.wait hv cpu str s.txreg (UInt32.zero_le (a := size))
        (Or.inr ⟨rfl, rfl, a, ha, hav, hactive, hvcpu⟩)
      rwa [← henabled] at hwait

/-- The active transfer goes on. -/
theorem Waiting.advance {a : Nat} (h : Waiting s n) (ha : a < n)
    (hactive : s.activeTransfer = Int32.ofNat a) (henabled : s.txEnabled = true)
    (hvcpu : (s.transfers a).vcpu = some a) (cpu : Cpu) {i : UInt32}
    (hi : i ≤ (s.transfers a).size) (txreg : List UInt8) :
    Waiting { s with
      hv := { s.hv with cpu := cpu }
      transfers := Function.update s.transfers a { s.transfers a with nextCharacter := i }
      txreg := txreg } n := by
  refine ⟨Ready.setCpu h.ready cpu, fun j hj w hw => ?_, fun j hj => ?_, fun j hj hw => ?_,
    Or.inr ⟨a, ha, hactive, henabled, by simpa using hvcpu⟩⟩
  · by_cases hja : j = a
    · subst hja
      simp only [Function.update_self] at hw
      exact h.owner j hj w hw
    · simp only [Function.update_of_ne hja] at hw
      exact h.owner j hj w hw
  · by_cases hja : j = a
    · subst hja
      simp only [Function.update_self]
      exact h.blocked j hj
    · simp only [Function.update_of_ne hja]
      exact h.blocked j hj
  · by_cases hja : j = a
    · subst hja
      simp only [Function.update_self]
      exact ⟨hi, fun hne => absurd hactive hne⟩
    · simp only [Function.update_of_ne hja] at hw ⊢
      exact h.next j hj hw

/-- The active transfer ends, and another one is active, or none when none waits. -/
theorem Waiting.finish {a : Nat} (h : Waiting s n) (halloc : AllocationsSucceed n) (ha : a < n)
    (hactive : s.activeTransfer = Int32.ofNat a) (cpu : Cpu) (txreg : List UInt8) {active : Int32}
    {enabled : Bool}
    (hnext : (active = -1 ∧ enabled = false ∧ ∀ j < n, j ≠ a → (s.transfers j).vcpu = none) ∨
      ∃ b < n, b ≠ a ∧ active = Int32.ofNat b ∧ enabled = true ∧ (s.transfers b).vcpu = some b) :
    Waiting { s with
      hv := setState { s.hv with cpu := cpu } a .running
      transfers := Function.update s.transfers a
        { s.transfers a with nextCharacter := (s.transfers a).size, vcpu := none }
      activeTransfer := active
      txEnabled := enabled
      txreg := txreg } n := by
  refine ⟨Kernel.Ready.setState (Ready.setCpu h.ready cpu) a .running, fun j hj w hw => ?_,
    fun j hj => ?_, fun j hj hw => ?_, ?_⟩
  · by_cases hja : j = a
    · subst hja
      simp at hw
    · simp only [Function.update_of_ne hja] at hw
      exact h.owner j hj w hw
  · rw [setState_state]
    by_cases hja : j = a
    · subst hja
      simp
    · simp only [if_neg hja, Function.update_of_ne hja]
      exact h.blocked j hj
  · by_cases hja : j = a
    · subst hja
      simp at hw
    · simp only [Function.update_of_ne hja] at hw ⊢
      obtain ⟨hle, hzero⟩ := h.next j hj hw
      have hother := hzero (hactive ▸ ofNat_ne halloc ha hj (Ne.symm hja))
      exact ⟨hle, fun _ => hother⟩
  · rcases hnext with ⟨hidle, hdisabled, hnone⟩ | ⟨b, hb, hba, hb', henabled', hvcpu'⟩
    · refine Or.inl ⟨hidle, hdisabled, fun j hj => ?_⟩
      by_cases hja : j = a
      · subst hja
        simp
      · simpa [hja] using hnone j hj hja
    · exact Or.inr ⟨b, hb, hb', henabled', by simpa [hba] using hvcpu'⟩

/-- The TX interrupt keeps the agreement. -/
theorem Waiting.transferred {a : Nat} (h : Waiting s n) (halloc : AllocationsSucceed n) (ha : a < n)
    (hactive : s.activeTransfer = Int32.ofNat a) (henabled : s.txEnabled = true)
    (hvcpu : (s.transfers a).vcpu = some a) (ht : Transferred s n a t) : Waiting t n := by
  cases ht with
  | partly cpu i written rest bytes =>
    exact h.advance ha hactive henabled hvcpu cpu (UInt32.le_of_lt rest) _
  | done cpu written bytes =>
    rcases finishTransfer_cases n a a { s with
        hv := { s.hv with cpu := cpu }
        transfers := Function.update s.transfers a
          { s.transfers a with nextCharacter := (s.transfers a).size }
        txreg := s.txreg ++ written } with ⟨hnone, heq⟩ | ⟨j, hj, hja, hsome, heq⟩
    · rw [heq]
      simp only [Function.update_idem, Function.update_self]
      refine h.finish halloc ha hactive cpu _ (Or.inl ⟨rfl, rfl, fun j hj hja => ?_⟩)
      simpa [hja] using hnone j hj hja
    · rw [heq]
      simp only [Function.update_idem, Function.update_self]
      simp only [Function.update_of_ne hja] at hsome
      obtain ⟨w, hw⟩ := Option.ne_none_iff_exists'.mp hsome
      have hwj := h.owner j hj w hw
      subst hwj
      exact h.finish halloc ha hactive cpu _ (Or.inr ⟨w, hj, hja, rfl, henabled, hw⟩)

/-! ### What was written -/

/-- What the active transfer has written so far. -/
def Uart.inProgress (s : Uart) : List UInt8 :=
  if s.activeTransfer < 0 then []
  else
    let j := s.activeTransfer.toUInt32.toNat
    s.bytes j (s.transfers j).bufAddr (s.transfers j).nextCharacter

/-- The buffer of the VCPU `v` that waits, or that is active. -/
def Uart.unfinished (s : Uart) (n : Nat) (v : VcpuPtr) : List (List UInt8) :=
  if v < n ∧ (s.transfers v).vcpu ≠ none then
    [s.bytes v (s.transfers v).bufAddr (s.transfers v).size]
  else []

/-- The hardware was given whole buffers, each one that a VCPU sent once and in the order in which
it sent them, and then the beginning of the active one. -/
def Serialised (s : Uart) (accepted : VcpuPtr → List (List UInt8)) (n : Nat) : Prop :=
  ∃ whole : List (VcpuPtr × List UInt8),
    s.txreg = (whole.map Prod.snd).flatten ++ s.inProgress ∧
      ∀ v, accepted v = (whole.filter fun sent => sent.1 = v).map Prod.snd ++ s.unfinished n v

theorem inProgress_idle (h : s.activeTransfer < 0) : s.inProgress = [] := by
  rw [Uart.inProgress, if_pos h]

theorem inProgress_active {a : Nat} (halloc : AllocationsSucceed n) (ha : a < n)
    (h : s.activeTransfer = Int32.ofNat a) :
    s.inProgress = s.bytes a (s.transfers a).bufAddr (s.transfers a).nextCharacter := by
  have hbusy : ¬s.activeTransfer < 0 := h ▸ not_ofNat_neg halloc ha
  have hj : s.activeTransfer.toUInt32.toNat = a := by rw [h, toNat_ofNat halloc ha]
  rw [Uart.inProgress, if_neg hbusy, hj]

theorem unfinished_none (h : (s.transfers v).vcpu = none) : s.unfinished n v = [] := by
  rw [Uart.unfinished, if_neg fun hv => hv.2 h]

theorem bytes_congr (hmemory : t.memory v = s.memory v) :
    t.bytes v str size = s.bytes v str size := by
  have hmapped : t.strMapped v str = s.strMapped v str := by
    funext i
    rw [Uart.strMapped, hmemory]
    rfl
  rw [Uart.bytes, hmapped]
  rfl

theorem unfinished_congr {w : VcpuPtr} (htransfers : t.transfers w = s.transfers w)
    (hmemory : t.memory w = s.memory w) : t.unfinished n w = s.unfinished n w := by
  rw [Uart.unfinished, htransfers, bytes_congr hmemory]
  rfl

theorem inProgress_congr {a : Nat} (halloc : AllocationsSucceed n) (ha : a < n)
    (hs : s.activeTransfer = Int32.ofNat a) (ht : t.activeTransfer = Int32.ofNat a)
    (htransfers : t.transfers a = s.transfers a) (hmemory : t.memory a = s.memory a) :
    t.inProgress = s.inProgress := by
  rw [inProgress_active halloc ha hs, inProgress_active halloc ha ht, htransfers,
    bytes_congr hmemory]

variable {accepted : VcpuPtr → List (List UInt8)}

theorem serialised_idle {whole : List (VcpuPtr × List UInt8)} (hidle : s.activeTransfer = -1)
    (houtput : s.txreg = (whole.map Prod.snd).flatten)
    (haccepted : ∀ v, accepted v =
      (whole.filter fun sent => sent.1 = v).map Prod.snd ++ s.unfinished n v) :
    Serialised s accepted n := by
  have hneg : s.activeTransfer < 0 := by rw [hidle]; decide
  exact ⟨whole, by rw [inProgress_idle hneg, List.append_nil, houtput], haccepted⟩

theorem serialised_active {a : Nat} (halloc : AllocationsSucceed n) (ha : a < n)
    (whole : List (VcpuPtr × List UInt8)) (hactive : s.activeTransfer = Int32.ofNat a)
    (houtput : s.txreg = (whole.map Prod.snd).flatten ++
      s.bytes a (s.transfers a).bufAddr (s.transfers a).nextCharacter)
    (haccepted : ∀ v, accepted v =
      (whole.filter fun sent => sent.1 = v).map Prod.snd ++ s.unfinished n v) :
    Serialised s accepted n :=
  ⟨whole, by rw [inProgress_active halloc ha hactive, houtput], haccepted⟩

/-- One more whole buffer. -/
theorem filter_push (whole : List (VcpuPtr × List UInt8)) (v w : VcpuPtr) (bytes : List UInt8) :
    ((whole ++ [(v, bytes)]).filter fun sent => sent.1 = w).map Prod.snd =
      (whole.filter fun sent => sent.1 = w).map Prod.snd ++ if w = v then [bytes] else [] := by
  rw [List.filter_append, List.map_append]
  by_cases hwv : w = v
  · simp [hwv]
  · simp [hwv, Ne.symm hwv]

/-- A guest that can run stores in its memory, where no buffer waits. -/
theorem Serialised.store (h : Serialised s accepted n) (hwaiting : Waiting s n)
    (halloc : AllocationsSucceed n) (hrun : (s.hv.vcpus v).state = .running)
    (memory : UInt32 → UInt8) :
    Serialised { s with memory := Function.update s.memory v memory } accepted n := by
  obtain ⟨whole, houtput, haccepted⟩ := h
  set t : Uart := { s with memory := Function.update s.memory v memory } with ht
  have hmemory : ∀ w < n, (s.transfers w).vcpu ≠ none → t.memory w = s.memory w := by
    intro w hw hsome
    refine Function.update_of_ne ?_ memory s.memory
    rintro rfl
    exact hsome (hwaiting.not_waiting hw hrun)
  refine ⟨whole, ?_, fun w => ?_⟩
  · have hsame : t.inProgress = s.inProgress := by
      rcases hwaiting.active with ⟨hidle, _, _⟩ | ⟨a, ha, hactive, _, hvcpu⟩
      · have hneg : s.activeTransfer < 0 := by rw [hidle]; decide
        rw [inProgress_idle hneg, inProgress_idle (s := t) hneg]
      · have hsome : (s.transfers a).vcpu ≠ none := by
          rw [hvcpu]
          exact Option.some_ne_none a
        exact inProgress_congr halloc ha hactive hactive rfl (hmemory a ha hsome)
    exact houtput.trans (hsame ▸ rfl)
  · refine (haccepted w).trans (congrArg _ ?_)
    by_cases hw : w < n ∧ (s.transfers w).vcpu ≠ none
    · exact (unfinished_congr (s := s) (t := t) rfl (hmemory w hw.1 hw.2)).symm
    · rw [Uart.unfinished, Uart.unfinished, if_neg hw, if_neg hw]

/-- The buffer of `v` waits from now on, and is unfinished. -/
theorem accepted_wait {whole : List (VcpuPtr × List UInt8)}
    (haccepted : ∀ w, accepted w =
      (whole.filter fun sent => sent.1 = w).map Prod.snd ++ s.unfinished n w)
    (hv : v < n) (hnone : (s.transfers v).vcpu = none) (hmemory : t.memory = s.memory) {i : UInt32}
    (htransfers : t.transfers = Function.update s.transfers v
      { bufAddr := str, nextCharacter := i, size := size, vcpu := some v }) (w : VcpuPtr) :
    Function.update accepted v (accepted v ++ [s.bytes v str size]) w =
      (whole.filter fun sent => sent.1 = w).map Prod.snd ++ t.unfinished n w := by
  by_cases hwv : w = v
  · subst hwv
    have hstart := haccepted w
    rw [unfinished_none hnone, List.append_nil] at hstart
    rw [Function.update_self, hstart, Uart.unfinished, htransfers, Function.update_self,
      if_pos ⟨hv, Option.some_ne_none w⟩, bytes_congr (t := t) (s := s) (by rw [hmemory])]
  · rw [Function.update_of_ne hwv, haccepted w, unfinished_congr (t := t) (s := s)
      (by rw [htransfers, Function.update_of_ne hwv]) (by rw [hmemory])]

/-- The buffer of `a` is whole now, and no longer unfinished. -/
theorem accepted_finish {whole : List (VcpuPtr × List UInt8)} {a : Nat}
    (haccepted : ∀ w, accepted w =
      (whole.filter fun sent => sent.1 = w).map Prod.snd ++ s.unfinished n w)
    (ha : a < n) (hvcpu : (s.transfers a).vcpu = some a) (hmemory : t.memory = s.memory)
    (hnone : (t.transfers a).vcpu = none) (hothers : ∀ w, w ≠ a → t.transfers w = s.transfers w)
    (w : VcpuPtr) :
    accepted w = ((whole ++ [(a, s.bytes a (s.transfers a).bufAddr (s.transfers a).size)]).filter
      fun sent => sent.1 = w).map Prod.snd ++ t.unfinished n w := by
  rw [filter_push, haccepted w]
  by_cases hwa : w = a
  · subst hwa
    rw [if_pos rfl, unfinished_none hnone, List.append_nil, Uart.unfinished,
      if_pos ⟨ha, by rw [hvcpu]; exact Option.some_ne_none w⟩]
  · rw [if_neg hwa, List.append_nil, unfinished_congr (hothers w hwa) (by rw [hmemory])]

/-- A send by a VCPU that can run. -/
theorem Serialised.sent (h : Serialised s accepted n) (hwaiting : Waiting s n)
    (halloc : AllocationsSucceed n) (hv : v < n) (hrun : (s.hv.vcpus v).state = .running)
    (ht : Sent s v str size t) :
    Serialised t (Function.update accepted v (accepted v ++ [s.bytes v str size])) n := by
  obtain ⟨whole, houtput, haccepted⟩ := h
  have hnone := hwaiting.not_waiting hv hrun
  cases ht with
  | whole cpu direct =>
    refine ⟨whole ++ [(v, s.bytes v str size)], ?_, fun w => ?_⟩
    · have hlast : s.inProgress ++ s.bytes v str size = s.bytes v str size ++ s.inProgress := by
        rcases direct with hidle | hzero
        · rw [inProgress_idle hidle, List.nil_append, List.append_nil]
        · rw [hzero]
          exact List.append_nil _
      show s.txreg ++ s.bytes v str size = _ ++ s.inProgress
      rw [houtput, List.map_append, List.flatten_append, List.append_assoc, hlast]
      simp
    · show _ = _ ++ s.unfinished n w
      rw [filter_push]
      by_cases hwv : w = v
      · subst hwv
        rw [Function.update_self, haccepted w, if_pos rfl, unfinished_none hnone, List.append_nil,
          List.append_nil]
      · rw [Function.update_of_ne hwv, haccepted w, if_neg hwv, List.append_nil]
  | first cpu i idle rest =>
    refine serialised_active halloc hv whole rfl ?_
      (accepted_wait haccepted hv hnone rfl rfl)
    rw [inProgress_idle idle, List.append_nil] at houtput
    simp only [houtput, Function.update_self]
    rfl
  | queued cpu busy =>
    refine ⟨whole, ?_, accepted_wait haccepted hv hnone rfl rfl⟩
    rcases hwaiting.idle_or_other halloc hv hrun with
      ⟨hidle, _, _⟩ | ⟨a, ha, hav, _, hactive, _, _⟩
    · exact absurd hidle busy
    · refine houtput.trans (congrArg _ (Eq.symm ?_))
      exact inProgress_congr halloc ha hactive hactive (Function.update_of_ne hav _ _) rfl

/-- The TX interrupt goes on with the active transfer, or ends it and makes it whole. -/
theorem Serialised.transferred {a : Nat} (h : Serialised s accepted n) (hwaiting : Waiting s n)
    (halloc : AllocationsSucceed n) (ha : a < n) (hactive : s.activeTransfer = Int32.ofNat a)
    (hvcpu : (s.transfers a).vcpu = some a) (ht : Transferred s n a t) :
    Serialised t accepted n := by
  obtain ⟨whole, houtput, haccepted⟩ := h
  rw [inProgress_active halloc ha hactive] at houtput
  cases ht with
  | partly cpu i written rest bytes =>
    refine serialised_active halloc ha whole hactive ?_ fun w => ?_
    · simp only [houtput, List.append_assoc, Function.update_self]
      exact congrArg _ bytes
    · refine (haccepted w).trans (congrArg _ (Eq.symm ?_))
      by_cases hwa : w = a
      · subst hwa
        simp only [Uart.unfinished, Function.update_self]
        rfl
      · exact unfinished_congr (Function.update_of_ne hwa _ _) rfl
  | done cpu written bytes =>
    have hwhole : s.txreg ++ written =
        ((whole ++ [(a, s.bytes a (s.transfers a).bufAddr (s.transfers a).size)]).map
          Prod.snd).flatten := by
      have hbytes : s.bytes a (s.transfers a).bufAddr (s.transfers a).nextCharacter ++ written =
          s.bytes a (s.transfers a).bufAddr (s.transfers a).size := bytes
      rw [houtput, List.append_assoc, hbytes, List.map_append, List.flatten_append]
      simp
    rcases finishTransfer_cases n a a { s with
        hv := { s.hv with cpu := cpu }
        transfers := Function.update s.transfers a
          { s.transfers a with nextCharacter := (s.transfers a).size }
        txreg := s.txreg ++ written } with ⟨hnone, heq⟩ | ⟨j, hj, hja, hsome, heq⟩
    · rw [heq]
      refine serialised_idle rfl hwhole
        (accepted_finish haccepted ha hvcpu rfl ?_ fun w hwa => ?_)
      · simp
      · simp [hwa]
    · rw [heq]
      simp only [Function.update_of_ne hja] at hsome
      obtain ⟨w, hw⟩ := Option.ne_none_iff_exists'.mp hsome
      have hwj := hwaiting.owner j hj w hw
      subst hwj
      have hfirst : (s.transfers w).nextCharacter = 0 :=
        (hwaiting.next w hj hw).2 (hactive ▸ ofNat_ne halloc ha hj (Ne.symm hja))
      refine serialised_active halloc hj _ rfl ?_
        (accepted_finish haccepted ha hvcpu rfl ?_ fun x hxa => ?_)
      · simp only [Function.update_of_ne hja, hfirst, Uart.bytes, UInt32.toNat_zero,
          List.range_zero, List.map_nil, List.append_nil]
        exact hwhole
      · simp
      · simp [hxa]

/-! ### Runs -/

/-- What a run keeps. -/
structure Driving (c : Console) (n : Nat) : Prop where
  waiting : Waiting c.uart n
  serialised : Serialised c.uart c.accepted n

theorem Driving.frame {c : Console} (h : Driving c n) {hv : Hv} (hready : Ready hv n)
    (hstate : ∀ w, (hv.vcpus w).state = (c.uart.hv.vcpus w).state) :
    Driving { c with uart := { c.uart with hv := hv } } n :=
  ⟨h.waiting.frame hready hstate, h.serialised⟩

theorem runScheduler_state {hv : Hv} (h : Ready hv n) (p : Platform) (quantum : UInt32) :
    ∃ hv', runScheduler p quantum hv = .ok hv' ∧ Ready hv' n ∧
      ∀ w, (hv'.vcpus w).state = (hv.vcpus w).state := by
  obtain ⟨l, hl, hholds⟩ := h.list
  obtain ⟨hv', hrun, hready⟩ := h.runScheduler p quantum
  refine ⟨hv', hrun, hready, fun w => ?_⟩
  rcases runScheduler_cases p quantum hholds (IsRotated.nodup_range hl) with
    ⟨_, hrun'⟩ | ⟨_, pick, hv'', ho, hrun'⟩
  · cases hrun.symm.trans hrun'
    rfl
  · cases hrun.symm.trans hrun'
    exact (congrArg VcpuSched.state ((contextSwitch_same p hv'' pick.vcpu).sched w)).trans
      (ho.state w)

theorem Driving.tick {c : Console} (h : Driving c n) (quantum : UInt32) :
    ∃ t, uartStep quantum n c .tick = some t ∧ Driving t n := by
  obtain ⟨hv', hrun, hready, hstate⟩ := runScheduler_state h.waiting.ready .pic32mz quantum
  exact ⟨_, by rw [uartStep, hrun]; rfl, h.frame hready hstate⟩

theorem Driving.send {c : Console} (h : Driving c n) (halloc : AllocationsSucceed n)
    (quantum : UInt32) {caller : VcpuPtr} (hcaller : caller < n)
    (hrun : (c.uart.hv.vcpus caller).state = .running) (str size : UInt32) (full : Nat → Bool) :
    ∃ t, uartStep quantum n c (.send caller str size full) = some t ∧ Driving t n := by
  have hsame := hypercall_same .pic32mz c.uart.hv caller [(REG_A0, str), (REG_A1, size)]
  have hcalled := h.frame (h.waiting.ready.same hsame)
    fun w => congrArg VcpuSched.state (hsame.sched w)
  have hrun' := (congrArg VcpuSched.state (hsame.sched caller)).trans hrun
  obtain ⟨t, hsend, ht⟩ := send_sent (s := { c.uart with
    hv := hypercall .pic32mz c.uart.hv caller [(REG_A0, str), (REG_A1, size)] }) halloc hcaller
    (hypercall_executing .pic32mz c.uart.hv caller _)
      (hcalled.waiting.ready.ids caller hcaller) full
    str size (by simp [hypercall, setGuestGPR, moveFrom_moveTo_of_ne, REG_A0,
      REG_A1]) (by simp [hypercall, setGuestGPR])
  refine ⟨_, by simp only [uartStep, hsend]; rfl, hcalled.waiting.sent halloc hcaller hrun' ht, ?_⟩
  exact hcalled.serialised.sent hcalled.waiting halloc hcaller hrun' ht

theorem Driving.txInterrupt {c : Console} (h : Driving c n) (halloc : AllocationsSucceed n)
    (quantum : UInt32) (henabled : c.uart.txEnabled = true) (full : Nat → Bool) :
    ∃ t, uartStep quantum n c (.txInterrupt full) = some t ∧ Driving t n := by
  rcases h.waiting.active with ⟨_, hdisabled, _⟩ | ⟨a, ha, hactive, _, hvcpu⟩
  · rw [henabled] at hdisabled
    cases hdisabled
  · obtain ⟨t, hdone, ht⟩ := transferTxDone_transferred halloc ha hactive hvcpu
      (h.waiting.next a ha hvcpu).1 full
    refine ⟨_, by simp only [uartStep, hdone]; rfl,
      h.waiting.transferred halloc ha hactive henabled hvcpu ht, ?_⟩
    exact h.serialised.transferred h.waiting halloc ha hactive hvcpu ht

theorem Driving.step {c : Console} (h : Driving c n) (halloc : AllocationsSucceed n)
    (quantum : UInt32) {e : UartEvent} (hallowed : Allowed n c e) :
    ∃ t, uartStep quantum n c e = some t ∧ Driving t n := by
  cases e with
  | tick => exact h.tick quantum
  | deliver target =>
    refine ⟨_, rfl, h.frame (h.waiting.ready.fastInterruptDelivery target) fun w => ?_⟩
    obtain ⟨critical, heq⟩ := fastInterruptDelivery_vcpu c.uart.hv target w
    rw [heq]
  | switchTo aux =>
    have hsame := contextSwitch_same .pic32mz c.uart.hv aux
    exact ⟨_, rfl, h.frame (h.waiting.ready.same hsame)
      fun w => congrArg VcpuSched.state (hsame.sched w)⟩
  | store v address value =>
    have hstored := h.serialised.store h.waiting halloc hallowed
      (Function.update (c.uart.memory v) address value)
    exact ⟨_, rfl, ⟨h.waiting.ready, h.waiting.owner, h.waiting.blocked, h.waiting.next,
      h.waiting.active⟩, hstored⟩
  | send caller str size full => exact h.send halloc quantum hallowed.1 hallowed.2 str size full
  | txInterrupt full => exact h.txInterrupt halloc quantum hallowed full

/-- The driver after `uart_driver_init`, on VMs whose guests have `memory`. -/
def uartStart (power : Power) (vmconf : List VmConf) (memory : VcpuPtr → UInt32 → UInt8) :
    Console where
  uart := {
    hv := initializeMachines .pic32mz power vmconf
    transfers := fun _ => { bufAddr := 0, nextCharacter := 0, size := 0, vcpu := none }
    activeTransfer := -1
    txEnabled := false
    txreg := []
    memory := memory }
  accepted := fun _ => []

theorem uartStart_driving (power : Power) (vmconf : List VmConf)
    (memory : VcpuPtr → UInt32 → UInt8) :
    Driving (uartStart power vmconf memory) vmconf.length := by
  have hbooted := initializeMachines_booted .pic32mz power vmconf
  have hnone : ∀ j v, ((uartStart power vmconf memory).uart.transfers j).vcpu ≠ some v :=
    fun j v h => nomatch h
  refine ⟨⟨hbooted.isReady, fun j _ v h => absurd h (hnone j v), fun j hj => ?_,
    fun j _ h => absurd h (hnone j j), Or.inl ⟨rfl, rfl, fun j _ => rfl⟩⟩,
    ⟨[], rfl, fun v => ?_⟩⟩
  · have hstate : ((initializeMachines .pic32mz power vmconf).vcpus j).state = .running :=
      (hbooted.vcpus j hj).state
    simp [uartStart, hstate]
  · simp [uartStart, Uart.unfinished]

/-- The four parts of the driver's state agree, and every blocked VCPU has an enabled interrupt that
goes on with a transfer. -/
structure BlockingInvariant (s : Uart) (n : Nat) : Prop where
  idle : s.activeTransfer = -1 ↔ ∀ j < n, (s.transfers j).vcpu = none
  active : s.activeTransfer ≠ -1 →
    ∃ a < n, s.activeTransfer = Int32.ofNat a ∧ (s.transfers a).vcpu ≠ none
  blocked : ∀ j < n, (s.hv.vcpus j).id = UInt32.ofNat (j + 1) ∧
    ((s.hv.vcpus j).state = .blocked ↔ (s.transfers j).vcpu = some j)
  enabled : s.txEnabled = true ↔ 0 ≤ s.activeTransfer
  woken : ∀ j < n, (s.hv.vcpus j).state = .blocked → 0 ≤ s.activeTransfer ∧ s.txEnabled = true

theorem Waiting.blocking (h : Waiting s n) (halloc : AllocationsSucceed n) :
    BlockingInvariant s n := by
  have hids := h.ready.ids
  rcases h.active with ⟨hidle, hdisabled, hnone⟩ | ⟨a, ha, hactive, henabled, hvcpu⟩
  · refine ⟨⟨fun _ => hnone, fun _ => hidle⟩, fun hne => absurd hidle hne,
      fun j hj => ⟨hids j hj, h.blocked j hj⟩, ?_, fun j hj hblocked => ?_⟩
    · rw [hdisabled, hidle]
      decide
    · have hsome := (h.blocked j hj).mp hblocked
      rw [hnone j hj] at hsome
      cases hsome
  · have hpos : 0 ≤ s.activeTransfer := Int32.not_lt.mp (hactive ▸ not_ofNat_neg halloc ha)
    have hsome : (s.transfers a).vcpu ≠ none := by
      rw [hvcpu]
      exact Option.some_ne_none a
    refine ⟨⟨fun hidle => ?_, fun hnone => absurd (hnone a ha) hsome⟩,
      fun _ => ⟨a, ha, hactive, hsome⟩, fun j hj => ⟨hids j hj, h.blocked j hj⟩,
      ⟨fun _ => hpos, fun _ => henabled⟩, fun j hj _ => ⟨hpos, henabled⟩⟩
    rw [hidle] at hpos
    exact absurd hpos (by decide)

/-- Every run is defined, so `transfer_tx_done` always has a transfer to go on with, and the parts
of the driver's state agree. -/
theorem uart_blocking (quantum : UInt32) (power : Power) (vmconf : List VmConf)
    (memory : VcpuPtr → UInt32 → UInt8) (halloc : AllocationsSucceed vmconf.length)
    (es : List UartEvent)
    (hallowed : Guarded (uartStep quantum vmconf.length) (Allowed vmconf.length)
      (uartStart power vmconf memory) es) :
    ∃ c, run (uartStep quantum vmconf.length) (uartStart power vmconf memory) es = some c ∧
      BlockingInvariant c.uart vmconf.length := by
  obtain ⟨c, hrun, h⟩ := run_guarded (fun c e hc he => Driving.step hc halloc quantum he)
    (uartStart_driving power vmconf memory) hallowed
  exact ⟨c, hrun, h.waiting.blocking halloc⟩

/-- Every run is defined, and what it writes to the hardware is a sequence of whole buffers and the
beginning of the active one. -/
theorem uart_serialised (quantum : UInt32) (power : Power) (vmconf : List VmConf)
    (memory : VcpuPtr → UInt32 → UInt8) (halloc : AllocationsSucceed vmconf.length)
    (es : List UartEvent)
    (hallowed : Guarded (uartStep quantum vmconf.length) (Allowed vmconf.length)
      (uartStart power vmconf memory) es) :
    ∃ c, run (uartStep quantum vmconf.length) (uartStart power vmconf memory) es = some c ∧
      Serialised c.uart c.accepted vmconf.length := by
  obtain ⟨c, hrun, h⟩ := run_guarded (fun c e hc he => Driving.step hc halloc quantum he)
    (uartStart_driving power vmconf memory) hallowed
  exact ⟨c, hrun, h.serialised⟩

/-- Both VMs send two characters, of which the hardware queue takes the first; the interrupt writes
the rest of the first buffer, and then the second one. -/
def twoSends : List UartEvent :=
  [.send 0 0x80008000 2 fun i => i = 1, .tick, .send 1 0x80010000 2 fun _ => false,
    .txInterrupt fun _ => false, .txInterrupt fun _ => false]

theorem uart_blocking_pingPong :
    ∃ c, run (uartStep 5 2) (uartStart .cleared pingPong fun _ _ => 0x61) twoSends = some c ∧
      BlockingInvariant c.uart 2 :=
  uart_blocking 5 .cleared pingPong (fun _ _ => 0x61) (by decide) twoSends (by decide +kernel)

theorem uart_serialised_pingPong :
    ∃ c, run (uartStep 5 2) (uartStart .cleared pingPong fun _ _ => 0x61) twoSends = some c ∧
      Serialised c.uart c.accepted 2 :=
  uart_serialised 5 .cleared pingPong (fun _ _ => 0x61) (by decide) twoSends (by decide +kernel)

end PrplHypervisor.Drivers
