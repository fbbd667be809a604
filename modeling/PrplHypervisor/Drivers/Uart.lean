import PrplHypervisor.Drivers.MessageQueue

/-! The UART driver of PIC32MZ (`arch/mips/pic32mz/uart_driver.c`).  A send writes characters until
the hardware queue is full; the VCPU then waits, and the TX interrupt writes the rest.  Whether the
queue is full at a character is an argument of each routine. -/

namespace PrplHypervisor.Drivers

open Arch Kernel Lib.Runs

/-- `struct transfer_info`. -/
structure TransferInfo where
  bufAddr : UInt32
  nextCharacter : UInt32
  size : UInt32
  vcpu : Option VcpuPtr
  deriving DecidableEq, Repr

/-- The driver with the registers it uses: the enable bit of the TX interrupt and the bytes written
to `UARTTXREG`.  `memory v` is the memory of the guest of `v`. -/
structure Uart where
  hv : Hv
  transfers : Nat → TransferInfo
  activeTransfer : Int32
  txEnabled : Bool
  txreg : List UInt8
  memory : VcpuPtr → UInt32 → UInt8

/-- What the guest of `v` has at `address`, as it is read through the temporary mapping. -/
def Uart.strMapped (s : Uart) (v : VcpuPtr) (address : UInt32) (i : Nat) : UInt8 :=
  s.memory v (address + UInt32.ofNat i)

/-- The loop that writes the characters from `i` on, at most `n` of them: the next character, and
the bytes written.  `full i` says whether the hardware queue is full before character `i`. -/
def writeLoop (strMapped : Nat → UInt8) (full : Nat → Bool) (size : UInt32) :
    Nat → UInt32 → UInt32 × List UInt8
  | 0, i => (i, [])
  | n + 1, i =>
    if i < size ∧ full i.toNat = false then
      let (j, written) := writeLoop strMapped full size n (i + 1)
      (j, strMapped i.toNat :: written)
    else (i, [])

/-- `scheduler_transfer_interrupt`. -/
def schedulerTransferInterrupt (nvmachines : Nat) (addr nextCharacter size : UInt32) (s : Uart) :
    Except Fault Uart :=
  match s.hv.executing with
  | none => .error .nullPointer
  | some v =>
    let j := (s.hv.vcpus v).id - 1
    let s :=
      if s.activeTransfer < 0 then { s with txEnabled := true, activeTransfer := j.toInt32 } else s
    if nvmachines ≤ j.toNat then .error .outOfBounds
    else .ok { s with
      hv := setState s.hv v .blocked
      transfers := Function.update s.transfers j.toNat
        { bufAddr := addr, nextCharacter := nextCharacter, size := size, vcpu := some v } }

/-- The search of `transfer_tx_done` for a transfer that waits. -/
def nextTransfer (nvmachines : Nat) (transfers : Nat → TransferInfo) : Option Nat :=
  (List.range nvmachines).find? fun j => (transfers j).vcpu.isSome

/-- The state in which `transfer_tx_done` leaves the end of the transfer `j` of `v`. -/
def finishTransfer (nvmachines j : Nat) (v : VcpuPtr) (s : Uart) : Uart :=
  let transfers := Function.update s.transfers j { s.transfers j with vcpu := none }
  let s := { s with hv := setState s.hv v .running, transfers := transfers }
  match nextTransfer nvmachines transfers with
  | some j => { s with activeTransfer := (UInt32.ofNat j).toInt32 }
  | none => { s with txEnabled := false, activeTransfer := -1 }

/-- `transfer_tx_done`. -/
def transferTxDone (nvmachines : Nat) (full : Nat → Bool) (s : Uart) : Except Fault Uart :=
  let j := s.activeTransfer.toUInt32.toNat
  if nvmachines ≤ j then .error .outOfBounds
  else
    let t := s.transfers j
    match t.vcpu with
    | none => .error .nullPointer
    | some v =>
      let cpu := (tlbCreateEntry s.hv.cpu t.bufAddr (s.hv.vcpus v).vm.baseAddr t.size MAPPED_INDEX
        CACHEABLE).2
      let (next, written) := writeLoop (s.strMapped v t.bufAddr) full t.size
        (t.size.toNat - t.nextCharacter.toNat) t.nextCharacter
      let s := { s with
        hv := { s.hv with cpu := cpu }
        transfers := Function.update s.transfers j { t with nextCharacter := next }
        txreg := s.txreg ++ written }
      .ok (if next ≥ t.size then finishTransfer nvmachines j v s else s)

/-- `send`. -/
def send (nvmachines : Nat) (full : Nat → Bool) (s : Uart) : Except Fault Uart :=
  match s.hv.executing with
  | none => .error .nullPointer
  | some v => do
    let str := moveFromPreviousGuestGPR .pic32mz s.hv.cpu REG_A0
    let size := moveFromPreviousGuestGPR .pic32mz s.hv.cpu REG_A1
    let cpu := (tlbCreateEntry s.hv.cpu str (s.hv.vcpus v).vm.baseAddr size MAPPED_INDEX
      CACHEABLE).2
    let (i, written) :=
      if s.activeTransfer < 0 then writeLoop (s.strMapped v str) full size size.toNat 0 else (0, [])
    let s := { s with hv := { s.hv with cpu := cpu }, txreg := s.txreg ++ written }
    let s ← if i < size then schedulerTransferInterrupt nvmachines str i size s else .ok s
    return { s with hv := setGuestGPR .pic32mz s.hv REG_V0 size }

/-! ### What the routines do -/

/-- The loop stops between the character it starts with and the size, and the bytes it writes are
those in between. -/
theorem writeLoop_spec (strMapped : Nat → UInt8) (full : Nat → Bool) (size : UInt32) (n : Nat) :
    ∀ {i : UInt32}, i.toNat + n = size.toNat → ∃ j written,
      writeLoop strMapped full size n i = (j, written) ∧ j ≤ size ∧
        (List.range i.toNat).map strMapped ++ written = (List.range j.toNat).map strMapped := by
  induction n with
  | zero =>
    intro i hi
    refine ⟨i, [], rfl, ?_, List.append_nil _⟩
    rw [UInt32.le_iff_toNat_le]
    omega
  | succ n ih =>
    intro i hi
    rw [writeLoop]
    split_ifs with hgo
    · have hlt := size.toNat_lt
      have hnext : (i + 1).toNat = i.toNat + 1 := by
        rw [UInt32.toNat_add, UInt32.toNat_one, Nat.mod_eq_of_lt (by omega)]
      obtain ⟨j, written, hloop, hj, hbytes⟩ := ih (i := i + 1) (by omega)
      refine ⟨j, strMapped i.toNat :: written, by rw [hloop], hj, ?_⟩
      rw [← hbytes, hnext, List.range_succ, List.map_append, List.append_assoc]
      rfl
    · refine ⟨i, [], rfl, ?_, List.append_nil _⟩
      rw [UInt32.le_iff_toNat_le]
      omega

theorem toInt_ofNat {j n : Nat} (halloc : AllocationsSucceed n) (hj : j < n) :
    (Int32.ofNat j).toInt = j := by
  simp only [AllocationsSucceed, sizeofVcpu] at halloc
  exact Int32.toInt_ofNat_of_lt (by omega)

theorem not_ofNat_neg {j n : Nat} (halloc : AllocationsSucceed n) (hj : j < n) :
    ¬Int32.ofNat j < 0 := by
  rw [Int32.lt_iff_toInt_lt, toInt_ofNat halloc hj]
  exact not_lt.mpr (Int.natCast_nonneg j)

theorem toNat_ofNat {j n : Nat} (halloc : AllocationsSucceed n) (hj : j < n) :
    (Int32.ofNat j).toUInt32.toNat = j := by
  have hlt := halloc.lt
  rw [← UInt32.toInt32_ofNat', UInt32.toUInt32_toInt32]
  exact UInt32.toNat_ofNat_of_lt' (by simp only [UInt32.size]; omega)

theorem vcpuId_sub_one {j n : Nat} (halloc : AllocationsSucceed n) (hj : j < n) :
    UInt32.ofNat (j + 1) - 1 = UInt32.ofNat j := by
  have hlt := halloc.lt
  rw [← UInt32.toNat_inj, UInt32.toNat_sub_of_le, toNat_vcpuId halloc hj, UInt32.toNat_one,
    UInt32.toNat_ofNat_of_lt' (by simp only [UInt32.size]; omega), Nat.add_sub_cancel]
  rw [UInt32.le_iff_toNat_le, toNat_vcpuId halloc hj, UInt32.toNat_one]
  exact Nat.le_add_left 1 j

/-- The results of a send by `v` of `size` bytes at `str`. -/
inductive Sent (s : Uart) (v : VcpuPtr) (str size : UInt32) : Uart → Prop
  /-- All characters are written at once. -/
  | whole (cpu : Cpu) (direct : s.activeTransfer < 0 ∨ size = 0) :
      Sent s v str size { s with
        hv := { s.hv with cpu := cpu }
        txreg := s.txreg ++ (List.range size.toNat).map (s.strMapped v str) }
  /-- The hardware queue is full at character `i`, and the VCPU waits for the rest. -/
  | first (cpu : Cpu) (i : UInt32) (idle : s.activeTransfer < 0) (rest : i < size) :
      Sent s v str size { s with
        hv := { setState s.hv v .blocked with cpu := cpu }
        transfers := Function.update s.transfers v
          { bufAddr := str, nextCharacter := i, size := size, vcpu := some v }
        activeTransfer := Int32.ofNat v
        txEnabled := true
        txreg := s.txreg ++ (List.range i.toNat).map (s.strMapped v str) }
  /-- Another transfer is active, and the VCPU waits for its turn. -/
  | queued (cpu : Cpu) (busy : ¬s.activeTransfer < 0) :
      Sent s v str size { s with
        hv := { setState s.hv v .blocked with cpu := cpu }
        transfers := Function.update s.transfers v
          { bufAddr := str, nextCharacter := 0, size := size, vcpu := some v } }

theorem schedulerTransferInterrupt_eq {s : Uart} {n : Nat} {v : VcpuPtr}
    (halloc : AllocationsSucceed n) (hv : v < n) (hexec : s.hv.executing = some v)
    (hid : (s.hv.vcpus v).id = UInt32.ofNat (v + 1)) (addr nextCharacter size : UInt32) :
    schedulerTransferInterrupt n addr nextCharacter size s = .ok { s with
      hv := setState s.hv v .blocked
      transfers := Function.update s.transfers v
        { bufAddr := addr, nextCharacter := nextCharacter, size := size, vcpu := some v }
      activeTransfer := if s.activeTransfer < 0 then Int32.ofNat v else s.activeTransfer
      txEnabled := if s.activeTransfer < 0 then true else s.txEnabled } := by
  have hlt := halloc.lt
  have hj : (UInt32.ofNat v).toNat = v :=
    UInt32.toNat_ofNat_of_lt' (Nat.lt_trans hv (by simp only [UInt32.size]; omega))
  have hin : ¬n ≤ v := not_le.mpr hv
  unfold schedulerTransferInterrupt
  split
  · rename_i hnone
    rw [hexec] at hnone
    cases hnone
  rename_i w hw
  obtain rfl := Option.some.inj (hexec.symm.trans hw)
  simp only [hid, vcpuId_sub_one halloc hv, hj, if_neg hin]
  split_ifs <;> rfl

theorem send_sent {s : Uart} {n : Nat} {v : VcpuPtr} (halloc : AllocationsSucceed n) (hv : v < n)
    (hexec : s.hv.executing = some v) (hid : (s.hv.vcpus v).id = UInt32.ofNat (v + 1))
    (full : Nat → Bool) (str size : UInt32)
    (hstr : moveFromPreviousGuestGPR .pic32mz s.hv.cpu REG_A0 = str)
    (hsize : moveFromPreviousGuestGPR .pic32mz s.hv.cpu REG_A1 = size) :
    ∃ t, send n full s = .ok t ∧ Sent s v str size t := by
  unfold send
  split
  · rename_i hnone
    rw [hexec] at hnone
    cases hnone
  rename_i w hw
  obtain rfl := Option.some.inj (hexec.symm.trans hw)
  rw [hstr, hsize]
  dsimp only
  generalize (tlbCreateEntry s.hv.cpu str (s.hv.vcpus v).vm.baseAddr size MAPPED_INDEX
    CACHEABLE).2 = cpu
  -- the call of `scheduler_transfer_interrupt` after `i` characters
  have wait := fun (i : UInt32) (written : List UInt8) => schedulerTransferInterrupt_eq
    (s := { s with hv := { s.hv with cpu := cpu }, txreg := s.txreg ++ written }) halloc hv hexec
    hid str i size
  dsimp only at wait
  by_cases hidle : s.activeTransfer < 0
  · obtain ⟨j, written, hloop, hj, hbytes⟩ :=
      writeLoop_spec (s.strMapped v str) full size size.toNat (i := 0) (by simp)
    rw [UInt32.toNat_zero, List.range_zero, List.map_nil, List.nil_append] at hbytes
    rw [if_pos hidle, hloop, hbytes]
    by_cases hrest : j < size
    · refine ⟨_, ?_, .first (moveToPreviousGuestGPR .pic32mz cpu REG_V0 size) j hidle hrest⟩
      simp only [if_pos hrest, wait, if_pos hidle]
      rfl
    · obtain rfl : j = size := UInt32.le_antisymm hj (UInt32.not_lt.mp hrest)
      refine ⟨_, ?_, .whole (moveToPreviousGuestGPR .pic32mz cpu REG_V0 j) (Or.inl hidle)⟩
      simp only [if_neg hrest]
      rfl
  · rw [if_neg hidle]
    by_cases hrest : 0 < size
    · refine ⟨_, ?_, .queued (moveToPreviousGuestGPR .pic32mz cpu REG_V0 size) hidle⟩
      simp only [if_pos hrest, wait, if_neg hidle]
      rw [List.append_nil]
      rfl
    · have hzero : size = 0 := by
        rw [UInt32.lt_iff_toNat_lt, UInt32.toNat_zero, Nat.not_lt, Nat.le_zero] at hrest
        exact UInt32.toNat_inj.mp hrest
      subst hzero
      refine ⟨_, ?_, .whole (moveToPreviousGuestGPR .pic32mz cpu REG_V0 0) (Or.inr rfl)⟩
      simp only [if_neg hrest]
      rfl

/-- The results of a TX interrupt with the active transfer `a`. -/
inductive Transferred (s : Uart) (n a : Nat) : Uart → Prop
  /-- The hardware queue is full again at character `i`. -/
  | partly (cpu : Cpu) (i : UInt32) (written : List UInt8) (rest : i < (s.transfers a).size)
      (bytes : (List.range (s.transfers a).nextCharacter.toNat).map
          (s.strMapped a (s.transfers a).bufAddr) ++ written =
        (List.range i.toNat).map (s.strMapped a (s.transfers a).bufAddr)) :
      Transferred s n a { s with
        hv := { s.hv with cpu := cpu }
        transfers := Function.update s.transfers a { s.transfers a with nextCharacter := i }
        txreg := s.txreg ++ written }
  /-- The last character is written, and the VCPU goes on. -/
  | done (cpu : Cpu) (written : List UInt8)
      (bytes : (List.range (s.transfers a).nextCharacter.toNat).map
          (s.strMapped a (s.transfers a).bufAddr) ++ written =
        (List.range (s.transfers a).size.toNat).map (s.strMapped a (s.transfers a).bufAddr)) :
      Transferred s n a (finishTransfer n a a { s with
        hv := { s.hv with cpu := cpu }
        transfers := Function.update s.transfers a
          { s.transfers a with nextCharacter := (s.transfers a).size }
        txreg := s.txreg ++ written })

theorem transferTxDone_transferred {s : Uart} {n a : Nat} (halloc : AllocationsSucceed n)
    (ha : a < n) (hactive : s.activeTransfer = Int32.ofNat a)
    (hvcpu : (s.transfers a).vcpu = some a)
    (hnext : (s.transfers a).nextCharacter ≤ (s.transfers a).size) (full : Nat → Bool) :
    ∃ t, transferTxDone n full s = .ok t ∧ Transferred s n a t := by
  have hin : ¬n ≤ a := not_le.mpr ha
  have hle := UInt32.le_iff_toNat_le.mp hnext
  have hj : s.activeTransfer.toUInt32.toNat = a := by rw [hactive, toNat_ofNat halloc ha]
  obtain ⟨j, written, hloop, hj', hbytes⟩ := writeLoop_spec
    (s.strMapped a (s.transfers a).bufAddr) full (s.transfers a).size
    ((s.transfers a).size.toNat - (s.transfers a).nextCharacter.toNat)
    (i := (s.transfers a).nextCharacter) (Nat.add_sub_cancel' hle)
  unfold transferTxDone
  rw [hj, if_neg hin]
  dsimp only
  split
  · rename_i hnone
    rw [hvcpu] at hnone
    cases hnone
  rename_i w hw
  obtain rfl := Option.some.inj (hvcpu.symm.trans hw)
  rw [hloop]
  refine ⟨_, rfl, ?_⟩
  by_cases hdone : j ≥ (s.transfers a).size
  · obtain rfl : j = (s.transfers a).size := UInt32.le_antisymm hj' hdone
    rw [if_pos hdone]
    exact .done _ written hbytes
  · rw [if_neg hdone]
    exact .partly _ j written (UInt32.not_le.mp hdone) hbytes

/-- The end of a transfer starts the next one, or leaves the driver idle when none waits. -/
theorem finishTransfer_cases (n a : Nat) (v : VcpuPtr) (s : Uart) :
    ((∀ j < n, j ≠ a → (s.transfers j).vcpu = none) ∧ finishTransfer n a v s = { s with
        hv := setState s.hv v .running
        transfers := Function.update s.transfers a { s.transfers a with vcpu := none }
        txEnabled := false
        activeTransfer := -1 }) ∨
      ∃ j < n, j ≠ a ∧ (s.transfers j).vcpu ≠ none ∧ finishTransfer n a v s = { s with
        hv := setState s.hv v .running
        transfers := Function.update s.transfers a { s.transfers a with vcpu := none }
        activeTransfer := Int32.ofNat j } := by
  cases hsearch : nextTransfer n
      (Function.update s.transfers a { s.transfers a with vcpu := none }) with
  | none =>
    refine Or.inl ⟨fun j hj hja => ?_, by simp only [finishTransfer, hsearch]⟩
    have hnone := List.find?_eq_none.mp hsearch j (List.mem_range.mpr hj)
    simpa [hja] using hnone
  | some j =>
    have hmem := List.mem_of_find?_eq_some hsearch
    have hsome := List.find?_some hsearch
    have hja : j ≠ a := by
      rintro rfl
      simp at hsome
    refine Or.inr ⟨j, List.mem_range.mp hmem, hja, ?_, ?_⟩
    · simpa [hja, Option.isSome_iff_ne_none] using hsome
    · simp only [finishTransfer, hsearch, UInt32.toInt32_ofNat']

end PrplHypervisor.Drivers
