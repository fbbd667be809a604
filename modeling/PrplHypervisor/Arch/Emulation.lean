import PrplHypervisor.Arch.Cpu

/-! Emulation of the CP0 instructions that trap in the guest on Baikal-T1
(`arch/mips/baikal-t1/instruction_emulation.c`), against what the trapped instruction means. -/

namespace PrplHypervisor.Arch

def OPCODE (i : UInt32) : UInt32 := i >>> 26
def RS (i : UInt32) : UInt32 := (i >>> 21) &&& 0x1f
def RT (i : UInt32) : UInt32 := (i >>> 16) &&& 0x1f
def RD (i : UInt32) : UInt32 := (i >>> 11) &&& 0x1f
def SEL (i : UInt32) : UInt32 := i &&& 0x7
def CO (i : UInt32) : UInt32 := (i >>> 25) &&& 0x1

def CP0 : UInt32 := 0x10
def MFC : UInt32 := 0x00
def MTC : UInt32 := 0x04
def CP0_WATCHLO : Nat := 18
def CP0_WATCHHI : Nat := 19
def SRSCLT_HSS : UInt32 := (0xF : UInt32) <<< 26

/-- `co_instructions`: no instruction of this format is emulated, `wait` included. -/
def coInstructions (_badinstr : UInt32) (cpu : Cpu) : UInt32 × Cpu := (1, cpu)

/-- `mfc0_instructions`.  `prid` is the root's PRId register. -/
def mfc0Instructions (prid badinstr : UInt32) (cpu : Cpu) : UInt32 × Cpu :=
  let rd := (RD badinstr).toNat
  let rt := (RT badinstr).toNat
  match rd with
  | 12 =>
    if SEL badinstr = 2 then
      (0, moveToPreviousGuestGPR .baikalT1 cpu rt (cpu.srsctl &&& ~~~SRSCLT_HSS))
    else (1, cpu)
  | 15 =>
    if SEL badinstr = 0 then (0, moveToPreviousGuestGPR .baikalT1 cpu rt prid) else (1, cpu)
  | 18 =>
    if SEL badinstr = 0 then
      (0, moveToPreviousGuestGPR .baikalT1 cpu rt (mfgc0 cpu CP0_WATCHLO 0))
    else if SEL badinstr = 1 then (0, moveToPreviousGuestGPR .baikalT1 cpu rt 0)
    else (1, cpu)
  | 19 =>
    if SEL badinstr = 0 then
      (0, moveToPreviousGuestGPR .baikalT1 cpu rt (mfgc0 cpu CP0_WATCHHI 0))
    else if SEL badinstr = 1 then (0, moveToPreviousGuestGPR .baikalT1 cpu rt 0)
    else (1, cpu)
  | _ => (1, cpu)

/-- `mtc0_instructions`.  The guest's register is read by the number `rd` of the CP0 register; `rt`
is extracted and not used. -/
def mtc0Instructions (badinstr : UInt32) (cpu : Cpu) : UInt32 × Cpu :=
  let rd := (RD badinstr).toNat
  match rd with
  | 18 =>
    if SEL badinstr = 0 then
      (0, mtgc0 cpu CP0_WATCHLO 0 (moveFromPreviousGuestGPR .baikalT1 cpu rd))
    else if SEL badinstr = 1 then (0, cpu)
    else (1, cpu)
  | 19 =>
    if SEL badinstr = 0 then
      (0, mtgc0 cpu CP0_WATCHHI 0 (moveFromPreviousGuestGPR .baikalT1 cpu rd))
    else if SEL badinstr = 1 then (0, cpu)
    else (1, cpu)
  | _ => (1, cpu)

/-- `__instruction_emulation`, for the instruction that `getBadInstruction` reports. -/
def instructionEmulation (prid badinstr : UInt32) (cpu : Cpu) : UInt32 × Cpu :=
  if OPCODE badinstr = CP0 then
    if CO badinstr = 1 then coInstructions badinstr cpu
    else if RS badinstr = MTC then mtc0Instructions badinstr cpu
    else if RS badinstr = MFC then mfc0Instructions prid badinstr cpu
    else (1, cpu)
  else (1, cpu)

/-! ### What the instructions mean -/

/-- A move between a general register `rt` and the CP0 register `rd`, select `sel`. -/
inductive Cp0Move
  | mfc0 (rt rd sel : Nat)
  | mtc0 (rt rd sel : Nat)
  deriving DecidableEq, Repr

/-- The move that a word encodes. -/
def decode (i : UInt32) : Option Cp0Move :=
  if OPCODE i = CP0 ∧ CO i ≠ 1 then
    if RS i = MTC then some (.mtc0 (RT i).toNat (RD i).toNat (SEL i).toNat)
    else if RS i = MFC then some (.mfc0 (RT i).toNat (RD i).toNat (SEL i).toNat)
    else none
  else none

/-- What the guest reads from the CP0 registers that the hypervisor shows it. -/
def shownRegister (prid : UInt32) (cpu : Cpu) : Nat → Nat → Option UInt32
  | 12, 2 => some (cpu.srsctl &&& ~~~SRSCLT_HSS)
  | 15, 0 => some prid
  | 18, 0 => some (cpu.guestCp0 18 0)
  | 19, 0 => some (cpu.guestCp0 19 0)
  | 18, 1 | 19, 1 => some 0
  | _, _ => none

/-- What the guest has in its general register `r`, with HI and LO at 32 and 33.  `$0` is 0;
`vector_hwint` neither saves nor restores it, so that the first word of the frame is no register. -/
def Cpu.gpr (cpu : Cpu) (r : Nat) : UInt32 := if r = 0 then 0 else cpu.gprFrame r

/-- A general register as an instruction of the guest writes it; a write to `$0` is lost. -/
def Cpu.setGpr (cpu : Cpu) (r : Nat) (value : UInt32) : Cpu :=
  if r = 0 then cpu
  else { cpu with gprFrame := fun j => if j = r then value else cpu.gprFrame j }

/-- The processor with the registers of the guest, without the word in the place of `$0`. -/
def Cpu.visible (cpu : Cpu) : Cpu := { cpu with gprFrame := cpu.gpr }

/-- A write to WatchLo or WatchHi, if it is one that the hypervisor emulates. -/
def writeWatch (cpu : Cpu) (rd sel : Nat) (value : UInt32) : Option Cpu :=
  if rd = CP0_WATCHLO ∨ rd = CP0_WATCHHI then
    if sel = 0 then
      some { cpu with
        guestCp0 := fun r s => if r = rd ∧ s = 0 then value else cpu.guestCp0 r s }
    else if sel = 1 then some cpu
    else none
  else none

/-- The processor after a move, if the move is one that the hypervisor emulates. -/
def Cp0Move.effect (prid : UInt32) (cpu : Cpu) : Cp0Move → Option Cpu
  | .mfc0 rt rd sel => (shownRegister prid cpu rd sel).map (cpu.setGpr rt)
  | .mtc0 rt rd sel => writeWatch cpu rd sel (cpu.gpr rt)

/-- The emulation returned 1 and nothing has changed, or it returned 0 and the registers are as the
trapped instruction leaves them. -/
def Emulated (prid badinstr : UInt32) (cpu : Cpu) (result : UInt32 × Cpu) : Prop :=
  result = (1, cpu) ∨
    ∃ m, decode badinstr = some m ∧ result.1 = 0 ∧
      (m.effect prid cpu).map Cpu.visible = some result.2.visible

/-- A write to WatchLo0 or WatchHi0 of a word that differs from the one the emulation stores: that
of the general register with the number of the CP0 register. -/
def StoresOther (badinstr : UInt32) (cpu : Cpu) : Prop :=
  ∃ rt rd, decode badinstr = some (.mtc0 rt rd 0) ∧ (rd = CP0_WATCHLO ∨ rd = CP0_WATCHHI) ∧
    cpu.gpr rt ≠ cpu.gpr rd

theorem moveTo_baikalT1 (cpu : Cpu) (r : Nat) (value : UInt32) :
    moveToPreviousGuestGPR .baikalT1 cpu r value =
      { cpu with gprFrame := fun j => if j = r then value else cpu.gprFrame j } := by
  have h : Function.update cpu.gprFrame r value =
      fun j => if j = r then value else cpu.gprFrame j := by
    funext j
    simp [Function.update_apply]
  simp only [moveToPreviousGuestGPR, h]

theorem mtgc0_select (cpu : Cpu) (reg sel : Nat) (value : UInt32) :
    mtgc0 cpu reg sel value =
      { cpu with guestCp0 := fun r s =>
        if r = reg ∧ s = sel then value else cpu.guestCp0 r s } := by
  have h : Function.update cpu.guestCp0 reg (Function.update (cpu.guestCp0 reg) sel value) =
      fun r s => if r = reg ∧ s = sel then value else cpu.guestCp0 r s := by
    funext r s
    by_cases hr : r = reg
    · subst hr
      simp [Function.update_apply]
    · simp [hr]
  simp only [mtgc0, h]

/-- What an emulation function returns when the processor is to become `after`, `none` when it
does not support the instruction. -/
def reply (cpu : Cpu) : Option Cpu → UInt32 × Cpu
  | some after => (0, after)
  | none => (1, cpu)

theorem sel_eq_iff (i n : UInt32) : SEL i = n ↔ (SEL i).toNat = n.toNat :=
  UInt32.toNat_inj.symm

/-- Reading, as a write to the frame. -/
theorem mfc0Instructions_eq (prid i : UInt32) (cpu : Cpu) :
    mfc0Instructions prid i cpu =
      reply cpu ((shownRegister prid cpu (RD i).toNat (SEL i).toNat).map
        (moveToPreviousGuestGPR .baikalT1 cpu (RT i).toNat)) := by
  simp only [mfc0Instructions, sel_eq_iff]
  generalize (SEL i).toNat = sel
  generalize (RD i).toNat = rd
  split
  case h_1 => by_cases h2 : sel = 2 <;> simp [h2, shownRegister, reply]
  case h_2 => by_cases h0 : sel = 0 <;> simp [h0, shownRegister, reply]
  case h_3 =>
    by_cases h0 : sel = 0
    · simp [h0, shownRegister, reply, mfgc0, CP0_WATCHLO]
    · by_cases h1 : sel = 1 <;> simp [h0, h1, shownRegister, reply]
  case h_4 =>
    by_cases h0 : sel = 0
    · simp [h0, shownRegister, reply, mfgc0, CP0_WATCHHI]
    · by_cases h1 : sel = 1 <;> simp [h0, h1, shownRegister, reply]
  case h_5 h12 h15 h18 h19 =>
    have hnone : shownRegister prid cpu rd sel = none := by
      unfold shownRegister
      split <;> first | rfl | contradiction
    rw [hnone]
    rfl

/-- Writing, with the word in the place of the general register `rd`. -/
theorem mtc0Instructions_eq (i : UInt32) (cpu : Cpu) :
    mtc0Instructions i cpu =
      reply cpu (writeWatch cpu (RD i).toNat (SEL i).toNat (cpu.gprFrame (RD i).toNat)) := by
  simp only [mtc0Instructions, writeWatch, mtgc0_select, sel_eq_iff]
  generalize (SEL i).toNat = sel
  generalize (RD i).toNat = rd
  split
  case h_1 =>
    by_cases h0 : sel = 0
    · subst h0
      rfl
    · by_cases h1 : sel = 1 <;> simp [h0, h1, reply, CP0_WATCHLO]
  case h_2 =>
    by_cases h0 : sel = 0
    · subst h0
      rfl
    · by_cases h1 : sel = 1 <;> simp [h0, h1, reply, CP0_WATCHHI]
  case h_3 h18 h19 =>
    rw [if_neg (by rintro (h | h); exacts [h18 h, h19 h])]
    rfl

/-- The emulation as one case distinction over the decoded instruction. -/
theorem instructionEmulation_eq (prid i : UInt32) (cpu : Cpu) :
    instructionEmulation prid i cpu =
      match decode i with
      | some (.mfc0 rt rd sel) => reply cpu ((shownRegister prid cpu rd sel).map
          (moveToPreviousGuestGPR .baikalT1 cpu rt))
      | some (.mtc0 _ rd sel) => reply cpu (writeWatch cpu rd sel (cpu.gprFrame rd))
      | none => (1, cpu) := by
  unfold instructionEmulation decode
  by_cases hop : OPCODE i = CP0
  · by_cases hco : CO i = 1
    · simp [hop, hco, coInstructions]
    · by_cases ht : RS i = MTC
      · simp [hop, hco, ht, mtc0Instructions_eq]
      · by_cases hf : RS i = MFC
        · simp [hop, hco, hf, mfc0Instructions_eq, show MFC ≠ MTC by decide]
        · simp [hop, hco, ht, hf]
  · simp [hop]

/-- A value for `$0` goes to the first word of the frame, which is no register. -/
theorem visible_moveTo (cpu : Cpu) (rt : Nat) (value : UInt32) :
    (moveToPreviousGuestGPR .baikalT1 cpu rt value).visible = (cpu.setGpr rt value).visible := by
  rw [moveTo_baikalT1]
  by_cases h0 : rt = 0
  · subst h0
    simp only [Cpu.setGpr, if_true, Cpu.visible, Cpu.mk.injEq, true_and, and_true]
    funext j
    by_cases hj : j = 0 <;> simp [Cpu.gpr, hj]
  · rw [Cpu.setGpr, if_neg h0]

/-- Writing one word and writing another leave the same registers exactly when nothing is stored or
the words are equal. -/
theorem writeWatch_visible_iff (cpu : Cpu) (rd sel : Nat) (value value' : UInt32) :
    (writeWatch cpu rd sel value).map Cpu.visible =
        (writeWatch cpu rd sel value').map Cpu.visible ↔
      ((rd = CP0_WATCHLO ∨ rd = CP0_WATCHHI) → sel = 0 → value = value') := by
  unfold writeWatch
  by_cases hrd : rd = CP0_WATCHLO ∨ rd = CP0_WATCHHI
  · by_cases h0 : sel = 0
    · simp only [hrd, h0, if_true, Option.map_some, Option.some.injEq, forall_const]
      constructor
      · intro h
        simpa [Cpu.visible] using congrFun (congrFun (congrArg Cpu.guestCp0 h) rd) 0
      · intro h
        rw [h]
    · simp [h0]
  · simp [hrd]

/-- Whether a write is supported does not depend on the word. -/
theorem writeWatch_eq_none {cpu : Cpu} {rd sel : Nat} {value : UInt32} (value' : UInt32)
    (h : writeWatch cpu rd sel value = none) : writeWatch cpu rd sel value' = none := by
  unfold writeWatch at h ⊢
  split at h
  case isTrue hrd =>
    rw [if_pos hrd]
    split at h
    · cases h
    case isFalse h0 =>
      rw [if_neg h0]
      exact h
  case isFalse hrd => rw [if_neg hrd]

/-- A reply is right when it has the registers of the decoded move, and one that refuses the
instruction is always right. -/
theorem emulated_reply_iff {prid i : UInt32} {cpu : Cpu} {m : Cp0Move} (hm : decode i = some m)
    (after : Option Cpu) (hnone : after = none → m.effect prid cpu = none) :
    Emulated prid i cpu (reply cpu after) ↔
      (m.effect prid cpu).map Cpu.visible = after.map Cpu.visible := by
  cases after with
  | none =>
    refine ⟨fun _ => ?_, fun _ => .inl rfl⟩
    rw [hnone rfl]
  | some c =>
    constructor
    · rintro (h | ⟨m', hm', -, h⟩)
      · cases h
      · rw [hm, Option.some.injEq] at hm'
        rw [hm']
        exact h
    · intro h
      exact .inr ⟨m, hm, rfl, h⟩

/-- The emulation leaves everything as it was or does what the instruction means, unless the guest
writes WatchLo0 or WatchHi0 from a register that differs from the one with the number of the CP0
register. -/
theorem emulated_iff (prid badinstr : UInt32) (cpu : Cpu) :
    Emulated prid badinstr cpu (instructionEmulation prid badinstr cpu) ↔
      ¬StoresOther badinstr cpu := by
  rw [instructionEmulation_eq]
  cases hd : decode badinstr with
  | none =>
    refine ⟨fun _ h => ?_, fun _ => .inl rfl⟩
    obtain ⟨rt, rd, h, -⟩ := h
    rw [hd] at h
    cases h
  | some m =>
    cases m with
    | mfc0 rt rd sel =>
      refine iff_of_true ?_ ?_
      · refine (emulated_reply_iff hd _ fun hnone => ?_).mpr ?_
        · exact Option.map_eq_none_iff.mpr (Option.map_eq_none_iff.mp hnone)
        · simp only [Cp0Move.effect, Option.map_map]
          refine congrArg (fun f => (shownRegister prid cpu rd sel).map f) (funext fun value => ?_)
          exact (visible_moveTo cpu rt value).symm
      · rintro ⟨rt', rd', h, -⟩
        rw [hd] at h
        cases h
    | mtc0 rt rd sel =>
      have hreply : Emulated prid badinstr cpu
          (reply cpu (writeWatch cpu rd sel (cpu.gprFrame rd))) ↔ _ :=
        emulated_reply_iff hd _ (writeWatch_eq_none (cpu.gpr rt))
      rw [Cp0Move.effect, writeWatch_visible_iff] at hreply
      -- neither of the two CP0 registers has the number 0
      have hword : rd = CP0_WATCHLO ∨ rd = CP0_WATCHHI → cpu.gprFrame rd = cpu.gpr rd := by
        rintro (rfl | rfl) <;> rfl
      refine hreply.trans ⟨?_, ?_⟩
      · rintro h ⟨rt', rd', hdec, hwatch, hne⟩
        rw [hd] at hdec
        cases hdec
        exact hne ((h hwatch rfl).trans (hword hwatch))
      · intro h hwatch h0
        subst h0
        by_contra hne
        exact h ⟨rt, rd, hd, hwatch, hword hwatch ▸ hne⟩

/-- `mtc0 $0, WatchLo0` is to store 0, whatever is in the first word of the frame. -/
example : StoresOther 0x40809000
    { Cpu.cleared with gprFrame := fun r => if r = 0 ∨ r = 18 then 0x1a800 else 0 } :=
  ⟨0, 18, by decide, by decide, by decide⟩

/-- `mtc0 $2, WatchLo0` with 5 in `$2` stores the 0 of `$18`. -/
theorem mtc0_watchLo_stores_other :
    ¬∀ (prid badinstr : UInt32) (cpu : Cpu),
      Emulated prid badinstr cpu (instructionEmulation prid badinstr cpu) := by
  intro hall
  have h := hall 0 0x40829000 { Cpu.cleared with gprFrame := fun r => if r = 2 then 5 else 0 }
  have hdec : decode 0x40829000 = some (.mtc0 2 18 0) := by decide
  rcases h with h | ⟨m, hm, -, heff⟩
  · have hcode : (instructionEmulation 0 0x40829000
        { Cpu.cleared with gprFrame := fun r => if r = 2 then 5 else 0 }).1 = 0 := by decide
    rw [h] at hcode
    cases hcode
  · rw [hdec, Option.some.injEq] at hm
    subst hm
    have hvalue := congrArg (fun c => c.map fun c => c.guestCp0 18 0) heff
    revert hvalue
    decide

end PrplHypervisor.Arch
