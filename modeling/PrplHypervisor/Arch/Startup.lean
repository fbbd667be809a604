import Mathlib.Data.List.Infix
import Mathlib.Tactic.IntervalCases
import PrplHypervisor.Lib.Copy
import PrplHypervisor.Lib.Mips

/-! The code at `_entry`: `boot.S` of the hypervisor and `crt0.s` of the guests, on both platforms.
It clears `.bss` and, on PIC32MZ, copies `.data` from the flash memory.  Each loop tests its pointer
after the store, so that it also stores at the end of its section. -/

namespace PrplHypervisor.Arch

open Lib.Mips Lib.Copy

/-- The symbols of a linker script, in RAM below the flash memory, with what the script says of
them; `erodata` is where the image of `.data` begins.  It is the end of `.rodata`, at any address:
the script aligns only the sections in RAM. -/
structure Sections where
  data : UInt32
  edata : UInt32
  bssStart : UInt32
  bssEnd : UInt32
  erodata : UInt32
  aligned : Aligned data ∧ Aligned edata ∧ Aligned bssStart
  order : data ≤ edata ∧ edata ≤ bssStart ∧ bssStart ≤ bssEnd
  ram : 0x80000000 ≤ data ∧ bssEnd < 0x90000000
  flash : 0x9d000000 ≤ erodata ∧ erodata < 0xa0000000

/-- `$BSS_CLEAR` -/
def bssClear : List Op := [.sw .zero 0 .a1, .slt .v1 .a1 .a0, .addiu .a1 .a1 4]

/-- `$COPY_DATA` -/
def copyData : List Op :=
  [.lw .v0 0 .a2, .sw .v0 0 .a1, .slt .v1 .a1 .a0, .addiu .a1 .a1 4, .addiu .a2 .a2 4]

/-- The code up to the end of the first loop, the same on both platforms. -/
def clearing (s : Sections) (gp stack : UInt32) : List Instr :=
  [.op (.la .gp gp), .op (.la .sp stack), .op (.la .a0 s.bssEnd), .op (.la .a1 s.bssStart)] ++
    bssClear.map .op ++ [.bnez .v1 4, .op .nop]

/-- The second loop, on PIC32MZ. -/
def copying (s : Sections) : List Instr :=
  [.op (.la .a0 s.edata), .op (.la .a1 s.data), .op (.la .a2 s.erodata)] ++
    copyData.map .op ++ [.bnez .v1 12, .op .nop]

/-- `_entry` on PIC32MZ; `calls` are the functions that it calls: `hyper_init` in the hypervisor,
and `init_mem`, `init_proc`, `init_network` and `main` in a guest. -/
def entry (s : Sections) (gp stack : UInt32) (calls : List UInt32) : List Instr :=
  clearing s gp stack ++ copying s ++ calls.flatMap (fun f => [.jal f, .op .nop]) ++
    [.b (19 + 2 * calls.length), .op .nop]

/-- `_entry` on Baikal-T1. -/
def entryBaikal (s : Sections) (gp stack : UInt32) (calls : List UInt32) : List Instr :=
  clearing s gp stack ++ calls.flatMap (fun f => [.jal f, .op .nop]) ++
    [.b (9 + 2 * calls.length), .op .nop]

/-- Word `i` from an address on. -/
def wordAt (a : UInt32) (i : Nat) : UInt32 := a + UInt32.ofNat (4 * i)

/-- The words of a section; the last one may end after it. -/
def wordCount (start stop : UInt32) : Nat := (stop.toNat - start.toNat + 3) / 4

/-- What C code relies on: `.data` has its image, and `.bss` is zero. -/
structure Initialized (s : Sections) (before after : UInt32 → UInt32) : Prop where
  data : ∀ i < wordCount s.data s.edata, after (wordAt s.data i) = before (wordAt s.erodata i)
  bss : ∀ i < wordCount s.bssStart s.bssEnd, after (wordAt s.bssStart i) = 0

variable {s : Sections} {m : Machine} {code : List Instr} {n : Nat} {gp stack : UInt32}
  (link : Nat → UInt32) (function : UInt32 → Machine → Option Machine)

/-! ### One pass -/

/-- `slt` orders addresses of the upper half as they are. -/
theorem toInt32_lt_iff {x y : UInt32} (hx : 2 ^ 31 ≤ x.toNat) (hy : 2 ^ 31 ≤ y.toNat) :
    x.toInt32 < y.toInt32 ↔ x.toNat < y.toNat := by
  have hxlt := x.toNat_lt
  have hylt := y.toNat_lt
  have hint : ∀ z : UInt32, z.toInt32.toInt = z.toBitVec.toInt := fun z => rfl
  rw [Int32.lt_iff_toInt_lt, hint, hint, BitVec.toInt_eq_toNat_cond, BitVec.toInt_eq_toNat_cond,
    UInt32.toNat_toBitVec, UInt32.toNat_toBitVec, if_neg (by omega), if_neg (by omega)]
  omega

theorem execAll_bssClear (halign : Aligned (m.get .a1)) :
    ∃ c, execAll bssClear m = some c ∧ c.get .a1 = m.get .a1 + 4 ∧
      (∀ r, r ≠ .a1 → r ≠ .v1 → c.get r = m.get r) ∧
      (c.get .v1 ≠ 0 ↔ (m.get .a1).toInt32 < (m.get .a0).toInt32) ∧
      c.mem = Function.update m.mem (m.get .a1) 0 := by
  have hsw : (Op.sw .zero 0 .a1).exec m =
      some { m with mem := Function.update m.mem (m.get .a1) 0 } := by
    rw [Op.exec, UInt32.add_zero, if_pos halign, Machine.get_zero]
  let flag : UInt32 := if (m.get .a1).toInt32 < (m.get .a0).toInt32 then 1 else 0
  let stored : Machine := { m with mem := Function.update m.mem (m.get .a1) 0 }
  refine ⟨(stored.set .v1 flag).set .a1 (m.get .a1 + 4), ?_, Machine.get_set _ (by decide),
    fun r ha1 hv1 => ?_, ?_, rfl⟩
  · rw [bssClear, execAll_cons hsw, execAll_cons (show _ = some (stored.set .v1 flag) from rfl)]
    rfl
  · rw [Machine.get_set_of_ne _ ha1, Machine.get_set_of_ne _ hv1]
    rfl
  · rw [Machine.get_set_of_ne _ (by decide), Machine.get_set _ (by decide)]
    simp only [flag]
    split <;> simp_all

theorem execAll_copyData (hto : Aligned (m.get .a1)) (hfrom : Aligned (m.get .a2)) :
    ∃ c, execAll copyData m = some c ∧ c.get .a1 = m.get .a1 + 4 ∧ c.get .a2 = m.get .a2 + 4 ∧
      (∀ r, r ≠ .a1 → r ≠ .a2 → r ≠ .v0 → r ≠ .v1 → c.get r = m.get r) ∧
      (c.get .v1 ≠ 0 ↔ (m.get .a1).toInt32 < (m.get .a0).toInt32) ∧
      c.mem = Function.update m.mem (m.get .a1) (m.mem (m.get .a2)) := by
  let loaded := m.set .v0 (m.mem (m.get .a2))
  let stored : Machine := { loaded with
    mem := Function.update m.mem (m.get .a1) (m.mem (m.get .a2)) }
  let flag : UInt32 := if (m.get .a1).toInt32 < (m.get .a0).toInt32 then 1 else 0
  have hlw : (Op.lw .v0 0 .a2).exec m = some loaded := by
    rw [exec_lw rfl ((UInt32.add_zero _).symm ▸ hfrom), UInt32.add_zero]
  have hsw : (Op.sw .v0 0 .a1).exec loaded = some stored := by
    rw [Op.exec, Machine.get_set_of_ne _ (by decide), UInt32.add_zero, if_pos hto,
      Machine.get_set _ (by decide)]
    rfl
  refine ⟨((stored.set .v1 flag).set .a1 (m.get .a1 + 4)).set .a2 (m.get .a2 + 4), ?_, ?_,
    Machine.get_set _ (by decide), fun r ha1 ha2 hv0 hv1 => ?_, ?_, rfl⟩
  · rw [copyData, execAll_cons hlw, execAll_cons hsw,
      execAll_cons (show _ = some (stored.set .v1 flag) from rfl)]
    rfl
  · rw [Machine.get_set_of_ne _ (by decide), Machine.get_set _ (by decide)]
  · rw [Machine.get_set_of_ne _ ha2, Machine.get_set_of_ne _ ha1, Machine.get_set_of_ne _ hv1]
    exact Machine.get_set_of_ne (m := m) _ hv0
  · rw [Machine.get_set_of_ne _ (by decide), Machine.get_set_of_ne _ (by decide),
      Machine.get_set _ (by decide)]
    simp only [flag]
    split <;> simp_all

/-! ### The loops -/

/-- A place of the code where a part of it begins. -/
theorem getElem?_part {part : List Instr} {i k : Nat} (h : part <+: code.drop i)
    (hk : k < part.length) : code[i + k]? = part[k]? := by
  obtain ⟨rest, hrest⟩ := h
  rw [← List.getElem?_drop, ← hrest, List.getElem?_append_left hk]

/-- The pointer is in the upper half, and at the end of the section after `n` more words. -/
structure Ahead (n : Nat) (start stop : UInt32) : Prop where
  aligned : Aligned start
  low : 2 ^ 31 ≤ start.toNat
  high : 2 ^ 31 ≤ stop.toNat
  count : wordCount start stop = n
  room : start.toNat + 4 * n + 4 < 2 ^ 32

theorem Ahead.more_iff {start stop : UInt32} (h : Ahead n start stop) :
    start.toInt32 < stop.toInt32 ↔ n ≠ 0 := by
  have hcount := h.count
  unfold wordCount at hcount
  rw [toInt32_lt_iff h.low h.high]
  omega

theorem Ahead.next {start stop : UInt32} (h : Ahead (n + 1) start stop) :
    Ahead n (start + 4) stop := by
  have hroom := h.room
  have hlow := h.low
  have hnext : (start + 4).toNat = start.toNat + 4 := by
    rw [UInt32.toNat_add, show UInt32.toNat 4 = 4 from rfl, Nat.mod_eq_of_lt (by omega)]
  refine ⟨?_, by omega, h.high, ?_, by omega⟩
  · have halign := h.aligned
    unfold Aligned at *
    omega
  · have hcount := h.count
    unfold wordCount at *
    omega

@[simp] theorem wordAt_zero (a : UInt32) : wordAt a 0 = a := UInt32.add_zero a

theorem wordAt_succ (a : UInt32) (i : Nat) : wordAt a (i + 1) = wordAt (a + 4) i := by
  rw [wordAt, wordAt, Nat.mul_add, Nat.add_comm, UInt32.ofNat_add, ← UInt32.add_assoc]
  rfl

/-- Either loop: instructions that end with the comparison of `a1` and `a0`, then `bnez`. -/
theorem reaches_pass {ops : List Op} {c : Machine} {i : Nat}
    (hcode : ops.map .op ++ [.bnez .v1 i, .op .nop] <+: code.drop i)
    (hpass : execAll ops m = some c)
    (hflag : c.get .v1 ≠ 0 ↔ n ≠ 0) :
    Reaches code link function (.before m i)
      (.before c (if n ≠ 0 then i else i + ops.length + 2)) := by
  have hblock : Reaches code link function (.before m i) (.before c (i + ops.length)) :=
    reaches_block _ ((List.prefix_append _ _).trans hcode) hpass
  have hbnez : code[i + ops.length]? = some (.bnez .v1 i) := by
    rw [getElem?_part hcode (by simp)]
    simp
  have hnop : code[i + ops.length + 1]? = some (.op .nop) := by
    rw [Nat.add_assoc, getElem?_part hcode (by simp), List.getElem?_append_right (by simp)]
    simp
  have hback : Reaches code link function (.before c (i + ops.length))
      (.before c (if c.get .v1 ≠ 0 then i else i + ops.length + 2)) :=
    reaches_bnez hbnez hnop rfl
  simp only [hflag] at hback
  exact hblock.trans hback

/-- The first loop clears the words of the section and the one after them. -/
theorem reaches_bssClear {i : Nat}
    (hcode : bssClear.map .op ++ [.bnez .v1 i, .op .nop] <+: code.drop i)
    (h : Ahead n (m.get .a1) (m.get .a0)) :
    ∃ c, Reaches code link function (.before m i) (.before c (i + 5)) ∧
      (∀ r, r ≠ .a1 → r ≠ .v1 → c.get r = m.get r) ∧
      c.mem = fill (wordAt (m.get .a1)) 0 m.mem (n + 1) := by
  induction n generalizing m with
  | zero =>
    obtain ⟨c, hpass, -, hkept, hflag, hmem⟩ := execAll_bssClear h.aligned
    refine ⟨c, reaches_pass link function hcode hpass (hflag.trans h.more_iff), hkept, ?_⟩
    rw [hmem, fill, fill, wordAt_zero]
  | succ n ih =>
    obtain ⟨c, hpass, ha1, hkept, hflag, hmem⟩ := execAll_bssClear h.aligned
    have hback := reaches_pass link function hcode hpass (hflag.trans h.more_iff)
    obtain ⟨d, hrest, hkept', hmem'⟩ := ih (m := c)
      (by rw [ha1, hkept .a0 (by decide) (by decide)]; exact h.next)
    refine ⟨d, hback.trans hrest, fun r ha1 hv1 => ?_, ?_⟩
    · rw [hkept' r ha1 hv1, hkept r ha1 hv1]
    · rw [hmem', hmem, ha1, fill_succ (wordAt (m.get .a1))]
      congr 1
      · exact funext fun i => (wordAt_succ _ i).symm
      · rw [wordAt_zero]

theorem aligned_next {a : UInt32} (h : Aligned a) : Aligned (a + 4) := by
  unfold Aligned at *
  rw [UInt32.toNat_add, show UInt32.toNat 4 = 4 from rfl]
  omega

/-- The second loop copies the words of the section and the one after them, from the first on. -/
theorem reaches_copyData {i : Nat}
    (hcode : copyData.map .op ++ [.bnez .v1 i, .op .nop] <+: code.drop i)
    (h : Ahead n (m.get .a1) (m.get .a0)) (hfrom : Aligned (m.get .a2)) :
    ∃ c, Reaches code link function (.before m i) (.before c (i + 7)) ∧
      (∀ r, r ≠ .a1 → r ≠ .a2 → r ≠ .v0 → r ≠ .v1 → c.get r = m.get r) ∧
      c.mem = copySeq (wordAt (m.get .a1)) (wordAt (m.get .a2)) m.mem (n + 1) := by
  induction n generalizing m with
  | zero =>
    obtain ⟨c, hpass, -, -, hkept, hflag, hmem⟩ := execAll_copyData h.aligned hfrom
    refine ⟨c, reaches_pass link function hcode hpass (hflag.trans h.more_iff), hkept, ?_⟩
    rw [hmem, copySeq, copySeq, wordAt_zero, wordAt_zero]
  | succ n ih =>
    obtain ⟨c, hpass, ha1, ha2, hkept, hflag, hmem⟩ := execAll_copyData h.aligned hfrom
    have hback := reaches_pass link function hcode hpass (hflag.trans h.more_iff)
    obtain ⟨d, hrest, hkept', hmem'⟩ := ih (m := c)
      (by rw [ha1, hkept .a0 (by decide) (by decide) (by decide) (by decide)]; exact h.next)
      (ha2 ▸ aligned_next hfrom)
    refine ⟨d, hback.trans hrest, fun r ha1 ha2 hv0 hv1 => ?_, ?_⟩
    · rw [hkept' r ha1 ha2 hv0 hv1, hkept r ha1 ha2 hv0 hv1]
    · rw [hmem', hmem, ha1, ha2, Nat.add_comm (n + 1) 1, copySeq_add 1 (n + 1)]
      simp only [copySeq, wordAt_zero, Nat.add_comm 1, wordAt_succ]

/-! ### The whole code -/

/-- The sections as numbers. -/
theorem Sections.bounds (s : Sections) : 2 ^ 31 ≤ s.data.toNat ∧ s.data.toNat ≤ s.edata.toNat ∧
    s.edata.toNat ≤ s.bssStart.toNat ∧ s.bssStart.toNat ≤ s.bssEnd.toNat ∧
    s.bssEnd.toNat < 0x90000000 ∧ 0x9d000000 ≤ s.erodata.toNat ∧ s.erodata.toNat < 0xa0000000 :=
  ⟨s.ram.1, s.order.1, s.order.2.1, s.order.2.2, s.ram.2, s.flash⟩

theorem Sections.ahead_bss (s : Sections) :
    Ahead (wordCount s.bssStart s.bssEnd) s.bssStart s.bssEnd := by
  have hbounds := s.bounds
  refine ⟨s.aligned.2.2, by omega, by omega, rfl, ?_⟩
  unfold wordCount
  omega

theorem Sections.ahead_data (s : Sections) : Ahead (wordCount s.data s.edata) s.data s.edata := by
  have hbounds := s.bounds
  refine ⟨s.aligned.1, by omega, by omega, rfl, ?_⟩
  unfold wordCount
  omega

theorem reaches_clearing (s : Sections) (m : Machine) (hcode : clearing s gp stack <+: code) :
    ∃ c, Reaches code link function (.before m 0) (.before c 9) ∧ c.get .gp = gp ∧
      c.get .sp = stack ∧
      c.mem = fill (wordAt s.bssStart) 0 m.mem (wordCount s.bssStart s.bssEnd + 1) := by
  let c := (((m.set .gp gp).set .sp stack).set .a0 s.bssEnd).set .a1 s.bssStart
  have hsetup : Reaches code link function (.before m 0) (.before c 4) :=
    reaches_block [.la .gp gp, .la .sp stack, .la .a0 s.bssEnd, .la .a1 s.bssStart]
      ((List.prefix_append _ _).trans hcode) rfl
  have hloop : bssClear.map .op ++ [.bnez .v1 4, .op .nop] <+: code.drop 4 :=
    List.IsPrefix.drop hcode 4
  have ha1 : c.get .a1 = s.bssStart := rfl
  have ha0 : c.get .a0 = s.bssEnd := rfl
  obtain ⟨d, hclear, hkept, hmem⟩ := reaches_bssClear link function (m := c)
    hloop (ha1 ▸ ha0 ▸ s.ahead_bss)
  refine ⟨d, hsetup.trans hclear, ?_, ?_, hmem⟩
  · exact hkept _ (by decide) (by decide)
  · exact hkept _ (by decide) (by decide)

/-- What the code on PIC32MZ leaves in the memory when it calls the first function. -/
theorem reaches_call_entry (s : Sections) (himage : Aligned s.erodata) (m : Machine) (f : UInt32)
    (calls : List UInt32) :
    ∃ c, Reaches (entry s gp stack (f :: calls)) link function (.before m 0)
        ⟨c, .call f 21, .call f 21⟩ ∧
      c.get .gp = gp ∧ c.get .sp = stack ∧
      c.mem = copySeq (wordAt s.data) (wordAt s.erodata)
        (fill (wordAt s.bssStart) 0 m.mem (wordCount s.bssStart s.bssEnd + 1))
        (wordCount s.data s.edata + 1) := by
  have hhead : clearing s gp stack <+: entry s gp stack (f :: calls) := by
    rw [entry, List.append_assoc, List.append_assoc]
    exact List.prefix_append _ _
  obtain ⟨c, hclear, hgp, hsp, hmem⟩ := reaches_clearing link function s m hhead
  let d := ((c.set .a0 s.edata).set .a1 s.data).set .a2 s.erodata
  have hsetup :
      Reaches (entry s gp stack (f :: calls)) link function (.before c 9) (.before d 12) :=
    reaches_block [.la .a0 s.edata, .la .a1 s.data, .la .a2 s.erodata] ⟨_, rfl⟩ rfl
  have hloop : copyData.map .op ++ [.bnez .v1 12, .op .nop] <+:
      (entry s gp stack (f :: calls)).drop 12 := ⟨_, rfl⟩
  have ha0 : d.get .a0 = s.edata := rfl
  have ha1 : d.get .a1 = s.data := rfl
  have ha2 : d.get .a2 = s.erodata := rfl
  obtain ⟨e, hcopy, hkept, hmem'⟩ := reaches_copyData link function (m := d)
    hloop (ha1 ▸ ha0 ▸ s.ahead_data) (ha2 ▸ himage)
  refine ⟨e.set .ra (link 21),
    ((hclear.trans hsetup).trans hcopy).trans (reaches_jal (i := 19) rfl rfl rfl), ?_, ?_, ?_⟩
  · rw [Machine.get_set_of_ne _ (by decide),
      hkept _ (by decide) (by decide) (by decide) (by decide), ← hgp]
    rfl
  · rw [Machine.get_set_of_ne _ (by decide),
      hkept _ (by decide) (by decide) (by decide) (by decide), ← hsp]
    rfl
  · rw [Machine.mem_set, hmem', ha1, ha2, ← hmem]
    rfl

/-- The processor is in the code before the first word is copied, which is at `erodata`. -/
def BeforeCopy (s : Sections) (t : State) : Prop :=
  ∃ i ≤ 12, t.pc = .code i ∧ (t.next = .code (i + 1) ∨ i = 8 ∧ t.next = .code 4) ∧
    (i = 12 → t.machine.get .a2 = s.erodata)

/-- Before the first word is copied, each instruction is followed by the next one, or by the first
one of the loop. -/
theorem step_before_copy {s : Sections} {c : Machine} {next : Place} {u : State} {f : UInt32}
    {calls : List UInt32} {i : Nat} (hi : i < 12)
    (hstep : step (entry s gp stack (f :: calls)) link function ⟨c, .code i, next⟩ = some u) :
    u.pc = next ∧ (u.next = next.next ∨ i = 7 ∧ u.next = .code 4) ∧
      (i = 11 → u.machine.get .a2 = s.erodata) := by
  have hop : ∀ o, (entry s gp stack (f :: calls))[i]? = some (.op o) →
      ∃ d, o.exec c = some d ∧ u = ⟨d, next, next.next⟩ := by
    intro o hcode
    simp only [step, hcode] at hstep
    obtain ⟨d, hexec, rfl⟩ := Option.map_eq_some_iff.mp hstep
    exact ⟨d, hexec, rfl⟩
  by_cases hjump : i = 7
  · subst hjump
    obtain rfl := Option.some.inj hstep
    refine ⟨rfl, ?_, fun h => absurd h (by decide)⟩
    show (if _ then _ else _) = next.next ∨ _ ∧ (if _ then _ else _) = Place.code 4
    split_ifs
    · exact Or.inr ⟨rfl, rfl⟩
    · exact Or.inl rfl
  · have hcode : ∃ o, (entry s gp stack (f :: calls))[i]? = some (.op o) := by
      interval_cases i <;> first | exact absurd rfl hjump | exact ⟨_, rfl⟩
    obtain ⟨o, hcode⟩ := hcode
    obtain ⟨d, hexec, rfl⟩ := hop o hcode
    refine ⟨rfl, Or.inl rfl, ?_⟩
    rintro rfl
    obtain rfl : Op.la .a2 s.erodata = o := by injection Option.some.inj hcode
    obtain rfl := Option.some.inj hexec
    exact Machine.get_set _ (by decide)

/-- Loading a word of an image that is not aligned is an exception. -/
theorem BeforeCopy.next {s : Sections} (himage : ¬Aligned s.erodata) {t u : State} {f : UInt32}
    {calls : List UInt32} (h : BeforeCopy s t)
    (hstep : step (entry s gp stack (f :: calls)) link function t = some u) : BeforeCopy s u := by
  obtain ⟨c, pc, next⟩ := t
  obtain ⟨i, hi, rfl, hnext, ha2⟩ := h
  rcases Nat.eq_or_lt_of_le hi with rfl | hlt
  · have hload : (Op.lw .v0 0 .a2).exec c = none := by
      rw [Op.exec, show c.get .a2 = s.erodata from ha2 rfl, UInt32.add_zero, if_neg himage]
    have hlast : step (entry s gp stack (f :: calls)) link function ⟨c, .code 12, next⟩ =
        ((Op.lw .v0 0 .a2).exec c).map fun m => ⟨m, next, next.next⟩ := rfl
    rw [hlast, hload] at hstep
    cases hstep
  · obtain ⟨hpc, hafter, hset⟩ := step_before_copy link function hlt hstep
    rcases hnext with rfl | ⟨rfl, rfl⟩
    · refine ⟨i + 1, by omega, hpc, ?_, fun h => hset (by omega)⟩
      rcases hafter with hafter | ⟨rfl, hafter⟩
      · exact Or.inl hafter
      · exact Or.inr ⟨rfl, hafter⟩
    · refine ⟨4, by decide, hpc, Or.inl ?_, fun h => absurd h (by decide)⟩
      exact hafter.resolve_right fun h => absurd h.1 (by decide)

/-- With an image that is not aligned no function is called. -/
theorem not_call_entry {s : Sections} (himage : ¬Aligned s.erodata) {m : Machine} {f : UInt32}
    {calls : List UInt32} {t : State}
    (h : Reaches (entry s gp stack (f :: calls)) link function (.before m 0) t) (g : UInt32)
    (ret : Nat) : t.pc ≠ .call g ret := by
  have hbefore : BeforeCopy s t := by
    induction h with
    | refl => exact ⟨0, by decide, rfl, Or.inl rfl, fun h => absurd h (by decide)⟩
    | tail _ hstep ih => exact ih.next link function himage hstep
  obtain ⟨i, -, hpc, -⟩ := hbefore
  rw [hpc]
  exact Place.noConfusion

theorem reaches_call_entryBaikal (s : Sections) (m : Machine) (f : UInt32) (calls : List UInt32) :
    ∃ c, Reaches (entryBaikal s gp stack (f :: calls)) link function (.before m 0)
        ⟨c, .call f 11, .call f 11⟩ ∧
      c.get .gp = gp ∧ c.get .sp = stack ∧
      c.mem = fill (wordAt s.bssStart) 0 m.mem (wordCount s.bssStart s.bssEnd + 1) := by
  have hhead : clearing s gp stack <+: entryBaikal s gp stack (f :: calls) := by
    rw [entryBaikal, List.append_assoc]
    exact List.prefix_append _ _
  obtain ⟨c, hclear, hgp, hsp, hmem⟩ := reaches_clearing link function s m hhead
  refine ⟨c.set .ra (link 11), hclear.trans (reaches_jal (i := 9) rfl rfl rfl), ?_, ?_, hmem⟩
  · rw [Machine.get_set_of_ne _ (by decide), hgp]
  · rw [Machine.get_set_of_ne _ (by decide), hsp]

/-! ### The memory -/

theorem toNat_wordAt {a : UInt32} {i : Nat} (h : a.toNat + 4 * i < 2 ^ 32) :
    (wordAt a i).toNat = a.toNat + 4 * i := by
  rw [wordAt, UInt32.toNat_add, UInt32.toNat_ofNat_of_lt' (by rw [UInt32.size]; omega),
    Nat.mod_eq_of_lt h]

/-- The places of the words that the two loops store. -/
structure Sections.Places (s : Sections) : Prop where
  data : ∀ i ≤ wordCount s.data s.edata, (wordAt s.data i).toNat = s.data.toNat + 4 * i
  edata : s.edata.toNat = s.data.toNat + 4 * wordCount s.data s.edata
  bss : ∀ i ≤ wordCount s.bssStart s.bssEnd,
    (wordAt s.bssStart i).toNat = s.bssStart.toNat + 4 * i ∧
      (wordAt s.bssStart i).toNat < 0x9d000000
  image : ∀ i ≤ wordCount s.data s.edata, 0x9d000000 ≤ (wordAt s.erodata i).toNat

theorem Sections.places (s : Sections) : s.Places := by
  have hbounds := s.bounds
  have hdata := s.aligned.1
  have hedata := s.aligned.2.1
  have hbss := s.aligned.2.2
  unfold Aligned at *
  refine ⟨fun i hi => ?_, ?_, fun i hi => ?_, fun i hi => ?_⟩ <;> unfold wordCount at *
  · exact toNat_wordAt (by omega)
  · omega
  · have hplace := toNat_wordAt (a := s.bssStart) (i := i) (by omega)
    exact ⟨hplace, by omega⟩
  · have hplace := toNat_wordAt (a := s.erodata) (i := i) (by omega)
    omega

section Memory

variable (s : Sections) (mem : UInt32 → UInt32)

/-- The memory after both loops. -/
def startupMem : UInt32 → UInt32 :=
  copySeq (wordAt s.data) (wordAt s.erodata)
    (fill (wordAt s.bssStart) 0 mem (wordCount s.bssStart s.bssEnd + 1))
    (wordCount s.data s.edata + 1)

/-- The flash memory is only read. -/
theorem fill_image {i : Nat} (hi : i ≤ wordCount s.data s.edata) :
    fill (wordAt s.bssStart) 0 mem (wordCount s.bssStart s.bssEnd + 1) (wordAt s.erodata i) =
      mem (wordAt s.erodata i) := by
  refine fill_of_ne fun j hj heq => ?_
  have himage := s.places.image i hi
  have hbss := (s.places.bss j (Nat.lt_succ_iff.mp hj)).2
  rw [heq] at himage
  omega

theorem startupMem_data {i : Nat} (hi : i ≤ wordCount s.data s.edata) :
    startupMem s mem (wordAt s.data i) = mem (wordAt s.erodata i) := by
  have hbounds := s.bounds
  have hplace := s.places.data
  have hedata := s.places.edata
  have hreads :
      ∀ j < wordCount s.data s.edata + 1, ∀ i < j, wordAt s.erodata j ≠ wordAt s.data i := by
    intro j hj i hi heq
    have himage := s.places.image j (Nat.lt_succ_iff.mp hj)
    have hi' := hplace i (by omega)
    rw [heq] at himage
    omega
  have hwrites :
      ∀ j < wordCount s.data s.edata + 1, ∀ i < j, wordAt s.data j ≠ wordAt s.data i := by
    intro j hj i hi heq
    have hj' := hplace j (Nat.lt_succ_iff.mp hj)
    have hi' := hplace i (by omega)
    rw [heq] at hj'
    omega
  rw [startupMem, copySeq_eq_atOnce hreads, copyAtOnce_apply hwrites (Nat.lt_succ_of_le hi)]
  exact fill_image s mem hi

theorem startupMem_of_ne {a : UInt32} (h : ∀ i ≤ wordCount s.data s.edata, a ≠ wordAt s.data i) :
    startupMem s mem a =
      fill (wordAt s.bssStart) 0 mem (wordCount s.bssStart s.bssEnd + 1) a :=
  copySeq_of_ne fun i hi => h i (Nat.lt_succ_iff.mp hi)

/-- A word of `.bss` is zero, unless it is the first one and the second loop has stored there. -/
theorem startupMem_bss {i : Nat} (hi : i < wordCount s.bssStart s.bssEnd) :
    startupMem s mem (wordAt s.bssStart i) =
      if i = 0 ∧ s.bssStart = s.edata then mem (wordAt s.erodata (wordCount s.data s.edata))
      else 0 := by
  have hbounds := s.bounds
  have hedata := s.places.edata
  have hbss := (s.places.bss i hi.le).1
  split_ifs with hfirst
  · obtain ⟨rfl, heq⟩ := hfirst
    have hlast : wordAt s.bssStart 0 = wordAt s.data (wordCount s.data s.edata) := by
      rw [← UInt32.toNat_inj, hbss, s.places.data _ le_rfl, heq]
      omega
    rw [hlast, startupMem_data s mem le_rfl]
  · rw [startupMem_of_ne s mem, fill_apply (Nat.lt_succ_of_lt hi)]
    intro j hj heq
    have hj' := s.places.data j hj
    rw [heq] at hbss
    exact hfirst ⟨by omega, UInt32.toNat_inj.mp (by omega)⟩

theorem erodata_end :
    wordAt s.erodata (wordCount s.data s.edata) = s.erodata + (s.edata - s.data) := by
  have hedata : s.edata = s.data + UInt32.ofNat (4 * wordCount s.data s.edata) := by
    rw [← UInt32.toNat_inj, s.places.edata]
    exact (s.places.data _ le_rfl).symm
  have hsize : s.edata - s.data = UInt32.ofNat (4 * wordCount s.data s.edata) :=
    calc s.edata - s.data
      _ = s.data + UInt32.ofNat (4 * wordCount s.data s.edata) - s.data := by rw [← hedata]
      _ = UInt32.ofNat (4 * wordCount s.data s.edata) := by
        rw [UInt32.add_comm, UInt32.add_sub_cancel]
  rw [wordAt, hsize]

theorem initialized_startupMem_iff : Initialized s mem (startupMem s mem) ↔
    s.bssStart = s.bssEnd ∨ s.bssStart ≠ s.edata ∨ mem (s.erodata + (s.edata - s.data)) = 0 := by
  rw [← erodata_end s]
  constructor
  · intro h
    by_contra! hnot
    obtain ⟨hne, heq, hword⟩ := hnot
    have hpos : 0 < wordCount s.bssStart s.bssEnd := by
      have horder := s.bounds
      have hne' : s.bssStart.toNat ≠ s.bssEnd.toNat := fun h => hne (UInt32.toNat_inj.mp h)
      unfold wordCount
      omega
    have hfirst := h.bss 0 hpos
    rw [startupMem_bss s mem hpos, if_pos ⟨rfl, heq⟩] at hfirst
    exact hword hfirst
  · intro h
    refine ⟨fun i hi => startupMem_data s mem hi.le, fun i hi => ?_⟩
    rw [startupMem_bss s mem hi]
    split_ifs with hfirst
    · rcases h with hempty | hne | hword
      · rw [hempty] at hi
        simp [wordCount] at hi
      · exact absurd hfirst.2 hne
      · exact hword
    · rfl

end Memory

/-- When the image of `.data` is aligned, the code on PIC32MZ calls the first function, and then
with `.data` and `.bss` as C code needs them exactly when `.bss` is empty, or does not begin where
`.data` ends, or the word of the flash memory behind the image is zero.  Other than the two sections
it changes the word after each.  When the image is not aligned, the code calls nothing. -/
theorem entry_initializes_iff (s : Sections) (m : Machine) (f : UInt32) (calls : List UInt32) :
    (Aligned s.erodata →
      ∃ c, Reaches (entry s gp stack (f :: calls)) link function (.before m 0)
          ⟨c, .call f 21, .call f 21⟩ ∧ c.get .gp = gp ∧ c.get .sp = stack ∧
        (Initialized s m.mem c.mem ↔ s.bssStart = s.bssEnd ∨ s.bssStart ≠ s.edata ∨
          m.mem (s.erodata + (s.edata - s.data)) = 0) ∧
        ∀ a, (∀ i ≤ wordCount s.data s.edata, a ≠ wordAt s.data i) →
          (∀ i ≤ wordCount s.bssStart s.bssEnd, a ≠ wordAt s.bssStart i) → c.mem a = m.mem a) ∧
    (¬Aligned s.erodata →
      ∀ t, Reaches (entry s gp stack (f :: calls)) link function (.before m 0) t →
        ∀ g ret, t.pc ≠ .call g ret) := by
  refine ⟨fun himage => ?_, fun himage t h => not_call_entry link function himage h⟩
  obtain ⟨c, hreach, hgp, hsp, hmem⟩ := reaches_call_entry link function s himage m f calls
  have hmem : c.mem = startupMem s m.mem := hmem
  refine ⟨c, hreach, hgp, hsp, ?_, fun a hdata hbss => ?_⟩
  · rw [hmem]
    exact initialized_startupMem_iff s m.mem
  · rw [hmem, startupMem_of_ne s m.mem hdata]
    exact fill_of_ne fun i hi => hbss i (Nat.lt_succ_iff.mp hi)

/-- A hypervisor with a `.bss` right behind its `.data`, and erased flash memory behind its
image. -/
def someSections : Sections where
  data := 0x80000000
  edata := 0x80000040
  bssStart := 0x80000040
  bssEnd := 0x80000100
  erodata := 0x9d006000
  aligned := by decide
  order := by decide
  ram := by decide
  flash := by decide

/-- A processor whose memory reads as erased. -/
def erased : Machine := ⟨fun _ => 0, 0, 0, fun _ => 0, fun _ => 0xffffffff⟩

/-- Erased flash memory ends up in the first word of `.bss`; and an image at an odd address is never
copied. -/
theorem entry_initializes_someSections :
    (∃ c,
      Reaches (entry someSections 0x80008000 0x80010000 [0x9d001000]) (fun _ => 0) (fun _ => some)
        (.before erased 0) ⟨c, .call 0x9d001000 21, .call 0x9d001000 21⟩ ∧
      ¬Initialized someSections erased.mem c.mem) ∧
    ∀ t, Reaches (entry { someSections with erodata := 0x9d006001, flash := by decide } 0x80008000
        0x80010000 [0x9d001000]) (fun _ => 0) (fun _ => some) (.before erased 0) t →
      ∀ g ret, t.pc ≠ .call g ret := by
  constructor
  · obtain ⟨c, hreach, -, -, hiff, -⟩ := (entry_initializes_iff (fun _ => 0) (fun _ => some)
      someSections erased 0x9d001000 []).1 (by decide)
    exact ⟨c, hreach, fun h => absurd (hiff.mp h) (by decide)⟩
  · exact (entry_initializes_iff (fun _ => 0) (fun _ => some) _ erased 0x9d001000 []).2 (by decide)

end PrplHypervisor.Arch
