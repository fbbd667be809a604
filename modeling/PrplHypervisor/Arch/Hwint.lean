import PrplHypervisor.Arch.Interrupts
import PrplHypervisor.Lib.Mips
import Mathlib.Data.Bool.AllAny

/-! The interrupt vectors of Baikal-T1 (`arch/mips/baikal-t1/boot.S`): a stub of each vector, and
`vector_hwint`, which saves the registers of the guest on the hypervisor's stack, calls
`__interrupt_handler`, and restores what it finds there.  The words of the frame are those that
`gpr_context.c` reads and writes as `sp[reg]`. -/

namespace PrplHypervisor.Arch

open Lib.Mips

/-- `_stack`, the end of the memory in `baikal.ld`. -/
def stackEnd : UInt32 := 0x80000000 + 0x10000

/-- `GPR_SIZE` -/
def GPR_SIZE : UInt32 := 34 * 4

/-- The stack pointer of the handlers. -/
def frameBase : UInt32 := stackEnd - GPR_SIZE

/-- The registers that are saved first, with their offsets.  `gp`, `sp` and `a0` have been
overwritten by then, and are saved from scratch registers. -/
def savedGpr : List (Reg × UInt32) :=
  [(.at, 4), (.v0, 8), (.v1, 12), (.a1, 20), (.a2, 24), (.a3, 28), (.t0, 32), (.t1, 36), (.t2, 40),
    (.t3, 44), (.t4, 48), (.t5, 52), (.t6, 56), (.t7, 60), (.s0, 64), (.s1, 68), (.s2, 72),
    (.s3, 76), (.s4, 80), (.s5, 84), (.s6, 88), (.s7, 92), (.t8, 96), (.t9, 100), (.k0, 104),
    (.k1, 108), (.fp, 120), (.ra, 124)]

/-- What is saved through `k0`: the scratch registers have `sp`, `gp` and `a0`. -/
def savedSpecial : List (Special × UInt32) :=
  [(.cp0 31 2, 116), (.cp0 31 3, 112), (.cp0 31 4, 16), (.hi, 128), (.lo, 132)]

/-- The registers that are restored first; `k0` and `sp` are restored at the end. -/
def restoredGpr : List (Reg × UInt32) :=
  [(.at, 4), (.v0, 8), (.v1, 12), (.a0, 16), (.a1, 20), (.a2, 24), (.a3, 28), (.t0, 32), (.t1, 36),
    (.t2, 40), (.t3, 44), (.t4, 48), (.t5, 52), (.t6, 56), (.t7, 60), (.s0, 64), (.s1, 68),
    (.s2, 72), (.s3, 76), (.s4, 80), (.s5, 84), (.s6, 88), (.s7, 92), (.t8, 96), (.t9, 100),
    (.k1, 108), (.gp, 112), (.fp, 120), (.ra, 124)]

/-- `.vector_hwint_n`, whose jump goes to the instruction after it here. -/
def hwintStub (n : UInt32) : List Instr :=
  [.op (.mtc0 .a0 31 4), .op (.la .a0 (hwintArgument n)), .b 4, .op .nop]

/-- The stack pointer and the small data pointer of the hypervisor; `gp` is the address `_gp`. -/
def hwintSetup (gp : UInt32) : List Op :=
  [.mtc0 .sp 31 2, .mtc0 .gp 31 3, .la .sp stackEnd, .addi .sp .sp (-136), .la .gp gp]

/-- The code of `vector_hwint` up to the call. -/
def hwintSave (gp handler : UInt32) : List Op :=
  hwintSetup gp ++ stores .sp savedGpr ++ storesVia .k0 .sp savedSpecial ++ [.la .k0 handler]

/-- The code after the call up to `eret`; `ehb` is the last `nop`. -/
def hwintRestore : List Op :=
  loads .sp restoredGpr ++
    [.lw .k0 128 .sp, .mthi .k0, .lw .k0 132 .sp, .mtlo .k0, .lw .k0 104 .sp, .lw .sp 116 .sp, .nop]

/-- The stub and `vector_hwint`; `handler` is the address of `__interrupt_handler`. -/
def vectorHwint (n gp handler : UInt32) : List Instr :=
  hwintStub n ++ (hwintSave gp handler).map .op ++ [.jalr .k0, .op .nop] ++ hwintRestore.map .op ++
    [.eret]

/-- The word of the frame for a register, or for `hi` and `lo` at 32 and 33. -/
def frameWord (mem : UInt32 → UInt32) (j : Nat) : UInt32 := mem (frameBase + UInt32.ofNat (4 * j))

/-- The registers of the processor, in the order of the frame. -/
def registers (m : Machine) (j : Nat) : UInt32 :=
  if h : j < 32 then m.get ⟨j, h⟩ else if j = 32 then m.hi else m.lo

variable {m c : Machine}

/-! ### Saving -/

/-- The words that the code before the call writes. -/
def frameWrites (m : Machine) : List (UInt32 × UInt32) :=
  savedGpr.map (fun x => (x.2, m.get x.1)) ++
    [(116, m.get .sp), (112, m.get .gp), (16, m.get .a0), (128, m.hi), (132, m.lo)]

theorem savedGpr_aligned : ∀ x ∈ savedGpr, Aligned (frameBase + x.2) :=
  List.all_iff_forall_prop.mp (by decide)

theorem mem_savedGpr : ∀ r : Reg, r ∉ [Reg.zero, .a0, .gp, .sp] →
    (r, UInt32.ofNat (4 * r.val)) ∈ savedGpr := by
  decide

theorem frameWrites_nodup (m : Machine) : ((frameWrites m).map Prod.fst).Nodup := by
  have hoffsets : (frameWrites m).map Prod.fst =
      savedGpr.map Prod.snd ++ [116, 112, 16, 128, 132] := rfl
  rw [hoffsets]
  decide

theorem mem_frameWrites (m : Machine) {j : Nat} (hpos : 0 < j) (hj : j < 34) :
    (UInt32.ofNat (4 * j), registers m j) ∈ frameWrites m := by
  unfold registers frameWrites
  split
  case isTrue hlt =>
    by_cases hlate : (⟨j, hlt⟩ : Reg) ∈ [Reg.zero, .a0, .gp, .sp]
    · simp only [List.mem_cons, List.not_mem_nil, or_false, Fin.ext_iff] at hlate
      apply List.mem_append_right
      rcases hlate with rfl | rfl | rfl | rfl
      · exact absurd hpos (Nat.lt_irrefl 0)
      · exact .tail _ (.tail _ (.head _))
      · exact .tail _ (.head _)
      · exact .head _
    · apply List.mem_append_left
      exact List.mem_map_of_mem (f := fun x => (x.2, m.get x.1)) (mem_savedGpr _ hlate)
  case isFalse hge =>
    apply List.mem_append_right
    obtain rfl | rfl : j = 32 ∨ j = 33 := by omega
    all_goals simp

theorem execAll_hwintSetup (m : Machine) (gp : UInt32) :
    ∃ c, execAll (hwintSetup gp) m = some c ∧
      c.get .sp = frameBase ∧ (∀ r, r ≠ .sp → r ≠ .gp → c.get r = m.get r) ∧
      c.cp0 (31, 2) = m.get .sp ∧ c.cp0 (31, 3) = m.get .gp ∧ c.cp0 (31, 4) = m.cp0 (31, 4) ∧
      c.hi = m.hi ∧ c.lo = m.lo ∧ c.mem = m.mem := by
  have hroom : NoOverflow stackEnd (-136) := by decide
  let scratch : Machine := { m with
    cp0 := Function.update (Function.update m.cp0 (31, 2) (m.get .sp)) (31, 3) (m.get .gp) }
  have haddi : (Op.addi .sp .sp (-136)).exec (scratch.set .sp stackEnd) =
      some ((scratch.set .sp stackEnd).set .sp frameBase) := by
    rw [Op.exec, Machine.get_set _ (by decide), if_pos hroom]
    rfl
  refine ⟨((scratch.set .sp stackEnd).set .sp frameBase).set .gp gp, ?_, rfl, fun r hsp hgp => ?_,
    ?_, ?_, ?_, rfl, rfl, rfl⟩
  · rw [hwintSetup, execAll_cons rfl, execAll_cons (show Op.exec _ _ = some scratch from rfl),
      execAll_cons rfl, execAll_cons haddi]
    rfl
  · exact (Machine.get_set_of_ne _ hgp).trans
      ((Machine.get_set_of_ne _ hsp).trans (Machine.get_set_of_ne _ hsp))
  all_goals simp [scratch]

theorem savedSpecial_aligned : ∀ x ∈ savedSpecial, Aligned (frameBase + x.2) := by decide

theorem savedGpr_ne : ∀ x ∈ savedGpr, x.1 ≠ .sp ∧ x.1 ≠ .gp ∧ x.1 ≠ .a0 :=
  List.all_iff_forall_prop.mp (by decide)

/-- The code up to the call saves the registers, when the scratch register of the stub has `a0`. -/
theorem execAll_hwintSave (m : Machine) (gp handler : UInt32) :
    ∃ c, execAll (hwintSave gp handler) m = some c ∧
      c.get .k0 = handler ∧ c.get .sp = frameBase ∧ c.get .a0 = m.get .a0 ∧
      c.mem = writes frameBase (savedGpr.map (fun x => (x.2, m.get x.1)) ++
        [(116, m.get .sp), (112, m.get .gp), (16, m.cp0 (31, 4)), (128, m.hi), (132, m.lo)])
          m.mem := by
  obtain ⟨c, hsetup, hsp, hgpr, hscratchSp, hscratchGp, hscratchA0, hhi, hlo, hmem⟩ :=
    execAll_hwintSetup m gp
  have hstores := execAll_stores (m := c) .sp savedGpr
    fun x hx => hsp.symm ▸ savedGpr_aligned x hx
  obtain ⟨d, hvia, hgprd, -, hmemd⟩ := execAll_storesVia (m := { c with
      mem := writes (c.get .sp) (savedGpr.map fun x => (x.2, c.get x.1)) c.mem })
    .k0 .sp savedSpecial (by decide) (by decide)
    fun x hx => hsp.symm ▸ savedSpecial_aligned x hx
  have hsame :
      (savedGpr.map fun x => (x.2, c.get x.1)) = savedGpr.map fun x => (x.2, m.get x.1) := by
    refine List.map_congr_left fun x hx => ?_
    rw [hgpr x.1 (savedGpr_ne x hx).1 (savedGpr_ne x hx).2.1]
  have hlast : execAll [.la .k0 handler] d = some (d.set .k0 handler) := rfl
  refine ⟨d.set .k0 handler, ?_, Machine.get_set _ (by decide), ?_, ?_, ?_⟩
  · rw [hwintSave, execAll_append, execAll_append, execAll_append, hsetup, Option.bind_some,
      hstores, Option.bind_some, hvia, Option.bind_some, hlast]
  · exact (Machine.get_set_of_ne _ (by decide)).trans ((hgprd _ (by decide)).trans hsp)
  · exact (Machine.get_set_of_ne _ (by decide)).trans
      ((hgprd _ (by decide)).trans (hgpr _ (by decide) (by decide)))
  · rw [Machine.mem_set, hmemd, writes_append, ← hsame, ← hmem, ← hsp, ← hscratchSp, ← hscratchGp,
      ← hscratchA0, ← hhi, ← hlo]
    rfl

/-- An interrupt calls the handler with the number of its stub, on a frame with the registers that
the guest had, and all else in the memory as it was. -/
theorem reaches_call_hwint (n gp handler : UInt32) (link : Nat → UInt32)
    (function : UInt32 → Machine → Option Machine) (m : Machine) :
    ∃ c, Reaches (vectorHwint n gp handler) link function (.before m 0)
        ⟨c, .call handler 50, .call handler 50⟩ ∧
      c.get .a0 = hwintArgument n ∧ c.get .sp = frameBase ∧
      c.mem = writes frameBase (frameWrites m) m.mem := by
  let start : Machine := { m with cp0 := Function.update m.cp0 (31, 4) (m.get .a0) }
  have hstub : Reaches (vectorHwint n gp handler) link function (.before m 0)
      (.before (start.set .a0 (hwintArgument n)) 2) :=
    reaches_block [.mtc0 .a0 31 4, .la .a0 (hwintArgument n)] ⟨_, rfl⟩ rfl
  have hjump : Reaches (vectorHwint n gp handler) link function
      (.before (start.set .a0 (hwintArgument n)) 2) (.before (start.set .a0 (hwintArgument n)) 4) :=
    reaches_b rfl rfl rfl
  obtain ⟨c, hsave, hk0, hsp, ha0, hmem⟩ :=
    execAll_hwintSave (start.set .a0 (hwintArgument n)) gp handler
  have hsaved : Reaches (vectorHwint n gp handler) link function
      (.before (start.set .a0 (hwintArgument n)) 4) (.before c 48) :=
    reaches_block (hwintSave gp handler) ⟨_, rfl⟩ hsave
  have hcall : Reaches (vectorHwint n gp handler) link function (.before c 48)
      ⟨c.set .ra (link 50), .call handler 50, .call handler 50⟩ := by
    rw [← hk0]
    exact reaches_call rfl rfl rfl
  refine ⟨_, ((hstub.trans hjump).trans hsaved).trans hcall, ?_, ?_, ?_⟩
  · rw [Machine.get_set_of_ne _ (by decide), ha0, Machine.get_set _ (by decide)]
  · rw [Machine.get_set_of_ne _ (by decide), hsp]
  · rw [Machine.mem_set, hmem]
    have hsame : (savedGpr.map fun x => (x.2, (start.set .a0 (hwintArgument n)).get x.1)) =
        savedGpr.map fun x => (x.2, m.get x.1) := by
      refine List.map_congr_left fun x hx => ?_
      rw [Machine.get_set_of_ne _ (savedGpr_ne x hx).2.2]
      rfl
    rw [hsame]
    have hscratch : start.cp0 (31, 4) = m.get .a0 := by simp [start]
    rw [Machine.cp0_set, hscratch]
    rfl

theorem frameWord_writes (m : Machine) (mem : UInt32 → UInt32) {j : Nat} (hpos : 0 < j)
    (hj : j < 34) :
    frameWord (writes frameBase (frameWrites m) mem) j = registers m j :=
  writes_apply (frameWrites_nodup m) (mem_frameWrites m hpos hj)

/-! ### Restoring -/

theorem restoredGpr_aligned : ∀ x ∈ restoredGpr, Aligned (frameBase + x.2) :=
  List.all_iff_forall_prop.mp (by decide)

theorem restoredGpr_nodup : (restoredGpr.map Prod.fst).Nodup := by decide

theorem mem_restoredGpr : ∀ r : Reg, r ∉ [Reg.zero, .k0, .sp] →
    (r, UInt32.ofNat (4 * r.val)) ∈ restoredGpr := by
  decide

/-- The code after the call gives the registers the words of the frame. -/
theorem execAll_hwintRestore (hsp : m.get .sp = frameBase) :
    ∃ c, execAll hwintRestore m = some c ∧
      (∀ j, 0 < j → j < 34 → registers c j = frameWord m.mem j) ∧ c.mem = m.mem ∧
        c.cp0 = m.cp0 := by
  obtain ⟨gpr, hloads, hloaded, hothers⟩ := execAll_loads (m := m) .sp restoredGpr
    (fun x hx => hsp.symm ▸ restoredGpr_aligned x hx) restoredGpr_nodup (by decide)
  have hbase : ∀ {m' : Machine}, m'.gpr .sp = m.gpr .sp → m'.get .sp = frameBase := fun h =>
    (Machine.get_of_ne _ (by decide)).trans
      (h.trans ((Machine.get_of_ne _ (by decide)).symm.trans hsp))
  have hgprSp : gpr .sp = m.gpr .sp := hothers _ (by decide)
  let word := fun offset => m.mem (frameBase + offset)
  let high : Machine := { m with
    gpr := Function.update gpr .k0 (word 128)
    hi := word 128 }
  let low : Machine := { high with
    gpr := Function.update high.gpr .k0 (word 132)
    lo := word 132 }
  refine ⟨(low.set .k0 (word 104)).set .sp (word 116), ?_, ?_, rfl, rfl⟩
  · rw [hwintRestore, execAll_append, hloads, Option.bind_some,
      execAll_cons (exec_lw (hbase hgprSp) (by decide)), execAll_cons (show _ = some high from rfl),
      execAll_cons (exec_lw (hbase hgprSp) (by decide)), execAll_cons (show _ = some low from rfl),
      execAll_cons (exec_lw (hbase hgprSp) (by decide)),
      execAll_cons (exec_lw (hbase hgprSp) (by decide))]
    rfl
  · intro j hpos hj
    unfold registers
    split
    case isTrue hlt =>
      by_cases hlate : (⟨j, hlt⟩ : Reg) ∈ [Reg.zero, .k0, .sp]
      · simp only [List.mem_cons, List.not_mem_nil, or_false, Fin.ext_iff] at hlate
        rcases hlate with rfl | rfl | rfl
        · exact absurd hpos (Nat.lt_irrefl 0)
        · exact (Machine.get_set_of_ne _ (show Reg.k0 ≠ Reg.sp by decide)).trans
            (Machine.get_set _ (show Reg.k0 ≠ 0 by decide))
        · exact Machine.get_set _ (show Reg.sp ≠ 0 by decide)
      · have hload := hloaded _ (mem_restoredGpr _ hlate)
        simp only [List.mem_cons, List.not_mem_nil, or_false, not_or] at hlate
        rw [Machine.get_set_of_ne _ hlate.2.2, Machine.get_set_of_ne _ hlate.2.1,
          Machine.get_of_ne _ hlate.1]
        refine Eq.trans ?_ (hload.trans (congrArg (fun a => m.mem (a + _)) hsp))
        exact (Function.update_of_ne hlate.2.1 _ _).trans (Function.update_of_ne hlate.2.1 _ _)
    case isFalse hge =>
      obtain rfl | rfl : j = 32 ∨ j = 33 := by omega
      all_goals rfl

theorem reaches_left_hwint (n gp handler : UInt32) (link : Nat → UInt32)
    (function : UInt32 → Machine → Option Machine) (hsp : m.get .sp = frameBase) :
    ∃ c, Reaches (vectorHwint n gp handler) link function (.before m 50) ⟨c, .left, .left⟩ ∧
      (∀ j, 0 < j → j < 34 → registers c j = frameWord m.mem j) ∧ c.mem = m.mem ∧
        c.cp0 = m.cp0 := by
  obtain ⟨c, hexec, hregisters, hmem, hcp0⟩ := execAll_hwintRestore hsp
  have hrestored : Reaches (vectorHwint n gp handler) link function (.before m 50) (.before c 86) :=
    reaches_block hwintRestore ⟨_, rfl⟩ hexec
  exact ⟨c, hrestored.trans (reaches_eret rfl), hregisters, hmem, hcp0⟩

end PrplHypervisor.Arch
