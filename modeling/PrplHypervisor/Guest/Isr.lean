import PrplHypervisor.Lib.Mips
import Mathlib.Data.Bool.AllAny

/-! The interrupt routine of the guests, `_isr` in `crt0.s` of both platforms.  It saves on the
stack what a C function may change, calls `_irq_handler`, and resumes the interrupted code with the
registers that it had, when the stack pointer is that of a stack. -/

namespace PrplHypervisor.Guest

open Lib.Mips

/-- The registers on the stack, with their offsets.  The first four words are for the arguments of
the handler. -/
def isrGpr : List (Reg × UInt32) :=
  [(.at, 16), (.v0, 20), (.v1, 24), (.a0, 28), (.a1, 32), (.a2, 36), (.a3, 40), (.t0, 44),
    (.t1, 48), (.t2, 52), (.t3, 56), (.t4, 60), (.t5, 64), (.t6, 68), (.t7, 72), (.t8, 76),
    (.t9, 80), (.ra, 84)]

/-- Up to the call: `EPC` goes through `k0`, `hi` and `lo` through `k1`, and the status and the
cause are arguments. -/
def isrSave (handler : UInt32) : List Op :=
  [.addi .sp .sp (-104)] ++ stores .sp isrGpr ++ storesVia .k0 .sp [(.cp0 14 0, 88)] ++
    storesVia .k1 .sp [(.hi, 92), (.lo, 96)] ++ [.mfc0 .a0 12 0, .mfc0 .a1 13 0, .la .t9 handler]

def isrLoads : List (Reg × UInt32) := isrGpr ++ [(.k0, 88), (.k1, 92)]

def isrRestore : List Op :=
  loads .sp isrLoads ++
    [.mthi .k1, .lw .k1 96 .sp, .mtlo .k1, .addi .sp .sp 104, .mtc0 .k0 14 0]

/-- `_isr`; `handler` is the address of `_irq_handler`. -/
def isr (handler : UInt32) : List Instr :=
  (isrSave handler).map .op ++ [.jalr .t9, .op .nop] ++ isrRestore.map .op ++ [.eret]

/-- Registers that a C function has to leave as they are. -/
def calleeSaved : List Reg := [.s0, .s1, .s2, .s3, .s4, .s5, .s6, .s7, .gp, .sp, .fp]

/-- What the calling convention says of a function, with the interrupt routine's frame on the stack:
`after` is its return from `before`. -/
structure Conforms (before after : Machine) : Prop where
  saved : ∀ r ∈ calleeSaved, after.get r = before.get r
  frame : ∀ offset < 104, 16 ≤ offset →
    after.mem (before.get .sp + offset) = before.mem (before.get .sp + offset)

/-- The registers of the interrupted code, as it finds them again: all but `k0` and `k1`, which are
for interrupts. -/
structure Resumes (before after : Machine) : Prop where
  gpr : ∀ r, r ≠ .k0 → r ≠ .k1 → after.get r = before.get r
  hi : after.hi = before.hi
  lo : after.lo = before.lo
  epc : after.cp0 (14, 0) = before.cp0 (14, 0)

variable {m c : Machine} {link : Nat → UInt32} {function : UInt32 → Machine → Option Machine}
  {handler : UInt32}

/-! ### Saving -/

/-- The words that the routine writes below the stack pointer. -/
def isrWrites (m : Machine) : List (UInt32 × UInt32) :=
  isrGpr.map (fun x => (x.2, m.get x.1)) ++ [(88, m.cp0 (14, 0)), (92, m.hi), (96, m.lo)]

/-- The words of the frame are at aligned addresses when the stack pointer is aligned. -/
theorem aligned_word_iff {sp offset : UInt32} (hoffset : Aligned offset) :
    Aligned (sp - 104 + offset) ↔ Aligned sp := by
  unfold Aligned at *
  rw [UInt32.toNat_add, UInt32.toNat_sub, show UInt32.toNat 104 = 104 from rfl]
  omega

theorem isrGpr_aligned : ∀ x ∈ isrGpr, Aligned x.2 := List.all_iff_forall_prop.mp (by decide)

theorem aligned_frame {α : Type*} {l : List (α × UInt32)} {sp : UInt32} (halign : Aligned sp)
    (hsp : c.get .sp = sp - 104) (hl : ∀ x ∈ l, Aligned x.2) :
    ∀ x ∈ l, Aligned (c.get .sp + x.2) := by
  rw [hsp]
  exact fun x hx => (aligned_word_iff (hl x hx)).mpr halign

theorem execAll_isrSave (handler : UInt32) (halign : Aligned (m.get .sp))
    (hroom : NoOverflow (m.get .sp) (-104)) :
    ∃ c, execAll (isrSave handler) m = some c ∧ c.get .t9 = handler ∧
      c.get .a0 = m.cp0 (12, 0) ∧ c.get .a1 = m.cp0 (13, 0) ∧ c.get .sp = m.get .sp - 104 ∧
      (∀ r ∈ calleeSaved, r ≠ .sp → c.get r = m.get r) ∧ c.cp0 = m.cp0 ∧
      c.mem = writes (m.get .sp - 104) (isrWrites m) m.mem := by
  have hbase : m.get .sp + (-104) = m.get .sp - 104 := (UInt32.sub_eq_add_neg _ _).symm
  have haddi : (Op.addi .sp .sp (-104)).exec m = some (m.set .sp (m.get .sp - 104)) := by
    rw [Op.exec, if_pos hroom, hbase]
  have hnames : ∀ x ∈ isrGpr, x.1 ≠ .sp := List.all_iff_forall_prop.mp (by decide)
  have hsame : (isrGpr.map fun x => (x.2, (m.set .sp (m.get .sp - 104)).get x.1)) =
      isrGpr.map fun x => (x.2, m.get x.1) :=
    List.map_congr_left fun x hx => by rw [Machine.get_set_of_ne _ (hnames x hx)]
  let stored : Machine := { m.set .sp (m.get .sp - 104) with
    mem := writes (m.get .sp - 104) (isrGpr.map fun x => (x.2, m.get x.1)) m.mem }
  have hstores : execAll (stores .sp isrGpr) (m.set .sp (m.get .sp - 104)) = some stored := by
    rw [execAll_stores _ _ (aligned_frame halign (Machine.get_set _ (by decide)) isrGpr_aligned),
      hsame]
    rfl
  obtain ⟨c, hepc, hgprc, hspecialc, hmemc⟩ := execAll_storesVia (m := stored) .k0 .sp
    [(.cp0 14 0, 88)] (by decide) (by decide)
    (aligned_frame halign (Machine.get_set (m := m) _ (by decide)) (by decide))
  have hspc : c.get .sp = m.get .sp - 104 := hgprc _ (by decide)
  obtain ⟨d, hhilo, hgprd, hspeciald, hmemd⟩ := execAll_storesVia (m := c) .k1 .sp
    [(.hi, 92), (.lo, 96)] (by decide) (by decide)
    (aligned_frame halign hspc (by decide))
  have hspecial : ∀ x : Special, x.read d = x.read m := by
    intro x
    rw [hspeciald, hspecialc]
    cases x <;> rfl
  have hothers : ∀ r, r ≠ .sp → r ≠ .k0 → r ≠ .k1 → d.get r = m.get r := by
    intro r hsp hk0 hk1
    rw [hgprd r hk1, hgprc r hk0]
    exact Machine.get_set_of_ne _ hsp
  have hlast : execAll [.mfc0 .a0 12 0, .mfc0 .a1 13 0, .la .t9 handler] d =
      some (((d.set .a0 (d.cp0 (12, 0))).set .a1 (d.cp0 (13, 0))).set .t9 handler) := rfl
  have hkept : ∀ r ∈ calleeSaved, r ≠ .k0 ∧ r ≠ .k1 ∧ r ≠ .t9 ∧ r ≠ .a1 ∧ r ≠ .a0 := by decide
  have hget : ∀ r ∈ calleeSaved,
      (((d.set .a0 (d.cp0 (12, 0))).set .a1 (d.cp0 (13, 0))).set .t9 handler).get r = d.get r := by
    intro r hr
    obtain ⟨-, -, ht9, ha1, ha0⟩ := hkept r hr
    rw [Machine.get_set_of_ne _ ht9, Machine.get_set_of_ne _ ha1, Machine.get_set_of_ne _ ha0]
  refine ⟨((d.set .a0 (d.cp0 (12, 0))).set .a1 (d.cp0 (13, 0))).set .t9 handler, ?_,
    Machine.get_set _ (by decide), ?_, ?_, ?_, fun r hr hsp => ?_, ?_, ?_⟩
  · rw [isrSave, execAll_append, execAll_append, execAll_append, execAll_append, execAll_cons haddi,
      execAll, Option.bind_some, hstores, Option.bind_some, hepc, Option.bind_some, hhilo,
      Option.bind_some, hlast]
  · rw [Machine.get_set_of_ne _ (by decide), Machine.get_set_of_ne _ (by decide),
      Machine.get_set _ (by decide)]
    exact hspecial (.cp0 12 0)
  · rw [Machine.get_set_of_ne _ (by decide), Machine.get_set _ (by decide)]
    exact hspecial (.cp0 13 0)
  · rw [hget .sp (by decide), hgprd _ (by decide), hspc]
  · rw [hget r hr, hothers r hsp (hkept r hr).1 (hkept r hr).2.1]
  · exact funext fun r => hspecial (.cp0 r.1 r.2)
  · rw [Machine.mem_set, Machine.mem_set, Machine.mem_set, hmemd, hspc, hmemc]
    rw [isrWrites, show [(88, m.cp0 (14, 0)), (92, m.hi), (96, m.lo)] =
      [((88 : UInt32), m.cp0 (14, 0))] ++ [(92, m.hi), (96, m.lo)] from rfl, writes_append,
      writes_append]
    congr 1
    · simp only [List.map_cons, List.map_nil]
      rw [hspecialc .hi, hspecialc .lo]
      rfl

/-! ### Restoring -/

theorem execAll_isrRestore {sp : UInt32} (hsp : c.get .sp = sp - 104) (halign : Aligned sp)
    (hroom : NoOverflow sp (-104)) :
    ∃ d, execAll isrRestore c = some d ∧
      (∀ x ∈ isrGpr, d.get x.1 = c.mem (sp - 104 + x.2)) ∧ d.get .sp = sp ∧
      (∀ r ∉ (isrLoads.map Prod.fst), r ≠ .sp → d.get r = c.get r) ∧
      d.hi = c.mem (sp - 104 + 92) ∧ d.lo = c.mem (sp - 104 + 96) ∧
      d.cp0 (14, 0) = c.mem (sp - 104 + 88) ∧ d.mem = c.mem := by
  have hbase : sp + (-104) = sp - 104 := (UInt32.sub_eq_add_neg _ _).symm
  obtain ⟨gpr, hloads, hloaded, hothers⟩ := execAll_loads (m := c) .sp isrLoads
    (aligned_frame halign hsp (List.all_iff_forall_prop.mp (by decide))) (by decide) (by decide)
  have hgprSp : gpr .sp = sp - 104 :=
    (hothers _ (by decide)).trans ((Machine.get_of_ne _ (by decide)).symm.trans hsp)
  let word := fun offset => c.mem (sp - 104 + offset)
  have hword : ∀ x ∈ isrLoads, gpr x.1 = word x.2 := fun x hx =>
    (hloaded x hx).trans (congrArg (fun a => c.mem (a + x.2)) hsp)
  let high : Machine := { c with
    gpr := gpr
    hi := gpr .k1 }
  let low : Machine := { high with
    gpr := Function.update gpr .k1 (word 96)
    lo := word 96 }
  have hlw : (Op.lw .k1 96 .sp).exec high = some (high.set .k1 (word 96)) :=
    exec_lw ((Machine.get_of_ne _ (by decide)).trans hgprSp)
      ((aligned_word_iff (by decide)).mpr halign)
  have hmtlo : (Op.mtlo .k1).exec (high.set .k1 (word 96)) = some low := rfl
  have haddi : (Op.addi .sp .sp 104).exec low = some (low.set .sp sp) := by
    have hlow : low.get .sp = sp - 104 := (Machine.get_of_ne _ (by decide)).trans hgprSp
    have hback : NoOverflow (sp - 104) 104 := hbase ▸ hroom.undo (by decide)
    rw [Op.exec, hlow, if_pos hback, UInt32.sub_add_cancel]
  let last : Machine := { low.set .sp sp with
    cp0 := Function.update c.cp0 (14, 0) (gpr .k0) }
  refine ⟨last, ?_, fun x hx => ?_, Machine.get_set (m := low) _ (by decide), fun r hr hsp => ?_,
    hword (.k1, 92) (by decide), rfl, ?_, rfl⟩
  · rw [isrRestore, execAll_append, hloads, Option.bind_some,
      execAll_cons (show _ = some high from rfl), execAll_cons hlw, execAll_cons hmtlo,
      execAll_cons haddi]
    rfl
  · have hne : ∀ x ∈ isrGpr, x.1 ≠ 0 ∧ x.1 ≠ .sp ∧ x.1 ≠ .k1 :=
      List.all_iff_forall_prop.mp (by decide)
    obtain ⟨hzero, hsp, hk1⟩ := hne x hx
    rw [Machine.get_of_ne _ hzero]
    exact (Function.update_of_ne hsp _ _).trans ((Function.update_of_ne hk1 _ _).trans
      (hword x (List.mem_append_left _ hx)))
  · have hk1 : r ≠ .k1 := fun heq => hr (heq ▸ by decide)
    rw [show last.get r = (low.set .sp sp).get r from rfl, Machine.get_set_of_ne _ hsp]
    unfold Machine.get
    split
    · rfl
    · exact (Function.update_of_ne hk1 _ _).trans (hothers r hr)
  · have hepc : last.cp0 (14, 0) = gpr .k0 := by simp [last]
    exact hepc.trans (hword (.k0, 88) (by decide))

/-! ### The routine -/

/-- The words of the frame hold the registers at the call, and still do at the return. -/
theorem Conforms.word {c c' : Machine} (h : Conforms c c') {sp offset word : UInt32}
    (hsp : c.get .sp = sp - 104) (hmem : c.mem = writes (sp - 104) (isrWrites m) m.mem)
    (hx : (offset, word) ∈ isrWrites m) (hlow : 16 ≤ offset) (hhigh : offset < 104) :
    c'.mem (sp - 104 + offset) = word := by
  have hnodup : ((isrWrites m).map Prod.fst).Nodup := by
    rw [show (isrWrites m).map Prod.fst = isrGpr.map Prod.snd ++ [88, 92, 96] from rfl]
    decide
  rw [← hsp, h.frame _ hhigh hlow, hmem, hsp]
  exact writes_apply hnodup hx

theorem isrGpr_offset : ∀ x ∈ isrGpr, 16 ≤ x.2 ∧ x.2 < 104 :=
  List.all_iff_forall_prop.mp (by decide)

theorem calleeSaved_ne : ∀ r ∈ calleeSaved, r ≠ .ra := by decide

/-- Every register but `k0` and `k1` is zero, the stack pointer, on the stack, or left alone. -/
theorem isr_registers : ∀ r : Reg, r ≠ .k0 → r ≠ .k1 → r = 0 ∨ r = .sp ∨ r ∈ isrGpr.map Prod.fst ∨
    (r ∈ calleeSaved ∧ r ∉ isrLoads.map Prod.fst ∧ r ≠ .sp) := by
  decide

/-- The routine runs to its end, with the stack pointer of a stack, when the handler returns. -/
theorem isr_resumes (link : Nat → UInt32) (halign : Aligned (m.get .sp))
    (hroom : NoOverflow (m.get .sp) (-104))
    (hhandler : ∀ c, ∃ c', function handler c = some c' ∧ Conforms c c') :
    ∃ c c' m', function handler c = some c' ∧ c.get .a0 = m.cp0 (12, 0) ∧
      c.get .a1 = m.cp0 (13, 0) ∧ c.mem = writes (m.get .sp - 104) (isrWrites m) m.mem ∧
      Reaches (isr handler) link function (.before m 0) ⟨m', .left, .left⟩ ∧ Resumes m m' ∧
      m'.mem = c'.mem := by
  obtain ⟨c, hsave, ht9, ha0, ha1, hsp, hsaved, -, hmem⟩ := execAll_isrSave handler halign hroom
  have hsaving : Reaches (isr handler) link function (.before m 0) (.before c 28) :=
    reaches_block (isrSave handler) ⟨_, rfl⟩ hsave
  have hjump : Reaches (isr handler) link function (.before c 28)
      ⟨c.set .ra (link 30), .call handler 30, .call handler 30⟩ := by
    rw [← ht9]
    exact reaches_call rfl rfl rfl
  obtain ⟨c', hcall, hconf⟩ := hhandler (c.set .ra (link 30))
  have hsp₁ : (c.set .ra (link 30)).get .sp = m.get .sp - 104 :=
    (Machine.get_set_of_ne _ (by decide)).trans hsp
  have hsp' : c'.get .sp = m.get .sp - 104 := (hconf.saved .sp (by decide)).trans hsp₁
  obtain ⟨d, hrestore, hloaded, hspd, hothers, hhi, hlo, hepc, hmemd⟩ :=
    execAll_isrRestore hsp' halign hroom
  have hrestoring : Reaches (isr handler) link function (.before c' 30) (.before d 55) :=
    reaches_block isrRestore ⟨_, rfl⟩ hrestore
  have hword := fun {offset word} (hx : (offset, word) ∈ isrWrites m) => hconf.word hsp₁ hmem hx
  refine ⟨c.set .ra (link 30), c', d, hcall, ?_, ?_, hmem,
    (((hsaving.trans hjump).trans (reaches_return hcall)).trans hrestoring).trans
    (reaches_eret rfl), ⟨?_, ?_, ?_, ?_⟩, hmemd⟩
  · rw [Machine.get_set_of_ne _ (by decide), ha0]
  · rw [Machine.get_set_of_ne _ (by decide), ha1]
  · intro r hk0 hk1
    rcases isr_registers r hk0 hk1 with rfl | rfl | hframe | ⟨hkept, hunloaded, hne⟩
    · rw [Machine.get_zero, Machine.get_zero]
    · exact hspd
    · obtain ⟨x, hx, rfl⟩ := List.mem_map.mp hframe
      rw [hloaded x hx]
      have hmem : (x.2, m.get x.1) ∈ isrWrites m := List.mem_append_left _
        (List.mem_map_of_mem (f := fun x : Reg × UInt32 => (x.2, m.get x.1)) hx)
      exact hword hmem (isrGpr_offset x hx).1 (isrGpr_offset x hx).2
    · rw [hothers r hunloaded hne, hconf.saved r hkept,
        Machine.get_set_of_ne _ (calleeSaved_ne r hkept), hsaved r hkept hne]
  · exact hhi.trans
      (hword (List.mem_append_right _ (.tail _ (.head _))) (by decide) (by decide))
  · exact hlo.trans
      (hword (List.mem_append_right _ (.tail _ (.tail _ (.head _)))) (by decide) (by decide))
  · exact hepc.trans (hword (List.mem_append_right _ (.head _)) (by decide) (by decide))

/-- The routine resumes the interrupted code exactly when the stack pointer is aligned and has room
below it; otherwise its first instructions raise an exception. -/
theorem isr_resumes_iff (hhandler : ∀ c, ∃ c', function handler c = some c' ∧ Conforms c c')
    (m : Machine) :
    ((∃ m', Reaches (isr handler) link function (.before m 0) ⟨m', .left, .left⟩) ↔
        Aligned (m.get .sp) ∧ NoOverflow (m.get .sp) (-104)) ∧
      ∀ m', Reaches (isr handler) link function (.before m 0) ⟨m', .left, .left⟩ →
        Resumes m m' := by
  have hneeds : ∀ {m'}, Reaches (isr handler) link function (.before m 0) ⟨m', .left, .left⟩ →
      Aligned (m.get .sp) ∧ NoOverflow (m.get .sp) (-104) := by
    intro m' hreach
    have hleft : ∀ i (c : Machine), (⟨m', .left, .left⟩ : State) ≠ .before c i :=
      fun i c heq => Place.noConfusion (congrArg State.pc heq)
    by_cases hroom : NoOverflow (m.get .sp) (-104)
    · refine ⟨by_contra fun halign => ?_, hroom⟩
      have hfirst : step (isr handler) link function (.before m 0) =
          some (.before (m.set .sp (m.get .sp + (-104))) 1) := by
        rw [step_op (o := .addi .sp .sp (-104)) rfl, Op.exec, if_pos hroom]
        rfl
      refine hleft 1 _ (Reaches.eq_of_stuck (hreach.of_step (hleft 0 m) hfirst) ?_)
      rw [step_op (o := .sw .at 16 .sp) rfl, Op.exec, Machine.get_set _ (by decide), if_neg]
      · rfl
      · intro hword
        rw [← UInt32.sub_eq_add_neg] at hword
        exact halign ((aligned_word_iff (by decide)).mp hword)
    · refine absurd (Reaches.eq_of_stuck hreach ?_) (hleft 0 m)
      rw [step_op (o := .addi .sp .sp (-104)) rfl, Op.exec, if_neg hroom]
      rfl
  refine ⟨⟨fun h => hneeds h.choose_spec, fun h => ?_⟩, fun m' hreach => ?_⟩
  · obtain ⟨halign, hroom⟩ := h
    obtain ⟨-, -, m', -, -, -, -, hreach, -⟩ := isr_resumes link halign hroom hhandler
    exact ⟨m', hreach⟩
  · obtain ⟨halign, hroom⟩ := hneeds hreach
    obtain ⟨-, -, m'', -, -, -, -, hresumes, hkept, -⟩ :=
      isr_resumes link halign hroom hhandler
    exact hreach.left_unique hresumes ▸ hkept

/-- A handler that uses a temporary register and the room for its arguments. -/
def clobber (c : Machine) : Machine :=
  { c.set .t0 7 with mem := Function.update c.mem (c.get .sp) 5 }

theorem conforms_clobber (c : Machine) : Conforms c (clobber c) where
  saved r hr := Machine.get_set_of_ne (m := c) _ fun heq => absurd hr (heq ▸ by decide)
  frame offset _ hlow := by
    refine Function.update_of_ne (fun heq => ?_) _ _
    rw [UInt32.add_eq_left] at heq
    exact absurd hlow (heq ▸ by decide)

theorem isr_resumes_clobber :
    ∃ m', Reaches (isr 0x80001000) (fun _ => 0) (fun _ c => some (clobber c))
      (.before ⟨fun _ => 0x80007000, 1, 2, fun _ => 0, fun _ => 0⟩ 0) ⟨m', .left, .left⟩ :=
  (isr_resumes_iff (fun c => ⟨clobber c, rfl, conforms_clobber c⟩) _).1.mpr ⟨by decide, by decide⟩

end PrplHypervisor.Guest
