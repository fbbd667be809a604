import Mathlib.Data.Nat.Bitwise
import Mathlib.Data.List.Basic
import PrplHypervisor.Lib.Runs
import PrplHypervisor.Lib.Words

/-! The interrupts of a bare-metal guest (`platform.c` of both platforms): the table that
`interrupt_register` fills, and `_irq_handler`, which calls its functions for the bits of the RIPL
field.  A function may register others while it runs. -/

namespace PrplHypervisor.Guest

open Lib.Runs

def NUM_GUEST_INTERRUPTS : Nat := 10

/-- The loop of `interrupt_register` over the slots that are left; 0 is `NULL`. -/
def registerLoop (handlers : Nat → UInt32) (handler interrupt : UInt32) :
    List Nat → UInt32 × (Nat → UInt32)
  | [] => (0, handlers)
  | i :: is =>
    if interrupt &&& (1 <<< UInt32.ofNat i) ≠ 0 ∧ handlers i = 0 then
      (handler, Function.update handlers i handler)
    else registerLoop handlers handler interrupt is

def interruptRegister (handlers : Nat → UInt32) (handler interrupt : UInt32) :
    UInt32 × (Nat → UInt32) :=
  registerLoop handlers handler interrupt (List.range NUM_GUEST_INTERRUPTS)

/-- The table, the functions that were called, and the other data of the guest. -/
structure Interrupts (Data : Type*) where
  handlers : Nat → UInt32
  served : List UInt32
  data : Data

/-- What a function registers when it is called, which depends on the data, and on the table through
what its registrations return. -/
abbrev Bodies (Data : Type*) := UInt32 → (Nat → UInt32) → Data → List (UInt32 × UInt32) × Data

variable {Data : Type*}

def registerAll (handlers : Nat → UInt32) (calls : List (UInt32 × UInt32)) : Nat → UInt32 :=
  calls.foldl (fun table r => (interruptRegister table r.1 r.2).2) handlers

/-- The loop body of `_irq_handler` for a bit that is set. -/
def serve (bodies : Bodies Data) (s : Interrupts Data) (i : Nat) : Interrupts Data :=
  if s.handlers i ≠ 0 then
    let (calls, data) := bodies (s.handlers i) s.handlers s.data
    ⟨registerAll s.handlers calls, s.served ++ [s.handlers i], data⟩
  else s

def riplLoop (bodies : Bodies Data) :
    Nat → Nat → UInt32 → Interrupts Data → Option (Interrupts Data)
  | 0, _, _, _ => none
  | fuel + 1, i, ripl, s =>
    let s := if ripl &&& 1 ≠ 0 then serve bodies s i else s
    if ripl >>> 1 ≠ 0 then riplLoop bodies fuel (i + 1) (ripl >>> 1) s else some s

def irqHandler (bodies : Bodies Data) (cause : UInt32) (s : Interrupts Data) :
    Option (Interrupts Data) :=
  riplLoop bodies 8 0 ((cause &&& 0x3fc00) >>> 10) s

/-- After `init_proc`, the guest registers a function, takes an interrupt, or does something else.
-/
inductive InterruptEvent (Data : Type*)
  | register (handler interrupt : UInt32)
  | interrupt (cause : UInt32)
  | work (data : Data)

def interruptStep (bodies : Bodies Data) (s : Interrupts Data) :
    InterruptEvent Data → Option (Interrupts Data)
  | .register handler interrupt =>
    some { s with handlers := (interruptRegister s.handlers handler interrupt).2 }
  | .interrupt cause => irqHandler bodies cause s
  | .work data => some { s with data := data }

/-! ### The table -/

/-- Functions stay in their slots. -/
def Grows (before after : Nat → UInt32) : Prop := ∀ i, before i ≠ 0 → after i = before i

theorem Grows.trans {f g h : Nat → UInt32} (hfg : Grows f g) (hgh : Grows g h) : Grows f h :=
  fun i hi => (hgh i ((hfg i hi).symm ▸ hi)).trans (hfg i hi)

/-- A registration takes one free slot whose bit is set, or none. -/
theorem registerLoop_cases (handlers : Nat → UInt32) (handler interrupt : UInt32)
    (slots : List Nat) :
    (∃ i ∈ slots, interrupt &&& (1 <<< UInt32.ofNat i) ≠ 0 ∧ handlers i = 0 ∧
        registerLoop handlers handler interrupt slots =
          (handler, Function.update handlers i handler)) ∨
      ((∀ i ∈ slots, interrupt &&& (1 <<< UInt32.ofNat i) ≠ 0 → handlers i ≠ 0) ∧
        registerLoop handlers handler interrupt slots = (0, handlers)) := by
  induction slots with
  | nil => exact Or.inr ⟨fun _ h => absurd h List.not_mem_nil, rfl⟩
  | cons i is ih =>
    rw [registerLoop]
    split
    · rename_i hfree
      exact Or.inl ⟨i, List.mem_cons_self, hfree.1, hfree.2, rfl⟩
    · rename_i htaken
      rcases ih with ⟨j, hj, hbit, hfree, heq⟩ | ⟨htakenAll, heq⟩
      · exact Or.inl ⟨j, List.mem_cons_of_mem _ hj, hbit, hfree, heq⟩
      · refine Or.inr ⟨fun j hj hbit hzero => ?_, heq⟩
        rcases List.mem_cons.mp hj with rfl | hj
        · exact htaken ⟨hbit, hzero⟩
        · exact htakenAll j hj hbit hzero

theorem interruptRegister_grows (handlers : Nat → UInt32) (handler interrupt : UInt32) :
    Grows handlers (interruptRegister handlers handler interrupt).2 := by
  intro j hj
  rcases registerLoop_cases handlers handler interrupt (List.range NUM_GUEST_INTERRUPTS) with
    ⟨i, -, -, hfree, heq⟩ | ⟨-, heq⟩
  · rw [interruptRegister, heq]
    refine Function.update_of_ne ?_ _ _
    rintro rfl
    exact hj hfree
  · rw [interruptRegister, heq]

theorem registerAll_grows (handlers : Nat → UInt32) (calls : List (UInt32 × UInt32)) :
    Grows handlers (registerAll handlers calls) := by
  induction calls generalizing handlers with
  | nil => exact fun _ _ => rfl
  | cons r calls ih => exact (interruptRegister_grows handlers r.1 r.2).trans (ih _)

theorem serve_grows (bodies : Bodies Data) (s : Interrupts Data) (i : Nat) :
    Grows s.handlers (serve bodies s i).handlers := by
  unfold serve
  split
  · exact registerAll_grows _ _
  · exact fun _ _ => rfl

/-! ### One interrupt -/

def serveAll (bodies : Bodies Data) (s : Interrupts Data) (slots : List Nat) :
    Interrupts Data :=
  slots.foldl (serve bodies) s

theorem serveAll_append (bodies : Bodies Data) (s : Interrupts Data) (slots slots' : List Nat) :
    serveAll bodies s (slots ++ slots') = serveAll bodies (serveAll bodies s slots) slots' :=
  List.foldl_append

theorem serveAll_grows (bodies : Bodies Data) (s : Interrupts Data) (slots : List Nat) :
    Grows s.handlers (serveAll bodies s slots).handlers := by
  induction slots generalizing s with
  | nil => exact fun _ _ => rfl
  | cons i is ih => exact (serve_grows bodies s i).trans (ih _)

/-- The functions of slots that are in a table. -/
def inSlots (handlers : Nat → UInt32) (slots : List Nat) : List UInt32 :=
  (slots.filter fun i => handlers i ≠ 0).map handlers

theorem inSlots_cons (handlers : Nat → UInt32) (i : Nat) (is : List Nat) :
    inSlots handlers (i :: is) =
      if handlers i ≠ 0 then handlers i :: inSlots handlers is else inSlots handlers is := by
  unfold inSlots
  rw [List.filter_cons]
  split <;> rename_i h
  · rw [if_pos (of_decide_eq_true h), List.map_cons]
  · rw [if_neg fun hne => h (decide_eq_true hne)]

/-- A table that has grown has the functions of the earlier one. -/
theorem Grows.inSlots_sublist {f g : Nat → UInt32} (h : Grows f g) (slots : List Nat) :
    (inSlots f slots).Sublist (inSlots g slots) := by
  induction slots with
  | nil => exact List.Sublist.slnil
  | cons i is ih =>
    rw [inSlots_cons, inSlots_cons]
    by_cases hf : f i ≠ 0
    · rw [if_pos hf, if_pos (by rw [h i hf]; exact hf), h i hf]
      exact ih.cons_cons _
    · rw [if_neg hf]
      split
      · exact ih.cons _
      · exact ih

/-- What is called for the bits of an interrupt: all functions that were in their slots before it,
and none that is not there after it. -/
theorem serveAll_served (bodies : Bodies Data) (s : Interrupts Data) (slots : List Nat) :
    ∃ calls, (serveAll bodies s slots).served = s.served ++ calls ∧
      (inSlots s.handlers slots).Sublist calls ∧
      calls.Sublist (inSlots (serveAll bodies s slots).handlers slots) := by
  induction slots generalizing s with
  | nil => exact ⟨[], (List.append_nil _).symm, .slnil, .slnil⟩
  | cons i is ih =>
    obtain ⟨calls, hserved, hbefore, hafter⟩ := ih (serve bodies s i)
    have hgrows := serve_grows bodies s i
    have hlater := serveAll_grows bodies (serve bodies s i) is
    have hstep : serveAll bodies s (i :: is) = serveAll bodies (serve bodies s i) is := rfl
    rw [hstep, inSlots_cons, inSlots_cons]
    by_cases hslot : s.handlers i ≠ 0
    · have hhandler : (serveAll bodies (serve bodies s i) is).handlers i = s.handlers i :=
        hgrows.trans hlater i hslot
      have hcall : (serve bodies s i).served = s.served ++ [s.handlers i] := by
        rw [serve, if_pos hslot]
      refine ⟨s.handlers i :: calls, ?_, ?_, ?_⟩
      · rw [hserved, hcall, List.append_assoc, List.singleton_append]
      · rw [if_pos hslot]
        exact ((hgrows.inSlots_sublist is).trans hbefore).cons_cons _
      · rw [hhandler, if_pos hslot]
        exact hafter.cons_cons _
    · have hsame : serve bodies s i = s := if_neg hslot
      rw [hsame] at hserved hbefore hafter ⊢
      refine ⟨calls, hserved, ?_, ?_⟩
      · rw [if_neg hslot]
        exact hbefore
      · split
        · exact hafter.cons _
        · exact hafter

/-- The loop serves the bits of `ripl` that are set, from the lowest on. -/
theorem riplLoop_eq (bodies : Bodies Data) {fuel i ripl : Nat} {word : UInt32} {s : Interrupts Data}
    (hword : word.toNat = ripl / 2 ^ i) (hfuel : ripl < 2 ^ (i + fuel)) (hpos : 0 < fuel) :
    riplLoop bodies fuel i word s =
      some (serveAll bodies s ((List.range' i fuel).filter ripl.testBit)) := by
  induction fuel generalizing i word s with
  | zero => exact absurd hpos (Nat.lt_irrefl 0)
  | succ fuel ih =>
    have hbit : word &&& 1 ≠ 0 ↔ ripl.testBit i = true := by
      have h := Lib.Words.hasBits_testBit (x := word) (m := 1) (k := 0) rfl
      rw [Lib.Words.HasBits, hword] at h
      rw [h, Nat.testBit_div_two_pow, Nat.zero_add]
    have hhead : (if word &&& 1 ≠ 0 then serve bodies s i else s) =
        serveAll bodies s ([i].filter ripl.testBit) := by
      by_cases h : ripl.testBit i = true
      · rw [if_pos (hbit.mpr h), List.filter_cons_of_pos h]
        rfl
      · rw [if_neg fun hword => h (hbit.mp hword), List.filter_cons_of_neg h]
        rfl
    have hshift : (word >>> 1).toNat = ripl / 2 ^ (i + 1) := by
      rw [Lib.Words.toNat_shiftRight (k := 1) rfl (by decide), hword, Nat.div_div_eq_div_mul,
        ← Nat.pow_add]
    have hslots : (List.range' i (fuel + 1)).filter ripl.testBit =
        [i].filter ripl.testBit ++ (List.range' (i + 1) fuel).filter ripl.testBit := by
      rw [List.range'_succ, ← List.filter_append, List.singleton_append]
    rw [riplLoop, hhead, hslots, serveAll_append]
    by_cases hmore : word >>> 1 ≠ 0
    · have hquotient : ripl / 2 ^ (i + 1) ≠ 0 := fun h =>
        hmore (UInt32.toNat_inj.mp (hshift.trans h))
      have hleft : 0 < fuel := by
        refine Nat.pos_of_ne_zero fun h => hquotient (Nat.div_eq_of_lt ?_)
        rwa [h] at hfuel
      rw [if_pos hmore]
      exact ih hshift (by rwa [Nat.add_right_comm i 1 fuel]) hleft
    · have hrest : (List.range' (i + 1) fuel).filter ripl.testBit = [] := by
        have hquotient : ripl / 2 ^ (i + 1) = 0 := by
          rw [← hshift, not_not.mp hmore]
          rfl
        have hlt : ripl < 2 ^ (i + 1) := Nat.lt_of_div_eq_zero (Nat.two_pow_pos _) hquotient
        refine List.filter_eq_nil_iff.mpr fun j hj => ?_
        have hle : i + 1 ≤ j := (List.mem_range'_1.mp hj).1
        rw [Nat.testBit_lt_two_pow (Nat.lt_of_lt_of_le hlt (Nat.pow_le_pow_right Nat.two_pos hle))]
        exact Bool.false_ne_true
      rw [if_neg hmore, hrest]
      rfl

/-- The slots of the bits that the RIPL field has. -/
def pendingSlots (cause : UInt32) : List Nat :=
  (List.range 8).filter fun i => cause.toNat.testBit (10 + i)

theorem irqHandler_eq (bodies : Bodies Data) (cause : UInt32) (s : Interrupts Data) :
    irqHandler bodies cause s = some (serveAll bodies s (pendingSlots cause)) := by
  have hfield : ((cause &&& 0x3fc00) >>> 10).toNat = cause.toNat / 2 ^ 10 % 2 ^ 8 / 2 ^ 0 := by
    rw [Lib.Words.toNat_shiftRight (k := 10) rfl (by decide), UInt32.toNat_and,
      show UInt32.toNat 0x3fc00 = (2 ^ 8 - 1) <<< 10 from rfl, ← Nat.shiftRight_eq_div_pow,
      Nat.shiftRight_and_distrib, Nat.shiftLeft_shiftRight, Nat.and_two_pow_sub_one_eq_mod,
      Nat.shiftRight_eq_div_pow, Nat.pow_zero, Nat.div_one]
  have hlt : cause.toNat / 2 ^ 10 % 2 ^ 8 < 2 ^ (0 + 8) := Nat.mod_lt _ (by decide)
  rw [irqHandler, riplLoop_eq bodies hfield hlt (by decide), pendingSlots, List.range_eq_range']
  congr 2
  refine List.filter_congr fun i hi => ?_
  have hi8 : i < 8 := by
    have := (List.mem_range'_1.mp hi).2
    omega
  rw [Nat.testBit_mod_two_pow, Nat.testBit_div_two_pow, decide_eq_true hi8, Bool.true_and,
    Nat.add_comm]

/-- A guest that registers functions in any order, some of them while others run: every interrupt
returns and calls, from the lowest bit on, every function that was in the slot of a pending bit
before it, and only functions that are there after it; a function stays in its slot for ever.
Functions in the last two slots are never called, because RIPL has eight bits. -/
theorem interrupts_served (bodies : Bodies Data) (s : Interrupts Data)
    (es : List (InterruptEvent Data))
    (cause : UInt32) :
    ∃ t u calls, run (interruptStep bodies) s es = some t ∧ Grows s.handlers t.handlers ∧
      interruptStep bodies t (.interrupt cause) = some u ∧ u.served = t.served ++ calls ∧
      (inSlots t.handlers (pendingSlots cause)).Sublist calls ∧
      calls.Sublist (inSlots u.handlers (pendingSlots cause)) := by
  have hstep : ∀ a : Interrupts Data, ∀ e, e ∈ es → Grows s.handlers a.handlers →
      ∃ b, interruptStep bodies a e = some b ∧ Grows s.handlers b.handlers := by
    intro a e _ hgrows
    cases e with
    | register handler interrupt =>
      exact ⟨_, rfl, hgrows.trans (interruptRegister_grows _ _ _)⟩
    | interrupt cause =>
      exact ⟨_, irqHandler_eq bodies cause a, hgrows.trans (serveAll_grows _ _ _)⟩
    | work data => exact ⟨_, rfl, hgrows⟩
  obtain ⟨t, hrun, hgrows⟩ := run_defined hstep fun _ _ => rfl
  obtain ⟨calls, hserved, hbefore, hafter⟩ := serveAll_served bodies t (pendingSlots cause)
  exact ⟨t, _, calls, hrun, hgrows, irqHandler_eq bodies cause t, hserved, hbefore, hafter⟩

end PrplHypervisor.Guest
