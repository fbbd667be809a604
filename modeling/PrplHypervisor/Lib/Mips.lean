import Mathlib.Algebra.Order.Ring.Int
import Mathlib.Logic.Function.Basic
import Mathlib.Logic.Relation

/-! Code for a MIPS32 processor: the instructions that startup code and interrupt vectors are
written with, one processor that takes them one by one, and rules for code without jumps, for a
series of stores and for one of loads.  An instruction that follows a jump is taken before the
jump. -/

namespace Lib.Mips

/-- Number of a general register. -/
abbrev Reg := Fin 32

namespace Reg

abbrev zero : Reg := 0
abbrev «at» : Reg := 1
abbrev v0 : Reg := 2
abbrev v1 : Reg := 3
abbrev a0 : Reg := 4
abbrev a1 : Reg := 5
abbrev a2 : Reg := 6
abbrev a3 : Reg := 7
abbrev t0 : Reg := 8
abbrev t1 : Reg := 9
abbrev t2 : Reg := 10
abbrev t3 : Reg := 11
abbrev t4 : Reg := 12
abbrev t5 : Reg := 13
abbrev t6 : Reg := 14
abbrev t7 : Reg := 15
abbrev s0 : Reg := 16
abbrev s1 : Reg := 17
abbrev s2 : Reg := 18
abbrev s3 : Reg := 19
abbrev s4 : Reg := 20
abbrev s5 : Reg := 21
abbrev s6 : Reg := 22
abbrev s7 : Reg := 23
abbrev t8 : Reg := 24
abbrev t9 : Reg := 25
abbrev k0 : Reg := 26
abbrev k1 : Reg := 27
abbrev gp : Reg := 28
abbrev sp : Reg := 29
abbrev fp : Reg := 30
abbrev ra : Reg := 31

end Reg

/-- Registers, and the memory by the addresses of its words.  `cp0` takes the number of a register
and a select. -/
structure Machine where
  gpr : Reg → UInt32
  hi : UInt32
  lo : UInt32
  cp0 : Nat × Nat → UInt32
  mem : UInt32 → UInt32

/-- Register zero reads as zero. -/
def Machine.get (m : Machine) (r : Reg) : UInt32 := if r = 0 then 0 else m.gpr r

def Machine.set (m : Machine) (r : Reg) (x : UInt32) : Machine :=
  { m with gpr := Function.update m.gpr r x }

/-- Instructions that do not jump.  `la` stands for any load of a constant. -/
inductive Op
  | addi (rt rs : Reg) (imm : UInt32)
  | addiu (rt rs : Reg) (imm : UInt32)
  | slt (rd rs rt : Reg)
  | la (rt : Reg) (word : UInt32)
  | lw (rt : Reg) (offset : UInt32) (base : Reg)
  | sw (rt : Reg) (offset : UInt32) (base : Reg)
  | mfc0 (rt : Reg) (rd sel : Nat)
  | mtc0 (rt : Reg) (rd sel : Nat)
  | mfhi (rd : Reg)
  | mflo (rd : Reg)
  | mthi (rs : Reg)
  | mtlo (rs : Reg)
  | nop

/-- A sum that `addi` can represent; it traps on any other. -/
def NoOverflow (x y : UInt32) : Prop :=
  -2 ^ 31 ≤ x.toInt32.toInt + y.toInt32.toInt ∧ x.toInt32.toInt + y.toInt32.toInt < 2 ^ 31

instance NoOverflow.decidable (x y : UInt32) : Decidable (NoOverflow x y) :=
  inferInstanceAs (Decidable (_ ∧ _))

/-- The address of a word. -/
def Aligned (a : UInt32) : Prop := a.toNat % 4 = 0

instance Aligned.decidable (a : UInt32) : Decidable (Aligned a) :=
  inferInstanceAs (Decidable (_ = _))

/-- `none` is an exception. -/
def Op.exec (m : Machine) : Op → Option Machine
  | .addi rt rs imm => if NoOverflow (m.get rs) imm then some (m.set rt (m.get rs + imm)) else none
  | .addiu rt rs imm => some (m.set rt (m.get rs + imm))
  | .slt rd rs rt => some (m.set rd (if (m.get rs).toInt32 < (m.get rt).toInt32 then 1 else 0))
  | .la rt word => some (m.set rt word)
  | .lw rt offset base =>
    if Aligned (m.get base + offset) then some (m.set rt (m.mem (m.get base + offset))) else none
  | .sw rt offset base =>
    if Aligned (m.get base + offset) then
      some { m with mem := Function.update m.mem (m.get base + offset) (m.get rt) }
    else none
  | .mfc0 rt rd sel => some (m.set rt (m.cp0 (rd, sel)))
  | .mtc0 rt rd sel => some { m with cp0 := Function.update m.cp0 (rd, sel) (m.get rt) }
  | .mfhi rd => some (m.set rd m.hi)
  | .mflo rd => some (m.set rd m.lo)
  | .mthi rs => some { m with hi := m.get rs }
  | .mtlo rs => some { m with lo := m.get rs }
  | .nop => some m

/-- Instructions in code, where a jump has a place of the code as its target. -/
inductive Instr
  | op (o : Op)
  | bnez (rs : Reg) (target : Nat)
  | b (target : Nat)
  | jal (function : UInt32)
  | jalr (rs : Reg)
  | eret

/-- Where the processor is: in the code, at the entry of a function that returns to `ret`, or back
in what the code has interrupted. -/
inductive Place
  | code (i : Nat)
  | call (function : UInt32) (ret : Nat)
  | left

def Place.next : Place → Place
  | .code i => .code (i + 1)
  | p => p

/-- `next` is the place of the instruction after this one. -/
structure State where
  machine : Machine
  pc : Place
  next : Place

/-- The processor before the instruction `i` of the code. -/
abbrev State.before (m : Machine) (i : Nat) : State := ⟨m, .code i, .code (i + 1)⟩

section

variable (code : List Instr) (link : Nat → UInt32)
  (function : UInt32 → Machine → Option Machine)

/-- One step; `link` has the address of each instruction, and `function` is what a function does
from its entry to its return. -/
def step (s : State) : Option State :=
  match s.pc with
  | .code i =>
    match code[i]? with
    | some (.op o) => (o.exec s.machine).map fun m => ⟨m, s.next, s.next.next⟩
    | some (.bnez rs target) =>
      some ⟨s.machine, s.next, if s.machine.get rs ≠ 0 then .code target else s.next.next⟩
    | some (.b target) => some ⟨s.machine, s.next, .code target⟩
    | some (.jal f) => some ⟨s.machine.set Reg.ra (link (i + 2)), s.next, .call f (i + 2)⟩
    | some (.jalr rs) =>
      some ⟨s.machine.set Reg.ra (link (i + 2)), s.next, .call (s.machine.get rs) (i + 2)⟩
    | some .eret => some ⟨s.machine, .left, .left⟩
    | none => none
  | .call f ret => (function f s.machine).map fun m => ⟨m, .code ret, .code (ret + 1)⟩
  | .left => none

/-- The processor gets from one state to another one. -/
def Reaches : State → State → Prop :=
  Relation.ReflTransGen fun s t => step code link function s = some t

end

/-- Instructions one after the other. -/
def execAll : List Op → Machine → Option Machine
  | [], m => some m
  | o :: ops, m => (o.exec m).bind (execAll ops)

variable {code : List Instr} {link : Nat → UInt32} {function : UInt32 → Machine → Option Machine}
  {m m' : Machine} {r : Reg} {i : Nat}

theorem NoOverflow.toInt_add {x y : UInt32} (h : NoOverflow x y) :
    (x + y).toInt32.toInt = x.toInt32.toInt + y.toInt32.toInt := by
  obtain ⟨hlow, hhigh⟩ := h
  rw [UInt32.toInt32_add, Int32.toInt_add]
  exact Int.bmod_eq_of_le (by omega) (by omega)

/-- A sum that does not overflow can be undone. -/
theorem NoOverflow.undo {x y : UInt32} (h : NoOverflow x y)
    (hneg : (-y).toInt32.toInt = -y.toInt32.toInt) : NoOverflow (x + y) (-y) := by
  have hlow := x.toInt32.le_toInt
  have hhigh := x.toInt32.toInt_lt
  unfold NoOverflow
  rw [h.toInt_add, hneg]
  omega

theorem Machine.get_zero (m : Machine) : m.get 0 = 0 := if_pos rfl

theorem Machine.get_of_ne (m : Machine) (h : r ≠ 0) : m.get r = m.gpr r := if_neg h

theorem Machine.get_set (x : UInt32) (h : r ≠ 0) : (m.set r x).get r = x := by
  rw [Machine.get_of_ne _ h]
  exact Function.update_self _ _ _

theorem Machine.get_set_of_ne {r' : Reg} (x : UInt32) (h : r ≠ r') :
    (m.set r' x).get r = m.get r := by
  unfold Machine.get
  split
  · rfl
  · exact Function.update_of_ne h _ _

@[simp] theorem Machine.hi_set (m : Machine) (r : Reg) (x : UInt32) : (m.set r x).hi = m.hi := rfl

@[simp] theorem Machine.lo_set (m : Machine) (r : Reg) (x : UInt32) : (m.set r x).lo = m.lo := rfl

@[simp] theorem Machine.cp0_set (m : Machine) (r : Reg) (x : UInt32) : (m.set r x).cp0 = m.cp0 :=
  rfl

@[simp] theorem Machine.mem_set (m : Machine) (r : Reg) (x : UInt32) : (m.set r x).mem = m.mem :=
  rfl

theorem exec_lw {rt base : Reg} {a offset : UInt32} (hbase : m.get base = a)
    (halign : Aligned (a + offset)) :
    (Op.lw rt offset base).exec m = some (m.set rt (m.mem (a + offset))) := by
  rw [Op.exec, hbase, if_pos halign]

theorem execAll_cons {o : Op} {ops : List Op} (h : o.exec m = some m') :
    execAll (o :: ops) m = execAll ops m' := by
  rw [execAll, h, Option.bind_some]

theorem execAll_append (ops ops' : List Op) (m : Machine) :
    execAll (ops ++ ops') m = (execAll ops m).bind (execAll ops') := by
  induction ops generalizing m with
  | nil => rfl
  | cons o ops ih =>
    rw [List.cons_append, execAll, execAll, Option.bind_assoc]
    congr 1
    funext m
    exact ih m

/-! ### Jumps -/

theorem step_op {o : Op} (h : code[i]? = some (.op o)) :
    step code link function (.before m i) = (o.exec m).map fun m' => .before m' (i + 1) := by
  simp only [step, h]
  rfl

/-- A part of the code without jumps. -/
theorem reaches_block (ops : List Op) (hcode : (ops.map Instr.op) <+: code.drop i)
    (hexec : execAll ops m = some m') :
    Reaches code link function (.before m i) (.before m' (i + ops.length)) := by
  induction ops generalizing m i with
  | nil =>
    obtain rfl := Option.some.inj hexec
    exact Relation.ReflTransGen.refl
  | cons o ops ih =>
    obtain ⟨rest, hrest⟩ := hcode
    obtain ⟨m₁, hfirst, hexec⟩ := Option.bind_eq_some_iff.mp hexec
    have hget : code[i]? = some (.op o) := by
      rw [← Nat.add_zero i, ← List.getElem?_drop, ← hrest]
      rfl
    have htail : (ops.map Instr.op) <+: code.drop (i + 1) := by
      refine ⟨rest, ?_⟩
      rw [← List.drop_drop, ← hrest]
      rfl
    have hstep : step code link function (.before m i) = some (.before m₁ (i + 1)) := by
      rw [step_op hget, hfirst]
      rfl
    rw [List.length_cons, Nat.add_comm ops.length, ← Nat.add_assoc]
    exact Relation.ReflTransGen.head hstep (ih htail hexec)

/-- A call with one instruction in its delay slot. -/
theorem reaches_call {rs : Reg} {o : Op} (hjump : code[i]? = some (.jalr rs))
    (hslot : code[i + 1]? = some (.op o)) (hexec : o.exec (m.set Reg.ra (link (i + 2))) = some m') :
    Reaches code link function (.before m i)
      ⟨m', .call (m.get rs) (i + 2), .call (m.get rs) (i + 2)⟩ := by
  have hfirst : step code link function (.before m i) =
      some ⟨m.set Reg.ra (link (i + 2)), .code (i + 1), .call (m.get rs) (i + 2)⟩ := by
    simp only [step, hjump]
  have hsecond : step code link function
      ⟨m.set Reg.ra (link (i + 2)), .code (i + 1), .call (m.get rs) (i + 2)⟩ =
      some ⟨m', .call (m.get rs) (i + 2), .call (m.get rs) (i + 2)⟩ := by
    simp only [step, hslot, hexec]
    rfl
  exact Relation.ReflTransGen.head hfirst (Relation.ReflTransGen.single hsecond)

theorem reaches_jal {f : UInt32} {o : Op} (hjump : code[i]? = some (.jal f))
    (hslot : code[i + 1]? = some (.op o)) (hexec : o.exec (m.set Reg.ra (link (i + 2))) = some m') :
    Reaches code link function (.before m i) ⟨m', .call f (i + 2), .call f (i + 2)⟩ := by
  have hfirst : step code link function (.before m i) =
      some ⟨m.set Reg.ra (link (i + 2)), .code (i + 1), .call f (i + 2)⟩ := by
    simp only [step, hjump]
  have hsecond : step code link function
      ⟨m.set Reg.ra (link (i + 2)), .code (i + 1), .call f (i + 2)⟩ =
      some ⟨m', .call f (i + 2), .call f (i + 2)⟩ := by
    simp only [step, hslot, hexec]
    rfl
  exact Relation.ReflTransGen.head hfirst (Relation.ReflTransGen.single hsecond)

theorem reaches_return {f : UInt32} {ret : Nat} (hf : function f m = some m') :
    Reaches code link function ⟨m, .call f ret, .call f ret⟩ (.before m' ret) := by
  apply Relation.ReflTransGen.single
  simp only [step, hf]
  rfl

theorem reaches_b {o : Op} {target : Nat} (hjump : code[i]? = some (.b target))
    (hslot : code[i + 1]? = some (.op o)) (hexec : o.exec m = some m') :
    Reaches code link function (.before m i) (.before m' target) := by
  have hfirst : step code link function (.before m i) =
      some ⟨m, .code (i + 1), .code target⟩ := by
    simp only [step, hjump]
  have hsecond : step code link function ⟨m, .code (i + 1), .code target⟩ =
      some (.before m' target) := by
    simp only [step, hslot, hexec]
    rfl
  exact Relation.ReflTransGen.head hfirst (Relation.ReflTransGen.single hsecond)

theorem reaches_eret (h : code[i]? = some .eret) :
    Reaches code link function (.before m i) ⟨m, .left, .left⟩ := by
  apply Relation.ReflTransGen.single
  simp only [step, h]

/-- A loop that ends in `bnez` with one instruction in its delay slot, jumping back or not. -/
theorem reaches_bnez {rs : Reg} {o : Op} {target : Nat} (hjump : code[i]? = some (.bnez rs target))
    (hslot : code[i + 1]? = some (.op o)) (hexec : o.exec m = some m') :
    Reaches code link function (.before m i)
      (.before m' (if m.get rs ≠ 0 then target else i + 2)) := by
  have hfirst : step code link function (.before m i) =
      some ⟨m, .code (i + 1), .code (if m.get rs ≠ 0 then target else i + 2)⟩ := by
    simp only [step, hjump, Place.next, apply_ite Place.code]
  have hsecond : step code link function
      ⟨m, .code (i + 1), .code (if m.get rs ≠ 0 then target else i + 2)⟩ =
      some (.before m' (if m.get rs ≠ 0 then target else i + 2)) := by
    simp only [step, hslot, hexec]
    rfl
  exact Relation.ReflTransGen.head hfirst (Relation.ReflTransGen.single hsecond)

/-- A state that steps no further reaches only itself. -/
theorem Reaches.eq_of_stuck {s t : State} (h : Reaches code link function s t)
    (hstuck : step code link function s = none) : t = s := by
  rcases h.cases_head with heq | ⟨u, hstep, -⟩
  · exact heq.symm
  · exact absurd (hstep.symm.trans hstuck) (Option.some_ne_none u)

/-- What is reached is reached through the next state. -/
theorem Reaches.of_step {s u t : State} (h : Reaches code link function s t) (hne : t ≠ s)
    (hstep : step code link function s = some u) : Reaches code link function u t := by
  rcases h.cases_head with heq | ⟨v, hv, hreach⟩
  · exact absurd heq.symm hne
  · exact Option.some.inj (hv.symm.trans hstep) ▸ hreach

/-- The processor stops in one state only. -/
theorem Reaches.stuck_unique {s t u : State} (ht : Reaches code link function s t)
    (hu : Reaches code link function s u) (htstuck : step code link function t = none)
    (hustuck : step code link function u = none) : t = u := by
  have hunique : Relator.RightUnique fun s t => step code link function s = some t :=
    fun s t u ht hu => Option.some.inj (ht.symm.trans hu)
  rcases Relation.ReflTransGen.total_of_right_unique hunique ht hu with hreach | hreach
  · exact (Reaches.eq_of_stuck hreach htstuck).symm
  · exact Reaches.eq_of_stuck hreach hustuck

/-- The code returns to what it has interrupted in one state only. -/
theorem Reaches.left_unique {s : State} {c c' : Machine}
    (h : Reaches code link function s ⟨c, .left, .left⟩)
    (h' : Reaches code link function s ⟨c', .left, .left⟩) : c = c' :=
  congrArg State.machine (h.stuck_unique h' rfl rfl)

/-! ### Stores and loads -/

/-- Registers with their offsets from `base`. -/
def stores (base : Reg) (l : List (Reg × UInt32)) : List Op := l.map fun x => .sw x.1 x.2 base

def loads (base : Reg) (l : List (Reg × UInt32)) : List Op := l.map fun x => .lw x.1 x.2 base

/-- What is not a general register. -/
inductive Special
  | cp0 (rd sel : Nat)
  | hi
  | lo

def Special.read (m : Machine) : Special → UInt32
  | .cp0 rd sel => m.cp0 (rd, sel)
  | .hi => m.hi
  | .lo => m.lo

/-- The instruction that moves it to a general register. -/
def Special.move (k : Reg) : Special → Op
  | .cp0 rd sel => .mfc0 k rd sel
  | .hi => .mfhi k
  | .lo => .mflo k

/-- Special registers, each moved to `k` and stored at its offset from `base`. -/
def storesVia (k base : Reg) (l : List (Special × UInt32)) : List Op :=
  l.flatMap fun x => [x.1.move k, .sw k x.2 base]

/-- Words written at their offsets from an address, one after the other. -/
def writes (a : UInt32) (l : List (UInt32 × UInt32)) (mem : UInt32 → UInt32) : UInt32 → UInt32 :=
  l.foldl (fun mem x => Function.update mem (a + x.1) x.2) mem

variable {a : UInt32} {l : List (UInt32 × UInt32)} {mem : UInt32 → UInt32}

theorem writes_append (a : UInt32) (l l' : List (UInt32 × UInt32)) (mem : UInt32 → UInt32) :
    writes a (l ++ l') mem = writes a l' (writes a l mem) := List.foldl_append

theorem writes_of_ne {b : UInt32} (h : ∀ x ∈ l, b ≠ a + x.1) : writes a l mem b = mem b := by
  induction l generalizing mem with
  | nil => rfl
  | cons x l ih =>
    rw [writes, List.foldl_cons]
    refine (ih fun y hy => h y (List.mem_cons_of_mem _ hy)).trans ?_
    exact Function.update_of_ne (h x List.mem_cons_self) _ _

/-- Words at different offsets are all in place. -/
theorem writes_apply (hl : (l.map Prod.fst).Nodup) {x : UInt32 × UInt32} (hx : x ∈ l) :
    writes a l mem (a + x.1) = x.2 := by
  induction l generalizing mem with
  | nil => exact absurd hx List.not_mem_nil
  | cons y l ih =>
    rw [List.map_cons, List.nodup_cons] at hl
    rcases List.mem_cons.mp hx with rfl | hx
    · have hrest : ∀ z ∈ l, a + x.1 ≠ a + z.1 := by
        intro z hz heq
        rw [UInt32.add_right_inj] at heq
        exact hl.1 (heq ▸ List.mem_map_of_mem hz)
      rw [writes, List.foldl_cons]
      exact (writes_of_ne hrest).trans (Function.update_self _ _ _)
    · exact ih hl.2 hx

/-- Stores write the registers at their offsets. -/
theorem execAll_stores (base : Reg) (l : List (Reg × UInt32))
    (halign : ∀ x ∈ l, Aligned (m.get base + x.2)) :
    execAll (stores base l) m =
      some { m with mem := writes (m.get base) (l.map fun x => (x.2, m.get x.1)) m.mem } := by
  induction l generalizing m with
  | nil => rfl
  | cons x l ih =>
    rw [stores, List.map_cons, execAll, Op.exec, if_pos (halign x List.mem_cons_self),
      Option.bind_some]
    exact ih fun y hy => halign y (List.mem_cons_of_mem _ hy)

theorem Special.exec_move (k : Reg) (x : Special) (m : Machine) :
    (x.move k).exec m = some (m.set k (x.read m)) := by
  cases x <;> rfl

/-- Special registers are written at their offsets, and `k` is overwritten. -/
theorem execAll_storesVia (k base : Reg) (l : List (Special × UInt32)) (hk : k ≠ 0)
    (hbase : base ≠ k) (halign : ∀ x ∈ l, Aligned (m.get base + x.2)) :
    ∃ c, execAll (storesVia k base l) m = some c ∧ (∀ r, r ≠ k → c.get r = m.get r) ∧
      (∀ x : Special, x.read c = x.read m) ∧
      c.mem = writes (m.get base) (l.map fun x => (x.2, x.1.read m)) m.mem := by
  induction l generalizing m with
  | nil => exact ⟨m, rfl, fun r _ => rfl, fun x => rfl, rfl⟩
  | cons y l ih =>
    let next : Machine := { m.set k (y.1.read m) with
      mem := Function.update m.mem (m.get base + y.2) (y.1.read m) }
    have hkeep : ∀ r, r ≠ k → next.get r = m.get r :=
      fun r hr => Machine.get_set_of_ne (m := m) _ hr
    have hread : ∀ x : Special, x.read next = x.read m := by
      intro x
      cases x <;> rfl
    have hstore : (Op.sw k y.2 base).exec (m.set k (y.1.read m)) = some next := by
      rw [Op.exec, Machine.get_set_of_ne _ hbase, if_pos (halign y List.mem_cons_self),
        Machine.get_set _ hk]
      rfl
    obtain ⟨c, hexec, hgpr, hspecial, hmem⟩ := ih (m := next)
      fun x hx => (hkeep base hbase).symm ▸ halign x (List.mem_cons_of_mem _ hx)
    refine ⟨c, ?_, fun r hr => (hgpr r hr).trans (hkeep r hr),
      fun x => (hspecial x).trans (hread x), ?_⟩
    · rw [storesVia, List.flatMap_cons, List.cons_append, execAll_cons (y.1.exec_move k m),
        List.cons_append, execAll_cons hstore, List.nil_append]
      exact hexec
    · rw [hmem, hkeep base hbase]
      simp only [hread]
      rfl

/-- Loads read the registers from their offsets, and leave the other registers as they are. -/
theorem execAll_loads (base : Reg) (l : List (Reg × UInt32))
    (halign : ∀ x ∈ l, Aligned (m.get base + x.2)) (hl : (l.map Prod.fst).Nodup)
    (hbase : base ∉ l.map Prod.fst) :
    ∃ gpr, execAll (loads base l) m = some { m with gpr := gpr } ∧
      (∀ x ∈ l, gpr x.1 = m.mem (m.get base + x.2)) ∧
      ∀ r ∉ l.map Prod.fst, gpr r = m.gpr r := by
  induction l generalizing m with
  | nil => exact ⟨m.gpr, rfl, fun x hx => absurd hx List.not_mem_nil, fun r _ => rfl⟩
  | cons y l ih =>
    rw [List.map_cons, List.nodup_cons] at hl
    rw [List.map_cons, List.mem_cons, not_or] at hbase
    have hkeep : (m.set y.1 (m.mem (m.get base + y.2))).get base = m.get base :=
      Machine.get_set_of_ne _ hbase.1
    obtain ⟨gpr, hexec, hloaded, hothers⟩ := ih (m := m.set y.1 (m.mem (m.get base + y.2)))
      (fun x hx => hkeep.symm ▸ halign x (List.mem_cons_of_mem _ hx)) hl.2 hbase.2
    refine ⟨gpr, ?_, fun x hx => ?_, fun r hr => ?_⟩
    · rw [loads, List.map_cons, execAll, Op.exec, if_pos (halign y List.mem_cons_self),
        Option.bind_some]
      exact hexec
    · rcases List.mem_cons.mp hx with rfl | hx
      · exact (hothers _ hl.1).trans (Function.update_self _ _ _)
      · rw [hloaded x hx, hkeep]
        rfl
    · rw [List.map_cons, List.mem_cons, not_or] at hr
      exact (hothers r hr.2).trans (Function.update_of_ne hr.1 _ _)

end Lib.Mips
