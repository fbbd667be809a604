import Mathlib.Data.Nat.Notation

/-! Memory of the NOR kind: an operation erases an area of it, or programs words into cells that
have been erased.  What a cell holds after a series of operations, of which some may fail. -/

namespace Lib.NorFlash

variable {A W : Type*}

/-- What an erased cell holds, and what programming leaves of the word that is there. -/
structure Cell (W : Type*) where
  erased : W
  program : W → W → W
  program_erased : ∀ w, program erased w = w

inductive Op (A W : Type*)
  | erase (area : A → Bool)
  | program (area : A → Bool) (words : A → W)

/-- The cells that an operation may change. -/
def Op.area : Op A W → A → Bool
  | .erase area => area
  | .program area _ => area

/-- A cell of the area after an operation that succeeds. -/
def Op.effect (c : Cell W) (mem : A → W) (a : A) : Op A W → W
  | .erase _ => c.erased
  | .program _ words => c.program (mem a) (words a)

/-- The memory after an operation; `left` is what one that fails leaves in its area. -/
def exec (c : Cell W) (op : Op A W) (left : Option (A → W)) (mem : A → W) (a : A) : W :=
  if op.area a then
    match left with
    | some words => words a
    | none => op.effect c mem a
  else mem a

/-- The memory after the first `n` operations. -/
def execAll (c : Cell W) (ops : ℕ → Op A W) (left : ℕ → Option (A → W)) (mem : A → W) : ℕ → A → W
  | 0 => mem
  | n + 1 => exec c (ops n) (left n) (execAll c ops left mem n)

variable {c : Cell W} {op : Op A W} {ops : ℕ → Op A W} {left : ℕ → Option (A → W)} {mem : A → W}
  {a : A} {n k : ℕ}

/-- An operation changes no cell outside its area. -/
theorem exec_outside {l : Option (A → W)} (h : op.area a = false) : exec c op l mem a = mem a := by
  unfold exec
  rw [h]
  rfl

theorem exec_erase {area : A → Bool} (h : area a = true) :
    exec c (.erase area) none mem a = c.erased :=
  if_pos h

/-- An erased cell holds the word that it is programmed with. -/
theorem exec_program {area : A → Bool} {words : A → W} (h : area a = true)
    (hmem : mem a = c.erased) :
    exec c (.program area words) none mem a = words a := by
  have hcell : exec c (.program area words) none mem a = c.program (mem a) (words a) := if_pos h
  rw [hcell, hmem, c.program_erased]

theorem execAll_outside (h : ∀ i < n, (ops i).area a = false) :
    execAll c ops left mem n a = mem a := by
  induction n with
  | zero => rfl
  | succ n ih =>
    rw [execAll, exec_outside (h n n.lt_succ_self)]
    exact ih fun i hi => h i (Nat.lt_succ_of_lt hi)

/-- A cell that one operation of the series programs, and no other one touches, holds its word when
that operation succeeds. -/
theorem execAll_program {area : A → Bool} {words : A → W} (hk : k < n)
    (hop : ops k = .program area words) (harea : area a = true)
    (hothers : ∀ i < n, i ≠ k → (ops i).area a = false) (hleft : left k = none)
    (hmem : mem a = c.erased) : execAll c ops left mem n a = words a := by
  induction n with
  | zero => exact absurd hk k.not_lt_zero
  | succ n ih =>
    rw [execAll]
    rcases Nat.lt_succ_iff_lt_or_eq.mp hk with hlt | rfl
    · rw [exec_outside (hothers n n.lt_succ_self (Nat.ne_of_gt hlt))]
      exact ih hlt fun i hi => hothers i (Nat.lt_succ_of_lt hi)
    · have hbefore : execAll c ops left mem k a = c.erased :=
        (execAll_outside fun i hi => hothers i (Nat.lt_succ_of_lt hi) (Nat.ne_of_lt hi)).trans hmem
      rw [hop, hleft]
      exact exec_program harea hbefore

end Lib.NorFlash
