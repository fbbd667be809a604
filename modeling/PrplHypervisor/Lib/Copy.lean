import Mathlib.Data.Nat.Notation
import Mathlib.Logic.Function.Basic

/-! Copying inside one memory, element by element and in blocks, where the ranges may overlap.  The
`i`-th element goes from `s i` to `d i`. -/

namespace Lib.Copy

variable {A V : Type*} [DecidableEq A]

/-- `n` elements copied one after the other: a later one is read from the memory that the earlier
ones have been written to. -/
def copySeq (d s : ℕ → A) (mem : A → V) : ℕ → A → V
  | 0 => mem
  | n + 1 =>
    let mem' := copySeq d s mem n
    Function.update mem' (d n) (mem' (s n))

/-- `n` elements that are all read before the first is written. -/
def copyAtOnce (d s : ℕ → A) (mem : A → V) : ℕ → A → V
  | 0 => mem
  | n + 1 => Function.update (copyAtOnce d s mem n) (d n) (mem (s n))

/-- `n` elements that all become `v`. -/
def fill (d : ℕ → A) (v : V) (mem : A → V) : ℕ → A → V
  | 0 => mem
  | n + 1 => Function.update (fill d v mem n) (d n) v

variable {d s : ℕ → A} {mem : A → V} {n : ℕ}

theorem fill_of_ne {v : V} {a : A} (h : ∀ i < n, a ≠ d i) : fill d v mem n a = mem a := by
  induction n with
  | zero => rfl
  | succ n ih =>
    rw [fill, Function.update_of_ne (h n n.lt_succ_self)]
    exact ih fun i hi => h i (Nat.lt_succ_of_lt hi)

theorem fill_apply {v : V} {i : ℕ} (hi : i < n) : fill d v mem n (d i) = v := by
  induction n with
  | zero => exact absurd hi i.not_lt_zero
  | succ n ih =>
    rw [fill, Function.update_apply]
    split
    · rfl
    · refine ih ((Nat.lt_succ_iff_lt_or_eq.mp hi).resolve_right fun heq => ?_)
      exact absurd (congrArg d heq) (by assumption)

/-- The first element, and then the `n` that follow. -/
theorem fill_succ (d : ℕ → A) (v : V) (mem : A → V) (n : ℕ) :
    fill d v mem (n + 1) = fill (fun i => d (i + 1)) v (Function.update mem (d 0) v) n := by
  induction n with
  | zero => rfl
  | succ n ih => rw [fill, ih, fill]

theorem copySeq_of_ne {a : A} (h : ∀ i < n, a ≠ d i) : copySeq d s mem n a = mem a := by
  induction n with
  | zero => rfl
  | succ n ih =>
    rw [copySeq, Function.update_of_ne (h n n.lt_succ_self)]
    exact ih fun i hi => h i (Nat.lt_succ_of_lt hi)

/-- Reading ahead changes nothing when no element is read after it has been overwritten. -/
theorem copySeq_eq_atOnce (h : ∀ j < n, ∀ i < j, s j ≠ d i) :
    copySeq d s mem n = copyAtOnce d s mem n := by
  induction n with
  | zero => rfl
  | succ n ih =>
    have hread : copySeq d s mem n (s n) = mem (s n) := copySeq_of_ne (h n n.lt_succ_self)
    have hprev := ih fun j hj => h j (Nat.lt_succ_of_lt hj)
    rw [copySeq, copyAtOnce, hread, hprev]

/-- A copy to different places puts every element in its place. -/
theorem copyAtOnce_apply (hd : ∀ j < n, ∀ i < j, d j ≠ d i) {i : ℕ} (hi : i < n) :
    copyAtOnce d s mem n (d i) = mem (s i) := by
  induction n with
  | zero => exact absurd hi i.not_lt_zero
  | succ n ih =>
    rw [copyAtOnce]
    rcases Nat.lt_succ_iff_lt_or_eq.mp hi with hi | rfl
    · rw [Function.update_of_ne (hd n n.lt_succ_self i hi).symm]
      exact ih (fun j hj => hd j (Nat.lt_succ_of_lt hj)) hi
    · exact Function.update_self _ _ _

/-- A copy of `m + n` elements is a copy of `m` and one of the `n` that follow. -/
theorem copySeq_add (m n : ℕ) :
    copySeq d s mem (m + n) =
      copySeq (fun i => d (m + i)) (fun i => s (m + i)) (copySeq d s mem m) n := by
  induction n with
  | zero => rfl
  | succ n ih => rw [← Nat.add_assoc, copySeq, copySeq, ih]

/-- A copy to different places leaves the memory as it is just when every element is already where
it goes. -/
theorem copySeq_eq_self_iff (hd : ∀ j < n, ∀ i < j, d j ≠ d i) :
    copySeq d s mem n = mem ↔ ∀ i < n, mem (d i) = mem (s i) := by
  induction n with
  | zero => exact ⟨fun _ i hi => absurd hi i.not_lt_zero, fun _ => rfl⟩
  | succ n ih =>
    have ih := ih fun j hj => hd j (Nat.lt_succ_of_lt hj)
    have hlast : copySeq d s mem n (d n) = mem (d n) := copySeq_of_ne (hd n n.lt_succ_self)
    rw [copySeq]
    constructor
    · intro h
      have hprev : copySeq d s mem n = mem := by
        funext a
        by_cases ha : a = d n
        · rw [ha, hlast]
        · rw [← Function.update_of_ne ha (copySeq d s mem n (s n)) (copySeq d s mem n), h]
      intro i hi
      rcases Nat.lt_succ_iff_lt_or_eq.mp hi with hi | rfl
      · exact ih.mp hprev i hi
      · have hwrite := congrFun h (d i)
        rw [Function.update_self, hprev] at hwrite
        exact hwrite.symm
    · intro h
      rw [ih.mpr fun i hi => h i (Nat.lt_succ_of_lt hi), ← h n n.lt_succ_self,
        Function.update_eq_self]

end Lib.Copy
