import Mathlib.Logic.Function.Basic
import Mathlib.Data.List.Basic
import Mathlib.Data.Nat.ModEq

/-! Circular buffers over a function from slots to values.  `window slots out n cap` is the list of
the `n` values from slot `out` on, wrapping at `cap`.  Writing the slot after the window appends to
it, and stepping past its first slot removes the head. -/

namespace Lib.Ring

variable {α : Type*} {slots : Nat → α} {out n cap i : Nat}

/-- The `n` values in the slots `out`, `out + 1`, ..., modulo `cap`. -/
def window (slots : Nat → α) (out n cap : Nat) : List α :=
  (List.range n).map fun i => slots ((out + i) % cap)

@[simp] theorem window_zero : window slots out 0 cap = [] := rfl

@[simp] theorem length_window : (window slots out n cap).length = n := by simp [window]

theorem getElem?_window (h : i < n) :
    (window slots out n cap)[i]? = some (slots ((out + i) % cap)) := by
  simp [window, h]

theorem window_congr {slots' : Nat → α}
    (h : ∀ i < n, slots ((out + i) % cap) = slots' ((out + i) % cap)) :
    window slots out n cap = window slots' out n cap := by
  simp only [window]
  exact List.map_congr_left fun i hi => h i (by simpa using hi)

theorem window_succ (hout : out < cap) :
    window slots out (n + 1) cap = slots out :: window slots ((out + 1) % cap) n cap := by
  simp only [window, List.range_succ_eq_map, List.map_cons, List.map_map, Nat.add_zero,
    Nat.mod_eq_of_lt hout]
  congr 1
  refine List.map_congr_left fun i _ => ?_
  simp only [Function.comp_apply, Nat.mod_add_mod]
  rw [show out + (i + 1) = out + 1 + i by omega]

theorem window_append_last :
    window slots out (n + 1) cap = window slots out n cap ++ [slots ((out + n) % cap)] := by
  simp [window, List.range_succ]

/-- Two offsets less than one revolution apart are different slots. -/
theorem slot_ne (hi : i < n) (hn : n < cap) : (out + i) % cap ≠ (out + n) % cap := by
  intro h
  have hmod : i ≡ n [MOD cap] := Nat.ModEq.add_left_cancel' out h
  exact hi.ne (hmod.eq_of_lt_of_lt (by omega) hn)

theorem window_update_next (hn : n < cap) (x : α) :
    window (Function.update slots ((out + n) % cap) x) out n cap = window slots out n cap :=
  window_congr fun _ hi => Function.update_of_ne (slot_ne hi hn) _ _

theorem window_push (hn : n < cap) (x : α) :
    window (Function.update slots ((out + n) % cap) x) out (n + 1) cap =
      window slots out n cap ++ [x] := by
  rw [window_append_last, window_update_next hn, Function.update_self]

theorem slot_inj {j : Nat} (hi : i < cap) (hj : j < cap) :
    (out + i) % cap = (out + j) % cap ↔ i = j := by
  constructor
  · intro h
    exact (Nat.ModEq.add_left_cancel' out h).eq_of_lt_of_lt hi hj
  · exact fun h => h ▸ rfl

/-- Writing a slot of the window replaces the element there. -/
theorem window_set (hi : i < n) (hn : n ≤ cap) (x : α) :
    window (Function.update slots ((out + i) % cap) x) out n cap =
      (window slots out n cap).set i x := by
  refine List.ext_getElem (by simp) fun k hk _ => ?_
  rw [length_window] at hk
  simp only [window, List.getElem_map, List.getElem_range, List.getElem_set]
  by_cases hki : i = k
  · rw [if_pos hki, hki, Function.update_self]
  · rw [if_neg hki, Function.update_of_ne]
    rw [ne_eq, slot_inj (hk.trans_le hn) (hi.trans_le hn)]
    exact fun heq => hki heq.symm

theorem tail_slot_succ : ((out + n) % cap + 1) % cap = (out + (n + 1)) % cap := by
  rw [Nat.mod_add_mod, Nat.add_assoc]

theorem head_slot_succ : ((out + 1) % cap + n) % cap = (out + (n + 1)) % cap := by
  rw [Nat.mod_add_mod, show out + 1 + n = out + (n + 1) by omega]

end Lib.Ring
