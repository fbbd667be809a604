import Mathlib.Algebra.GroupWithZero.Nat
import Mathlib.Algebra.BigOperators.Group.List.Basic
import Mathlib.Algebra.BigOperators.Group.Finset.Basic
import Mathlib.Algebra.Order.BigOperators.Group.Finset
import Mathlib.Order.Interval.Finset.Nat

/-! Blocks that fill a range.  The block at `b` has the `size b` places from `b` on.  When blocks do
not overlap and have as many places as the range, they leave no gap in it, and if besides no block
starts where another one ends, there is only one. -/

namespace Lib.Tiling

variable {size : Nat → Nat} {l : List Nat} {total u : Nat}

/-- The blocks of the list are in the range, do not overlap and have as many places as it. -/
structure Tiles (size : Nat → Nat) (l : List Nat) (total : Nat) : Prop where
  nodup : l.Nodup
  apart : ∀ a ∈ l, ∀ b ∈ l, a ≠ b → a + size a ≤ b ∨ b + size b ≤ a
  within : ∀ b ∈ l, b + size b ≤ total
  sum : (l.map size).sum = total

theorem Tiles.exists_block (h : Tiles size l total) (hu : u < total) :
    ∃ b ∈ l, b ≤ u ∧ u < b + size b := by
  by_contra hex
  have hnone : ∀ b ∈ l, b ≤ u → b + size b ≤ u := fun b hb hle =>
    not_lt.mp fun hlt => hex ⟨b, hb, hle, hlt⟩
  have hsub : l.toFinset.biUnion (fun b => Finset.Ico b (b + size b)) ⊆
      (Finset.range total).erase u := by
    intro x hx
    obtain ⟨b, hb, hxb⟩ := Finset.mem_biUnion.mp hx
    rw [List.mem_toFinset] at hb
    rw [Finset.mem_Ico] at hxb
    have hwithin := h.within b hb
    refine Finset.mem_erase.mpr ⟨?_, Finset.mem_range.mpr (by omega)⟩
    rintro rfl
    exact absurd hxb.2 (not_lt.mpr (hnone b hb hxb.1))
  have hdisjoint : ∀ a ∈ l.toFinset, ∀ b ∈ l.toFinset, a ≠ b →
      Disjoint (Finset.Ico a (a + size a)) (Finset.Ico b (b + size b)) := by
    intro a ha b hb hne
    have hapart := h.apart a (List.mem_toFinset.mp ha) b (List.mem_toFinset.mp hb) hne
    rw [Finset.disjoint_left]
    intro x hxa hxb
    rw [Finset.mem_Ico] at hxa hxb
    omega
  have hcard := Finset.card_le_card hsub
  rw [Finset.card_biUnion hdisjoint, Finset.card_erase_of_mem (Finset.mem_range.mpr hu),
    Finset.card_range] at hcard
  simp only [Nat.card_Ico, Nat.add_sub_cancel_left] at hcard
  rw [List.sum_toFinset size h.nodup, h.sum] at hcard
  omega

/-- Blocks of which none ends where another one starts are a single block. -/
theorem Tiles.eq_singleton (h : Tiles size l total) (hpos : ∀ b ∈ l, 1 ≤ size b)
    (hseparate : ∀ a ∈ l, ∀ b ∈ l, a + size a = b → a = b) (hne : l ≠ []) :
    ∃ b, l = [b] ∧ size b = total := by
  -- every block ends at the end of the range
  have hend : ∀ a ∈ l, a + size a = total := by
    intro a ha
    by_contra hlt
    have hwithin := h.within a ha
    obtain ⟨b, hb, hbu, hub⟩ := h.exists_block (u := a + size a) (by omega)
    have hab : a ≠ b := by
      rintro rfl
      omega
    have hapart := h.apart a ha b hb hab
    exact hab (hseparate a ha b hb (by omega))
  obtain ⟨b, l, rfl⟩ := List.exists_cons_of_ne_nil hne
  cases l with
  | nil => exact ⟨b, rfl, by simpa using h.sum⟩
  | cons c l =>
    have hbc : b ≠ c := fun heq => (List.nodup_cons.mp h.nodup).1 (heq ▸ List.mem_cons_self)
    have hapart := h.apart b (by simp) c (by simp) hbc
    have hend_b := hend b (by simp)
    have hend_c := hend c (by simp)
    have hpos_b := hpos b (by simp)
    have hpos_c := hpos c (by simp)
    omega

end Lib.Tiling
