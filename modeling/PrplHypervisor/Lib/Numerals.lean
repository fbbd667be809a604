import Mathlib.Data.Nat.Digits.Lemmas
import Mathlib.Logic.Function.Basic

/-! Positional numerals.  A number is written digit by digit, the least significant first, and the
text is then turned around in place; it is read back by Horner's rule. -/

namespace Lib.Numerals

/-- The digits of a numeral, the least significant first; 0 has one digit. -/
def numeral (b n : ℕ) : List ℕ := if n = 0 then [0] else Nat.digits b n

variable {b n : ℕ}

/-- The digits as they are split off. -/
theorem numeral_eq (hb : 1 < b) :
    numeral b n = n % b :: if n / b = 0 then [] else numeral b (n / b) := by
  by_cases h0 : n = 0
  · simp [numeral, h0]
  · rw [numeral, if_neg h0, Nat.digits_eq_cons_digits_div hb h0]
    by_cases hdiv : n / b = 0
    · rw [if_pos hdiv, hdiv, Nat.digits_zero]
    · rw [if_neg hdiv, numeral, if_neg hdiv]

theorem ofDigits_numeral (b n : ℕ) : Nat.ofDigits b (numeral b n) = n := by
  unfold numeral
  split
  case isTrue h0 => simp [h0]
  case isFalse => exact Nat.ofDigits_digits b n

theorem numeral_lt_base (hb : 1 < b) {d : ℕ} (hd : d ∈ numeral b n) : d < b := by
  unfold numeral at hd
  split at hd
  case isTrue =>
    rw [List.mem_singleton.mp hd]
    omega
  case isFalse => exact Nat.digits_lt_base hb hd

theorem numeral_ne_nil (b n : ℕ) : numeral b n ≠ [] := by
  unfold numeral
  split
  case isTrue => exact List.cons_ne_nil _ _
  case isFalse h0 => exact Nat.digits_ne_nil_iff_ne_zero.mpr h0

theorem numeral_length_le_iff (hb : 1 < b) {k : ℕ} (hk : 0 < k) :
    (numeral b n).length ≤ k ↔ n < b ^ k := by
  unfold numeral
  split
  case isTrue h0 =>
    rw [h0]
    exact ⟨fun _ => Nat.pow_pos (by omega), fun _ => hk⟩
  case isFalse => exact Nat.digits_length_le_iff hb n

/-- Only the numeral 0 has a leading digit 0. -/
theorem reverse_numeral_cons {d : ℕ} {ds : List ℕ} (h : (numeral b n).reverse = d :: ds)
    (hd : d = 0) : ds = [] := by
  unfold numeral at h
  split at h
  case isTrue => exact (List.cons_eq_cons.mp h).2.symm
  case isFalse h0 =>
    have hlast := Nat.getLast_digit_ne_zero b h0
    have hhead : (Nat.digits b n).reverse.head? = some d := by rw [h, List.head?_cons]
    rw [List.head?_reverse, List.getLast?_eq_some_getLast (Nat.digits_ne_nil_iff_ne_zero.mpr h0),
      Option.some.injEq] at hhead
    exact absurd (hhead.trans hd) hlast

/-- Horner's rule reads the digits from the most significant on. -/
theorem foldl_reverse_eq_ofDigits (b : ℕ) (ds : List ℕ) :
    ds.reverse.foldl (fun value d => value * b + d) 0 = Nat.ofDigits b ds := by
  rw [List.foldl_reverse, Nat.ofDigits_eq_foldr]
  simp only [Nat.cast_id, Nat.add_comm, Nat.mul_comm]

/-! ### Turning a text around in place -/

variable {V : Type*}

/-- The elements at the indices `lo` and `hi` are exchanged, then those between them. -/
def reverseSpan (mem : ℕ → V) (lo hi : ℕ) : ℕ → V :=
  if lo < hi then
    reverseSpan (Function.update (Function.update mem hi (mem lo)) lo (mem hi)) (lo + 1) (hi - 1)
  else mem
termination_by hi - lo

theorem reverseSpan_of_lt {mem : ℕ → V} {lo hi k : ℕ} (h : k < lo) :
    reverseSpan mem lo hi k = mem k := by
  fun_induction reverseSpan mem lo hi with
  | case1 mem lo hi hlt ih =>
    rw [ih (by omega), Function.update_of_ne (by omega), Function.update_of_ne (by omega)]
  | case2 => rfl

theorem reverseSpan_of_gt {mem : ℕ → V} {lo hi k : ℕ} (h : hi < k) :
    reverseSpan mem lo hi k = mem k := by
  fun_induction reverseSpan mem lo hi with
  | case1 mem lo hi hlt ih =>
    rw [ih (by omega), Function.update_of_ne (by omega), Function.update_of_ne (by omega)]
  | case2 => rfl

theorem reverseSpan_apply {mem : ℕ → V} {lo hi k : ℕ} (hlo : lo ≤ k) (hhi : k ≤ hi) :
    reverseSpan mem lo hi k = mem (lo + hi - k) := by
  fun_induction reverseSpan mem lo hi with
  | case1 mem lo hi hlt ih =>
    rcases Nat.eq_or_lt_of_le hlo with rfl | hlo'
    · rw [reverseSpan_of_lt lo.lt_succ_self, Function.update_self, Nat.add_sub_cancel_left]
    · rcases Nat.eq_or_lt_of_le hhi with rfl | hhi'
      · rw [reverseSpan_of_gt (by omega), Function.update_of_ne (by omega), Function.update_self,
          Nat.add_sub_cancel]
      · rw [ih (by omega) (by omega), Function.update_of_ne (by omega),
          Function.update_of_ne (by omega)]
        congr 1
        omega
  | case2 mem lo hi hge =>
    congr 1
    omega

end Lib.Numerals
