import PrplHypervisor.Lib.LongDivision
import PrplHypervisor.Lib.LongWords

/-! The 64-bit division of the guest library (`bare-metal-apps/lib/libc.c`), which the compiler
calls on a processor that has none.  Signed arithmetic wraps. -/

namespace PrplHypervisor.Guest

open Lib.LongDivision Lib.LongWords

/-- A divisor: 0 is turned away before the loops. -/
abbrev Divisor := { den : UInt64 // den ≠ 0 }

theorem Divisor.toNat_pos (den : Divisor) : 0 < den.val.toNat :=
  UInt64.lt_iff_toNat_lt.mp (UInt64.pos_iff_ne_zero.mpr den.property)

/-- A divisor without the top bit, shifted left. -/
def Divisor.double (den : Divisor) (h : 0 ≤ den.val.toInt64) : Divisor :=
  ⟨den.val <<< 1, by
    intro h0
    have hpos := den.toNat_pos
    have hdouble := toNat_shiftLeft_one (toInt64_nonneg_iff.mp h)
    rw [h0, UInt64.toNat_zero] at hdouble
    omega⟩

theorem Divisor.toNat_double (den : Divisor) (h : 0 ≤ den.val.toInt64) :
    (den.double h).val.toNat = den.val.toNat * 2 :=
  toNat_shiftLeft_one (toInt64_nonneg_iff.mp h)

/-- The first loop of `__udivmoddi4`: the divisor is shifted left until its top bit is set, and
`qbit` with it. -/
def shiftUp (den : Divisor) (qbit : UInt64) : UInt64 × UInt64 :=
  if h : 0 ≤ den.val.toInt64 then shiftUp (den.double h) (qbit <<< 1)
  else (den.val, qbit)
termination_by 2 ^ 64 - den.val.toNat
decreasing_by
  have hpos := den.toNat_pos
  have hlt := den.val.toNat_lt
  rw [den.toNat_double h]
  omega

/-- The second loop: the divisor is subtracted where it fits, and shifted back. -/
def subtractDown (num den qbit quot : UInt64) : UInt64 × UInt64 :=
  if qbit = 0 then (quot, num)
  else if den ≤ num then subtractDown (num - den) (den >>> 1) (qbit >>> 1) (quot + qbit)
  else subtractDown num (den >>> 1) (qbit >>> 1) quot
termination_by qbit.toNat
decreasing_by
  all_goals
    have hpos := UInt64.lt_iff_toNat_lt.mp (UInt64.pos_iff_ne_zero.mpr ‹_›)
    rw [UInt64.toNat_zero] at hpos
    rw [toNat_shiftRight_one]
    omega

/-- `__udivmoddi4`: the quotient and the remainder, which goes to `*rem_p`.  There is no result for
the divisor 0, by which the code divides 1. -/
def udivmoddi4 (num den : UInt64) : Option (UInt64 × UInt64) :=
  if h : den = 0 then none
  else
    let shifted := shiftUp ⟨den, h⟩ 1
    some (subtractDown num shifted.1 shifted.2 0)

/-- The operand that `__divdi3` and `__moddi3` divide: `num = -num` where it is negative. -/
def magnitude (n : Int64) : Int64 := if n < 0 then -n else n

/-- `minus` after both tests: set by a negative `num`, flipped by a negative `den`. -/
def minus (num den : Int64) : Bool := (decide (num < 0)).xor (decide (den < 0))

def moddi3 (num den : Int64) : Option Int64 :=
  (udivmoddi4 (magnitude num).toUInt64 (magnitude den).toUInt64).map fun r =>
    let v := r.2.toInt64
    if minus num den then -v else v

def divdi3 (num den : Int64) : Option Int64 :=
  (udivmoddi4 (magnitude num).toUInt64 (magnitude den).toUInt64).map fun r =>
    let v := r.1.toInt64
    if minus num den then -v else v

/-! ### The unsigned division -/

/-- What the first loop leaves: divisor and bit shifted by the same count, the divisor's top bit
set. -/
theorem shiftUp_spec (den : Divisor) (qbit : UInt64) (hbit : qbit.toNat ≤ den.val.toNat) :
    ∃ k, (shiftUp den qbit).1.toNat = den.val.toNat * 2 ^ k ∧
      (shiftUp den qbit).2.toNat = qbit.toNat * 2 ^ k ∧ 2 ^ 63 ≤ (shiftUp den qbit).1.toNat := by
  fun_induction shiftUp den qbit with
  | case1 den qbit h ih =>
    have hden := den.toNat_double h
    have hlt := toInt64_nonneg_iff.mp h
    have hqbit := toNat_shiftLeft_one (x := qbit) (by omega)
    obtain ⟨k, h1, h2, htop⟩ := ih (by omega)
    rw [hden, Nat.mul_assoc, ← pow_succ'] at h1
    rw [hqbit, Nat.mul_assoc, ← pow_succ'] at h2
    exact ⟨k + 1, h1, h2, htop⟩
  | case2 den qbit h =>
    rw [toInt64_nonneg_iff] at h
    exact ⟨0, by simp, by simp, not_lt.mp h⟩

/-- The second loop takes the rounds of `shiftSubtract`.  Before the first one, `den` and `qbit`
are `d * 2 ^ k` and `2 ^ k` shifted right by one. -/
theorem subtractDown_eq {d k : ℕ} {num den qbit quot : UInt64} (hden : den.toNat = d * 2 ^ k / 2)
    (hqbit : qbit.toNat = 2 ^ k / 2) (hnum : num.toNat < d * 2 ^ k)
    (hquot : quot.toNat + num.toNat / d < 2 ^ 64) :
    ((subtractDown num den qbit quot).1.toNat, (subtractDown num den qbit quot).2.toNat) =
      shiftSubtract d k num.toNat quot.toNat := by
  induction k generalizing num den qbit quot with
  | zero =>
    have h0 : qbit = 0 := UInt64.toNat_inj.mp hqbit
    rw [subtractDown, if_pos h0, shiftSubtract]
  | succ k ih =>
    rw [pow_succ, ← Nat.mul_assoc, Nat.mul_div_cancel _ (by decide)] at hden
    rw [pow_succ, Nat.mul_div_cancel _ (by decide)] at hqbit
    have hne : qbit ≠ 0 := by
      intro h0
      rw [h0, UInt64.toNat_zero] at hqbit
      exact absurd hqbit (Nat.two_pow_pos k).ne
    have hden' : (den >>> 1).toNat = d * 2 ^ k / 2 := by rw [toNat_shiftRight_one, hden]
    have hqbit' : (qbit >>> 1).toNat = 2 ^ k / 2 := by rw [toNat_shiftRight_one, hqbit]
    rw [pow_succ, ← Nat.mul_assoc] at hnum
    rw [subtractDown, if_neg hne, shiftSubtract]
    by_cases hle : d * 2 ^ k ≤ num.toNat
    · have hle' : den ≤ num := UInt64.le_iff_toNat_le.mpr (by rw [hden]; exact hle)
      have hd : 0 < d := by
        by_contra h0
        simp [Nat.eq_zero_of_not_pos h0] at hnum
      have hsub : (num - den).toNat = num.toNat - d * 2 ^ k := by
        rw [UInt64.toNat_sub_of_le _ _ hle', hden]
      have hdiv : num.toNat / d = (num.toNat - d * 2 ^ k) / d + 2 ^ k := by
        rw [← Nat.add_mul_div_left _ _ hd, Nat.sub_add_cancel hle]
      have hfits : 2 ^ k ≤ num.toNat / d := hdiv ▸ Nat.le_add_left _ _
      have hadd : (quot + qbit).toNat = quot.toNat + 2 ^ k := by
        rw [UInt64.toNat_add, hqbit, Nat.mod_eq_of_lt (by omega)]
      rw [if_pos hle', if_pos hle, ← hsub, ← hadd]
      exact ih hden' hqbit' (by omega) (by rw [hsub, hadd]; omega)
    · have hle' : ¬den ≤ num := by
        rw [UInt64.le_iff_toNat_le, hden]
        exact hle
      rw [if_neg hle', if_neg hle]
      exact ih hden' hqbit' (not_le.mp hle) hquot

/-- `__udivmoddi4` divides. -/
theorem udivmoddi4_eq (num : UInt64) {den : UInt64} (hden : den ≠ 0) :
    udivmoddi4 num den = some (num / den, num % den) := by
  have hpos := Divisor.toNat_pos ⟨den, hden⟩
  obtain ⟨k, hshifted, hqbit, htop⟩ := shiftUp_spec ⟨den, hden⟩ 1 hpos
  rw [UInt64.toNat_one, Nat.one_mul] at hqbit
  have hlt := num.toNat_lt
  have hquot := Nat.div_le_self num.toNat den.toNat
  have hnum : num.toNat < den.toNat * 2 ^ (k + 1) := by
    rw [pow_succ, ← Nat.mul_assoc, ← hshifted]
    omega
  have hfits : (0 : UInt64).toNat + num.toNat / den.toNat < 2 ^ 64 := by
    rw [UInt64.toNat_zero]
    omega
  have hloop := subtractDown_eq (d := den.toNat) (k := k + 1)
    (by rw [hshifted, pow_succ, ← Nat.mul_assoc, Nat.mul_div_cancel _ (by decide)])
    (by rw [hqbit, pow_succ, Nat.mul_div_cancel _ (by decide)]) hnum hfits
  rw [shiftSubtract_eq _ hnum, UInt64.toNat_zero, Nat.zero_add, Prod.mk.injEq] at hloop
  rw [udivmoddi4, dif_neg hden, Option.some.injEq]
  refine Prod.ext (UInt64.toNat_inj.mp ?_) (UInt64.toNat_inj.mp ?_)
  · rw [UInt64.toNat_div]
    exact hloop.1
  · rw [UInt64.toNat_mod]
    exact hloop.2

/-! ### The signed division -/

theorem toNat_magnitude (n : Int64) : (magnitude n).toUInt64.toNat = n.toInt.natAbs :=
  Lib.LongWords.toNat_magnitude n

theorem magnitude_ne_zero {n : Int64} (h : n ≠ 0) : (magnitude n).toUInt64 ≠ 0 := by
  intro h0
  have hnat := toNat_magnitude n
  rw [h0, UInt64.toNat_zero] at hnat
  exact h (Int64.toInt_inj.mp (Int.natAbs_eq_zero.mp hnat.symm))

theorem minus_eq (num den : Int64) :
    minus num den = (decide (num.toInt < 0)).xor (decide (den.toInt < 0)) := by
  simp only [minus, toInt64_neg_iff]

/-- The quotient of the magnitudes is `2 ^ 63` only where the result is negative. -/
theorem natAbs_div_lt {num den : Int64} (hden : den ≠ 0)
    (hmin : ¬(num = Int64.minValue ∧ den = -1)) (hminus : minus num den = false) :
    num.toInt.natAbs / den.toInt.natAbs < 2 ^ 63 := by
  have hle := num.le_toInt
  have hlt := num.toInt_lt
  have hden0 : den.toInt ≠ 0 := fun h => hden (Int64.toInt_inj.mp h)
  have hdiv := Nat.div_le_self num.toInt.natAbs den.toInt.natAbs
  by_contra hge
  have hnum : num.toInt = -2 ^ 63 := by omega
  have hone : den.toInt.natAbs = 1 := by
    by_contra h1
    have := Nat.div_le_div_left (c := 2) (b := den.toInt.natAbs) (a := num.toInt.natAbs)
      (by omega) (by decide)
    omega
  have hneg : den.toInt < 0 := by
    by_contra hpos
    rw [minus_eq, hnum, decide_eq_false hpos] at hminus
    revert hminus
    decide
  refine hmin ⟨Int64.toInt_inj.mp hnum, Int64.toInt_inj.mp ?_⟩
  rw [show (-1 : Int64).toInt = -1 from rfl]
  omega

/-- The quotient of `__divdi3` is rounded towards zero. -/
theorem divdi3_eq {num den : Int64} (hden : den ≠ 0)
    (hmin : ¬(num = Int64.minValue ∧ den = -1)) :
    ∃ q, divdi3 num den = some q ∧ q.toInt = num.toInt.tdiv den.toInt := by
  have hle := num.le_toInt
  have hlt := num.toInt_lt
  have hquot := Nat.div_le_self num.toInt.natAbs den.toInt.natAbs
  refine ⟨_, by rw [divdi3, udivmoddi4_eq _ (magnitude_ne_zero hden), Option.map_some], ?_⟩
  dsimp only
  rw [toInt_signed, UInt64.toNat_div, toNat_magnitude, toNat_magnitude, tdiv_eq_natAbs, minus_eq]
  · rw [UInt64.toNat_div, toNat_magnitude, toNat_magnitude]
    omega
  · rw [UInt64.toNat_div, toNat_magnitude, toNat_magnitude]
    exact natAbs_div_lt hden hmin

/-- The remainder of `__moddi3` is negative where the quotient is, not where `num` is. -/
theorem moddi3_eq (num : Int64) {den : Int64} (hden : den ≠ 0) :
    ∃ r, moddi3 num den = some r ∧
      r.toInt = if den.toInt < 0 then -num.toInt.tmod den.toInt else num.toInt.tmod den.toInt := by
  have hle := den.le_toInt
  have hlt := den.toInt_lt
  have hden0 : den.toInt ≠ 0 := fun h => hden (Int64.toInt_inj.mp h)
  have hrem := Nat.mod_lt num.toInt.natAbs (Int.natAbs_pos.mpr hden0)
  refine ⟨_, by rw [moddi3, udivmoddi4_eq _ (magnitude_ne_zero hden), Option.map_some], ?_⟩
  dsimp only
  rw [toInt_signed, UInt64.toNat_mod, toNat_magnitude, toNat_magnitude, tmod_eq_natAbs, minus_eq]
  · by_cases hn : num.toInt < 0 <;> by_cases hd : den.toInt < 0 <;> simp [hn, hd]
  · rw [UInt64.toNat_mod, toNat_magnitude, toNat_magnitude]
    omega
  · rw [UInt64.toNat_mod, toNat_magnitude, toNat_magnitude]
    omega

/-- `__divdi3` and `__moddi3` return the truncated quotient and remainder. -/
def SignedDivision (num den : Int64) : Prop :=
  ∃ q r, divdi3 num den = some q ∧ moddi3 num den = some r ∧
    Truncated num.toInt den.toInt q.toInt r.toInt

theorem signedDivision_iff {num den : Int64} (hden : den ≠ 0)
    (hmin : ¬(num = Int64.minValue ∧ den = -1)) :
    SignedDivision num den ↔ 0 < den.toInt ∨ den.toInt ∣ num.toInt := by
  obtain ⟨q, hq, hqint⟩ := divdi3_eq hden hmin
  obtain ⟨r, hr, hrint⟩ := moddi3_eq num hden
  have hden0 : den.toInt ≠ 0 := fun h => hden (Int64.toInt_inj.mp h)
  have hiff : SignedDivision num den ↔ r.toInt = num.toInt.tmod den.toInt := by
    constructor
    · rintro ⟨q', r', hq', hr', htrunc⟩
      rw [hr, Option.some.injEq] at hr'
      rw [hr']
      exact ((truncated_iff hden0).mp htrunc).2
    · intro h
      exact ⟨q, r, hq, hr, (truncated_iff hden0).mpr ⟨hqint, h⟩⟩
  rw [hiff, hrint, Int.dvd_iff_tmod_eq_zero]
  by_cases hneg : den.toInt < 0
  · rw [if_pos hneg]
    omega
  · rw [if_neg hneg]
    omega

/-- The unsigned division is right for every divisor but 0.  The signed one is right where the
divisor is positive or divides `num`: elsewhere the remainder has the wrong sign. -/
theorem division_right_iff (n d : UInt64) (num den : Int64) (hd : d ≠ 0) (hden : den ≠ 0)
    (hmin : ¬(num = Int64.minValue ∧ den = -1)) :
    udivmoddi4 n d = some (n / d, n % d) ∧
      (SignedDivision num den ↔ 0 < den.toInt ∨ den.toInt ∣ num.toInt) :=
  ⟨udivmoddi4_eq n hd, signedDivision_iff hden hmin⟩

/-- A division that is right, of a negative number. -/
theorem division_right_neg_seven :
    udivmoddi4 7 2 = some (3, 1) ∧ SignedDivision (-7) 2 :=
  have h := division_right_iff 7 2 (-7) 2 (by decide) (by decide) (by decide)
  ⟨h.1, h.2.mpr (.inl (by decide))⟩

/-- The remainder of 7 by -2 is computed as -1. -/
theorem seven_mod_neg_two :
    ¬∀ num den : Int64, den ≠ 0 → ¬(num = Int64.minValue ∧ den = -1) → SignedDivision num den := by
  intro hall
  have h := (signedDivision_iff (by decide) (by decide)).mp (hall 7 (-2) (by decide) (by decide))
  revert h
  decide

end PrplHypervisor.Guest
