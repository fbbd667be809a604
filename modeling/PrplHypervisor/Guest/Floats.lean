import PrplHypervisor.Lib.Floats
import PrplHypervisor.Lib.LinkedList
import PrplHypervisor.Lib.SignedWords
import PrplHypervisor.Lib.Words

/-! The conversions between integers and single-precision floats of the guest library
(`bare-metal-apps/lib/libc.c`).  A `float` is its bit pattern, which the code copies out of it and
into it.  Signed arithmetic wraps. -/

namespace PrplHypervisor.Guest

open Lib.Floats Lib.LinkedList Lib.SignedWords Lib.Words

/-- The body of `__fixsfsi` and of `__fixunssfsi`, which return `af` as their own type. -/
def fixSf (a : UInt32) : Int32 :=
  let as := a >>> 31
  let ae := ((a >>> 23) &&& 0xff).toInt32
  let af := (0x00800000 ||| (a &&& 0x007fffff)).toInt32
  let af := af <<< 7
  let shift := -(ae - 0x80 - 29)
  let af :=
    if 0 < shift then
      if shift < 31 then af >>> shift else 0
    else af
  if as ≠ 0 then -af else af

def fixsfsi (a : UInt32) : Int32 := fixSf a

def fixunssfsi (a : UInt32) : UInt32 := (fixSf a).toUInt32

/-- A round of the first loop of the conversions to a float, on `af` and `ae`.  `af >>= 1` is the
shift of the type that `af` has. -/
def downRound (shiftRight : UInt32 → UInt32) (s : UInt32 × UInt32) : UInt32 × UInt32 :=
  (shiftRight s.1, s.2 + 1)

def normalizeDown (shiftRight : UInt32 → UInt32) (fuel : Nat) (s : UInt32 × UInt32) :
    Option (UInt32 × UInt32) :=
  whileLoop (fun s => s.1 &&& 0xff000000 ≠ 0) (downRound shiftRight) fuel s

/-- A round of the second loop. -/
def upRound (s : UInt32 × UInt32) : UInt32 × UInt32 := (s.1 <<< 1, s.2 - 1)

def normalizeUp (fuel : Nat) (s : UInt32 × UInt32) : Option (UInt32 × UInt32) :=
  whileLoop (fun s => s.1 &&& 0xff800000 = 0) upRound fuel s

/-- What `__floatsisf` and `__floatunsisf` do behind the sign test, where each loop takes at most
`fuel` rounds. -/
def floatSf (shiftRight : UInt32 → UInt32) (fuel : Nat) (as af : UInt32) : Option UInt32 :=
  let ae : UInt32 := 0x80 + 22
  if af = 0 then some af
  else do
    let s ← normalizeDown shiftRight fuel (af, ae)
    let (af, ae) ← normalizeUp fuel s
    return (as <<< 31) ||| (ae <<< 23) ||| (af &&& 0x007fffff)

/-- `af >>= 1` on an `int32_t`. -/
def shiftSigned (af : UInt32) : UInt32 := (af.toInt32 >>> 1).toUInt32

/-- `af >>= 1` on a `uint32_t`. -/
def shiftUnsigned (af : UInt32) : UInt32 := af >>> 1

def floatsisf (fuel : Nat) (af : Int32) : Option UInt32 :=
  let as : UInt32 := if 0 ≤ af then 0 else 1
  -- the least number is its own negation
  let af := if 0 ≤ af then af else -af
  floatSf shiftSigned fuel as af.toUInt32

def floatunsisf (fuel : Nat) (af : UInt32) : Option UInt32 :=
  let as : UInt32 := if 0 ≤ af then 0 else 1
  let af := if 0 ≤ af then af else -af
  floatSf shiftUnsigned fuel as af

/-! ### The normalisation loops -/

variable {shiftRight : UInt32 → UInt32} {af ae : UInt32} {fuel : Nat}

theorem toNat_shiftSigned {x : UInt32} (h : x.toNat < 2 ^ 31) :
    (shiftSigned x).toNat = x.toNat / 2 := by
  have hint : (x.toInt32 >>> 1).toInt = x.toNat / 2 := by
    rw [toInt_shiftRight (k := 1) rfl (by decide), toInt_toInt32_of_lt h, pow_one]
  have hword := toNat_toUInt32_of_nonneg (y := x.toInt32 >>> 1) (by omega)
  rw [shiftSigned]
  omega

/-- The sign bit stays where it is. -/
theorem le_toNat_shiftSigned {x : UInt32} (h : 2 ^ 31 ≤ x.toNat) :
    2 ^ 31 ≤ (shiftSigned x).toNat := by
  have hlt := x.toNat_lt
  have hint : (x.toInt32 >>> 1).toInt = (x.toNat - 2 ^ 32) / 2 := by
    rw [toInt_shiftRight (k := 1) rfl (by decide), toInt_toInt32_of_le h, pow_one]
  have hword := toNat_toUInt32_of_neg (y := x.toInt32 >>> 1) (by omega)
  rw [shiftSigned]
  omega

theorem toNat_shiftUnsigned (x : UInt32) : (shiftUnsigned x).toNat = x.toNat / 2 :=
  toNat_shiftRight (k := 1) rfl (by decide)

/-- The first loop goes on for as long as there are more than 24 bits. -/
theorem down_iff (x : UInt32) : x &&& 0xff000000 ≠ 0 ↔ 24 < x.toNat.size := by
  have hlow : (0x00ffffff : UInt32).toNat = 2 ^ 24 - 1 := rfl
  rw [show (0xff000000 : UInt32) = ~~~0x00ffffff from rfl, ne_eq, and_not_low_eq_zero_iff hlow,
    ← Nat.size_le, not_le]

/-- The second one goes on for as long as there are fewer. -/
theorem up_iff (x : UInt32) : x &&& 0xff800000 = 0 ↔ x.toNat.size < 24 := by
  have hlow : (0x007fffff : UInt32).toNat = 2 ^ 23 - 1 := rfl
  rw [show (0xff800000 : UInt32) = ~~~0x007fffff from rfl, and_not_low_eq_zero_iff hlow,
    ← Nat.size_le, Nat.lt_succ_iff]

theorem iterate_downRound
    (hshift : ∀ x : UInt32, x.toNat ≤ af.toNat → (shiftRight x).toNat = x.toNat / 2)
    {i : Nat} (hi : ae.toNat + i < 2 ^ 32) :
    ((downRound shiftRight)^[i] (af, ae)).1.toNat = af.toNat / 2 ^ i ∧
      ((downRound shiftRight)^[i] (af, ae)).2.toNat = ae.toNat + i := by
  induction i with
  | zero => simp
  | succ i ih =>
    obtain ⟨haf, hae⟩ := ih (by omega)
    rw [Function.iterate_succ_apply', downRound]
    constructor
    · rw [hshift _ (haf ▸ Nat.div_le_self _ _), haf, Nat.div_div_eq_div_mul, pow_succ]
    · rw [UInt32.toNat_add, hae, UInt32.toNat_one, Nat.mod_eq_of_lt (by omega), Nat.add_assoc]

theorem normalizeDown_eq (ae : UInt32)
    (hshift : ∀ x : UInt32, x.toNat ≤ af.toNat → (shiftRight x).toNat = x.toNat / 2)
    (hae : ae.toNat < 2 ^ 31) (hfuel : 8 < fuel) :
    ∃ t, normalizeDown shiftRight fuel (af, ae) = some t ∧
      t.1.toNat = af.toNat / 2 ^ (af.toNat.size - 24) ∧
      t.2.toNat = ae.toNat + (af.toNat.size - 24) := by
  have hsize : af.toNat.size ≤ 32 := Nat.size_le.mpr af.toNat_lt
  refine ⟨_, whileLoop_iterate (k := af.toNat.size - 24) (fun i hi => ?_) (by omega),
    iterate_downRound hshift (by omega)⟩
  rw [decide_eq_decide, down_iff, (iterate_downRound hshift (by omega)).1, size_div_two_pow]
  omega

theorem iterate_upRound {i : Nat} (hsize : af.toNat.size + i ≤ 32) (hae : i ≤ ae.toNat) :
    (upRound^[i] (af, ae)).1.toNat = af.toNat * 2 ^ i ∧
      (upRound^[i] (af, ae)).2.toNat = ae.toNat - i := by
  induction i with
  | zero => simp
  | succ i ih =>
    obtain ⟨haf, hae'⟩ := ih (by omega) (by omega)
    have hlt : af.toNat * 2 ^ (i + 1) < 2 ^ 32 :=
      calc af.toNat * 2 ^ (i + 1) < 2 ^ af.toNat.size * 2 ^ (i + 1) :=
            Nat.mul_lt_mul_of_pos_right (Nat.lt_size_self _) (Nat.two_pow_pos _)
        _ = 2 ^ (af.toNat.size + (i + 1)) := (pow_add _ _ _).symm
        _ ≤ 2 ^ 32 := Nat.pow_le_pow_right (by decide) hsize
    rw [Function.iterate_succ_apply', upRound]
    constructor
    · rw [toNat_shiftLeft_of_lt (k := 1) rfl (by decide), haf, Nat.mul_assoc, ← pow_add]
      rwa [haf, Nat.mul_assoc, ← pow_add]
    · have hone : 1 ≤ (upRound^[i] (af, ae)).2 := by
        rw [UInt32.le_iff_toNat_le, hae', UInt32.toNat_one]
        omega
      rw [UInt32.toNat_sub_of_le _ _ hone, hae', UInt32.toNat_one]
      omega

theorem normalizeUp_eq {s : UInt32 × UInt32} (hne : s.1.toNat ≠ 0) (hsize : s.1.toNat.size ≤ 24)
    (hae : 24 ≤ s.2.toNat) (hfuel : 24 < fuel) :
    ∃ t, normalizeUp fuel s = some t ∧ t.1.toNat = s.1.toNat * 2 ^ (24 - s.1.toNat.size) ∧
      t.2.toNat = s.2.toNat - (24 - s.1.toNat.size) := by
  refine ⟨_, whileLoop_iterate (k := 24 - s.1.toNat.size) (fun i hi => ?_) (by omega),
    iterate_upRound (by omega) (by omega)⟩
  rw [decide_eq_decide, up_iff, (iterate_upRound (by omega) (by omega)).1, size_mul_two_pow hne]
  omega

/-- At most one of the loops has anything to do.  They leave the 24 leading bits, and the exponent
of the number. -/
theorem normalize_eq
    (hshift : ∀ x : UInt32, x.toNat ≤ af.toNat → (shiftRight x).toNat = x.toNat / 2)
    (hne : af.toNat ≠ 0) (hfuel : 24 < fuel) :
    ∃ s t, normalizeDown shiftRight fuel (af, 0x80 + 22) = some s ∧ normalizeUp fuel s = some t ∧
      t.1.toNat = leadingBits 24 af.toNat ∧ t.2.toNat = 126 + af.toNat.size := by
  have hsize : af.toNat.size ≤ 32 := Nat.size_le.mpr af.toNat_lt
  have hpos := Nat.size_pos.mpr (Nat.pos_of_ne_zero hne)
  obtain ⟨s, hdown, haf, hae⟩ := normalizeDown_eq (0x80 + 22) hshift (by decide)
    (show 8 < fuel by omega)
  rw [show (0x80 + 22 : UInt32).toNat = 150 from rfl] at hae
  have hcut : s.1.toNat.size = af.toNat.size - (af.toNat.size - 24) := by
    rw [haf, size_div_two_pow]
  have hne' : s.1.toNat ≠ 0 := by
    rw [← Nat.pos_iff_ne_zero, ← Nat.size_pos]
    omega
  obtain ⟨t, hup, haf', hae'⟩ := normalizeUp_eq hne' (by omega) (by omega) hfuel
  refine ⟨s, t, hdown, hup, ?_, by omega⟩
  rw [haf', hcut, haf, leadingBits]
  congr 2
  omega

/-! ### From an integer to a float -/

/-- A single-precision number: 8 bits of exponent and 23 of fraction. -/
abbrev Single := Fields 8 23

/-- The number with the bit pattern `a`. -/
def single (a : UInt32) : Single := ofBits 8 23 a.toNat

theorem bias_single : bias 8 = 127 := rfl

theorem fits_single (x : UInt32) : bias 8 + x.toNat.size ≤ 2 ^ 8 := by
  have hsize : x.toNat.size ≤ 32 := Nat.size_le.mpr x.toNat_lt
  rw [bias_single]
  omega

/-- The fields are packed into a word without overlapping. -/
theorem toNat_pack {as ae af : UInt32} (has : as.toNat < 2) (hae : ae.toNat < 2 ^ 8) :
    ((as <<< 31) ||| (ae <<< 23) ||| (af &&& 0x007fffff)).toNat =
      (as.toNat * 2 ^ 8 + ae.toNat) * 2 ^ 23 + af.toNat % 2 ^ 23 := by
  have hsign : (as <<< 31).toNat = as.toNat * 2 ^ 31 :=
    toNat_shiftLeft_of_lt rfl (by decide) (by omega)
  have hexponent : (ae <<< 23).toNat = ae.toNat * 2 ^ 23 :=
    toNat_shiftLeft_of_lt rfl (by decide) (by omega)
  have hfraction : (af &&& 0x007fffff).toNat = af.toNat % 2 ^ 23 := toNat_and_low rfl
  have hhigh : as.toNat * 2 ^ 31 ||| ae.toNat * 2 ^ 23 =
      (as.toNat * 2 ^ 8 + ae.toNat) * 2 ^ 23 := by
    rw [← Nat.shiftLeft_eq as.toNat, shiftLeft_or (by omega)]
    omega
  rw [UInt32.toNat_or, UInt32.toNat_or, hsign, hexponent, hfraction, hhigh,
    ← Nat.shiftLeft_eq (as.toNat * 2 ^ 8 + ae.toNat), shiftLeft_or (Nat.mod_lt _ (by decide)),
    Nat.shiftLeft_eq]

/-- The conversion gives the float with the magnitude and the sign of its arguments. -/
theorem floatSf_eq {as : UInt32} (af : UInt32) (sign : Bool)
    (hshift : ∀ x : UInt32, x.toNat ≤ af.toNat → (shiftRight x).toNat = x.toNat / 2)
    (hsign : as.toNat = sign.toNat) (hzero : af = 0 → sign = false) (hfuel : 24 < fuel) :
    ∃ a, floatSf shiftRight fuel as af = some a ∧
      single a = ofMagnitude sign af.toNat (fits_single af) := by
  rw [floatSf]
  dsimp only
  by_cases h0 : af = 0
  · subst h0
    obtain rfl := hzero rfl
    exact ⟨0, if_pos rfl, ofBits_zero _⟩
  · have hne : af.toNat ≠ 0 := fun h => h0 (UInt32.toNat_inj.mp h)
    have hsize : af.toNat.size ≤ 32 := Nat.size_le.mpr af.toNat_lt
    obtain ⟨s, t, hdown, hup, hfraction, hexponent⟩ := normalize_eq hshift hne hfuel
    refine ⟨(as <<< 31) ||| (t.2 <<< 23) ||| (t.1 &&& 0x007fffff), ?_, ?_⟩
    · rw [if_neg h0, hdown, Option.bind_eq_bind, Option.bind_some, hup]
      rfl
    · rw [single, toNat_pack (hsign ▸ sign.toNat_lt) (by omega), hsign, hfraction, hexponent,
        ← ofBits_bits (ofMagnitude sign af.toNat (fits_single af))]
      apply congrArg _
      rw [Fields.bits, ofMagnitude]
      dsimp only
      rw [if_neg hne, bias_single, show 127 + af.toNat.size - 1 = 126 + af.toNat.size by omega]

/-! ### From a float to an integer -/

/-- The shift of `fixSf`, for any count that is not negative. -/
theorem toInt_shifted {af shift : Int32} {m k : ℕ} (haf : af.toInt = m) (hshift : shift.toInt = k) :
    (if 0 < shift then if shift < 31 then af >>> shift else 0 else af).toInt = (m / 2 ^ k : ℕ) := by
  have hlt := af.toInt_lt
  have hpos : 0 < shift ↔ 0 < k := by
    rw [Int32.lt_iff_toInt_lt, hshift]
    exact Int.natCast_pos
  have hsmall : shift < 31 ↔ k < 31 := by
    rw [Int32.lt_iff_toInt_lt, hshift]
    exact Int.ofNat_lt
  by_cases hk : 0 < k
  · rw [if_pos (hpos.mpr hk)]
    by_cases h31 : k < 31
    · rw [if_pos (hsmall.mpr h31), toInt_shiftRight hshift (by omega), haf]
      exact_mod_cast rfl
    · have hle : 2 ^ 31 ≤ 2 ^ k := Nat.pow_le_pow_right (by decide) (not_lt.mp h31)
      rw [if_neg (mt hsmall.mp h31), Nat.div_eq_of_lt (by omega)]
      rfl
  · obtain rfl : k = 0 := by omega
    rw [if_neg (mt hpos.mp hk), haf, pow_zero, Nat.div_one]

/-- The whole part of a magnitude, from the fields, as `fixSf` computes it.  The hidden bit of a
number with the exponent 0 is not taken for one. -/
theorem floor_magnitude_single (x : Single) (h : x.exponent.val < 158) :
    ⌊x.magnitude⌋₊ = (2 ^ 23 + x.fraction) * 2 ^ 7 / 2 ^ (157 - x.exponent.val) := by
  have hfraction := x.fraction.isLt
  rw [Fields.floor_magnitude, Fields.significand, bias_single]
  by_cases h0 : x.exponent.val = 0
  · rw [if_pos h0, h0, max_eq_left (Nat.zero_le 1), pow_one, Nat.div_eq_of_lt (by omega),
      Nat.div_eq_of_lt (by omega)]
  · rw [if_neg h0, max_eq_right (by omega),
      ← Nat.mul_div_mul_right (m := 2 ^ 7) _ _ (by decide), ← pow_add,
      ← Nat.mul_div_mul_right (m := 2 ^ x.exponent.val) ((2 ^ 23 + x.fraction.val) * 2 ^ 7) _
        (Nat.two_pow_pos _), ← pow_add, Nat.mul_right_comm]
    congr 2
    omega

theorem sign_field (a : UInt32) : a >>> 31 ≠ 0 ↔ (single a).sign = true := by
  have hlt := a.toNat_lt
  rw [ne_eq, ← UInt32.toNat_inj, UInt32.toNat_zero, toNat_shiftRight (k := 31) rfl (by decide),
    single, ofBits, decide_eq_true_eq]
  omega

theorem exponent_field (a : UInt32) :
    ((a >>> 23) &&& 0xff).toInt32.toInt = (single a).exponent.val := by
  have hword : ((a >>> 23) &&& 0xff).toNat = (single a).exponent.val := by
    rw [toNat_and_low (k := 8) rfl, toNat_shiftRight (k := 23) rfl (by decide)]
    rfl
  have hlt := (single a).exponent.isLt
  rw [toInt_toInt32_of_lt (by omega), hword]

theorem fraction_field (a : UInt32) :
    ((0x00800000 ||| (a &&& 0x007fffff)).toInt32 <<< 7).toInt =
      ((2 ^ 23 + (single a).fraction.val) * 2 ^ 7 : ℕ) := by
  have hword : (0x00800000 ||| (a &&& 0x007fffff)).toNat = 2 ^ 23 + (single a).fraction.val := by
    rw [UInt32.toNat_or, toNat_and_low (k := 23) rfl]
    exact shiftLeft_or (k := 23) (a := 1) (Nat.mod_lt _ (by decide))
  have hlt := (single a).fraction.isLt
  have hint := toInt_toInt32_of_lt (x := 0x00800000 ||| (a &&& 0x007fffff)) (by omega)
  rw [hword] at hint
  rw [toInt_shiftLeft (k := 7) rfl (by decide) (by omega) (by omega), hint]
  exact_mod_cast rfl

theorem toInt_shiftCount {ae : Int32} {e : ℕ} (hae : ae.toInt = e) (he : e < 158) :
    (-(ae - 0x80 - 29)).toInt = (157 - e : ℕ) := by
  have h128 : (0x80 : Int32).toInt = 128 := rfl
  have h29 : (29 : Int32).toInt = 29 := rfl
  rw [Int32.toInt_neg, Int32.toInt_sub, Int32.toInt_sub, hae, Int.bmod_sub_bmod, Int.bmod_neg_bmod,
    h128, h29, Int.bmod_eq_of_le (by omega) (by omega)]
  omega

/-- `fixSf` rounds a number below `2 ^ 31` towards zero. -/
theorem fixSf_eq {a : UInt32} (h : (single a).exponent.val < 158) :
    (fixSf a).toInt = (single a).toInt := by
  have hshifted := toInt_shifted (fraction_field a) (toInt_shiftCount (exponent_field a) h)
  rw [← floor_magnitude_single _ h] at hshifted
  rw [Fields.toInt, fixSf]
  by_cases hneg : (single a).sign = true
  · rw [if_pos ((sign_field a).mpr hneg), if_pos hneg, toInt_neg_of_nonneg, hshifted]
    rw [hshifted]
    exact Int.natCast_nonneg _
  · rw [if_neg (mt (sign_field a).mp hneg), if_neg hneg, hshifted]

/-! ### There and back -/

theorem fits_int (n : Int32) : bias 8 + n.toInt.natAbs.size ≤ 2 ^ 8 := by
  have hle := n.le_toInt
  have hlt := n.toInt_lt
  have hsize : n.toInt.natAbs.size ≤ 32 := Nat.size_le.mpr (by omega)
  rw [bias_single]
  omega

theorem natAbs_lt {n : Int32} (hn : n ≠ Int32.minValue) : n.toInt.natAbs < 2 ^ 31 := by
  have hle := n.le_toInt
  have hlt := n.toInt_lt
  have hmin : n.toInt ≠ -2 ^ 31 := fun h => hn (Int32.toInt_inj.mp h)
  omega

/-- Every `int32_t` but the least is converted to the float with its leading bits. -/
theorem floatsisf_eq {n : Int32} (hn : n ≠ Int32.minValue) (hfuel : 24 < fuel) :
    ∃ a, floatsisf fuel n = some a ∧ single a = ofInt n.toInt (fits_int n) := by
  have hmagnitude := toNat_abs n
  have hlt := natAbs_lt hn
  have hsign : (if 0 ≤ n then 0 else 1 : UInt32).toNat = (decide (n.toInt < 0)).toNat := by
    by_cases hnonneg : 0 ≤ n.toInt
    · rw [if_pos ((nonneg_iff n).mpr hnonneg), decide_eq_false (not_lt.mpr hnonneg)]
      rfl
    · rw [if_neg (mt (nonneg_iff n).mp hnonneg), decide_eq_true (not_le.mp hnonneg)]
      rfl
  have hzero : (if 0 ≤ n then n else -n).toUInt32 = 0 → decide (n.toInt < 0) = false := by
    intro h
    rw [h, UInt32.toNat_zero] at hmagnitude
    exact decide_eq_false (by omega)
  obtain ⟨a, hrun, hsingle⟩ := floatSf_eq (if 0 ≤ n then n else -n).toUInt32
    (decide (n.toInt < 0)) (fun x hx => toNat_shiftSigned (by omega)) hsign hzero hfuel
  refine ⟨a, hrun, hsingle.trans ?_⟩
  simp only [ofInt, hmagnitude]

/-- The sign of the least one stays through the negation, and through every shift. -/
theorem floatsisf_minValue (fuel : Nat) : floatsisf fuel Int32.minValue = none := by
  have hdown : normalizeDown shiftSigned fuel (0x80000000, 0x80 + 22) = none := by
    refine whileLoop_eq_none (P := fun s => 2 ^ 31 ≤ s.1.toNat) (fun s hs => ?_) (by decide) fuel
    refine ⟨decide_eq_true ((down_iff s.1).mpr ?_), le_toNat_shiftSigned hs⟩
    exact Nat.lt_size.mpr (by omega)
  have hword : (if 0 ≤ Int32.minValue then Int32.minValue else -Int32.minValue).toUInt32 =
      0x80000000 := by decide
  rw [floatsisf, hword, floatSf]
  dsimp only
  rw [if_neg (by decide), hdown]
  rfl

/-- The float of a number that is not the least comes back as the number when the bits below its 24
leading ones are zeros. -/
theorem fixsfsi_eq_iff {n : Int32} {a : UInt32} (hn : n ≠ Int32.minValue)
    (ha : single a = ofInt n.toInt (fits_int n)) :
    fixsfsi a = n ↔ 2 ^ (n.toInt.natAbs.size - 24) ∣ n.toInt.natAbs := by
  have hsize : n.toInt.natAbs.size ≤ 31 := Nat.size_le.mpr (natAbs_lt hn)
  have hexponent := exponent_ofMagnitude_le (f := 23) (decide (n.toInt < 0)) (fits_int n)
  rw [bias_single] at hexponent
  have hlt : (single a).exponent.val < 158 := by
    rw [ha, ofInt]
    omega
  rw [← Int32.toInt_inj, fixsfsi, fixSf_eq hlt, ha]
  exact toInt_ofInt_iff (by decide) _ _

/-- The loops of `__floatsisf` end, and `__fixsfsi` takes a small number back from its float. -/
def ConvertsBack (n : Int32) : Prop :=
  ∃ enough, ∀ fuel, enough ≤ fuel → ∃ a, floatsisf fuel n = some a ∧
    (|n.toInt| ≤ 2 ^ 24 → fixsfsi a = n)

theorem not_convertsBack_minValue : ¬ConvertsBack Int32.minValue := by
  rintro ⟨enough, hruns⟩
  obtain ⟨a, hrun, -⟩ := hruns enough (le_refl _)
  rw [floatsisf_minValue] at hrun
  cases hrun

/-- Every number but the least is converted to a float, and back when its magnitude is at most
`2 ^ 24`. -/
theorem convertsBack_iff (n : Int32) : ConvertsBack n ↔ n ≠ Int32.minValue := by
  constructor
  · rintro h rfl
    exact not_convertsBack_minValue h
  · intro hn
    refine ⟨25, fun fuel hfuel => ?_⟩
    obtain ⟨a, hrun, ha⟩ := floatsisf_eq hn hfuel
    refine ⟨a, hrun, fun hsmall => (fixsfsi_eq_iff hn ha).mpr ?_⟩
    rw [Int.abs_eq_natAbs] at hsmall
    exact truncate_eq_self_iff.mp (truncate_of_le (by decide) (by omega))

/-- The conversion of the least number does not end. -/
theorem floatsisf_hangs : ¬∀ n : Int32, ConvertsBack n :=
  fun hall => not_convertsBack_minValue (hall Int32.minValue)

/-! ### Unsigned numbers -/

/-- Without a sign to keep, the loops end for every number. -/
theorem floatunsisf_eq (n : UInt32) (hfuel : 24 < fuel) :
    ∃ a, floatunsisf fuel n = some a ∧ single a = ofMagnitude false n.toNat (fits_single n) := by
  have hnonneg : 0 ≤ n := UInt32.le_iff_toNat_le.mpr (Nat.zero_le _)
  rw [floatunsisf, if_pos hnonneg, if_pos hnonneg]
  exact floatSf_eq n false (fun x _ => toNat_shiftUnsigned x) rfl (fun _ => rfl) hfuel

/-- A number comes back that is below `2 ^ 31`, and has zeros below its 24 leading bits. -/
theorem fixunssfsi_eq_iff {n a : UInt32} (hn : n.toNat < 2 ^ 31)
    (ha : single a = ofMagnitude false n.toNat (fits_single n)) :
    fixunssfsi a = n ↔ 2 ^ (n.toNat.size - 24) ∣ n.toNat := by
  have hsize : n.toNat.size ≤ 31 := Nat.size_le.mpr hn
  have hexponent := exponent_ofMagnitude_le (f := 23) false (fits_single n)
  rw [bias_single, ← ha] at hexponent
  have hint : (fixSf a).toInt = truncate 24 n.toNat := by
    rw [fixSf_eq (by omega), ha, toInt_ofMagnitude (by decide), if_neg Bool.false_ne_true]
  have hword := toNat_toUInt32_of_nonneg (y := fixSf a) (by omega)
  rw [← truncate_eq_self_iff, ← UInt32.toNat_inj, fixunssfsi]
  omega

end PrplHypervisor.Guest
