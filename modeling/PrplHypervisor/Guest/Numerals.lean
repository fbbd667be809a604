import PrplHypervisor.Lib.Numerals
import PrplHypervisor.Lib.SignedWords
import Mathlib.Data.UInt
import Mathlib.Algebra.Order.Ring.Int

/-! `itoa`, `strtol` and `atoi` of the guest library (`bare-metal-apps/lib/libc.c`).  The buffer is
the memory behind the argument `s`, by index.  Signed arithmetic wraps, and `char` is signed. -/

namespace PrplHypervisor.Guest

open Lib.Numerals Lib.SignedWords

/-- The memory behind a pointer to characters. -/
abbrev Text := Nat → UInt8

/-- The string that `itoa` takes its digits from, the digit 0 at index 35. -/
def digitText : List Char :=
  ['z', 'y', 'x', 'w', 'v', 'u', 't', 's', 'r', 'q', 'p', 'o', 'n', 'm', 'l', 'k', 'j', 'i', 'h',
    'g', 'f', 'e', 'd', 'c', 'b', 'a', '9', '8', '7', '6', '5', '4', '3', '2', '1', '0', '1', '2',
    '3', '4', '5', '6', '7', '8', '9', 'a', 'b', 'c', 'd', 'e', 'f', 'g', 'h', 'i', 'j', 'k', 'l',
    'm', 'n', 'o', 'p', 'q', 'r', 's', 't', 'u', 'v', 'w', 'x', 'y', 'z']

def digitChar (v : Int32) : UInt8 := (digitText.getD (35 + v).toInt.toNat '\x00').toUInt8

/-- A base that `itoa` accepts. -/
abbrev Base := { base : Int32 // ¬(base < 2 ∨ 36 < base) }

theorem Base.bounds (base : Base) : 2 ≤ base.val.toInt ∧ base.val.toInt ≤ 36 := by
  have h := base.property
  rw [Int32.lt_iff_toInt_lt, Int32.lt_iff_toInt_lt] at h
  have h2 : (2 : Int32).toInt = 2 := rfl
  have h36 : (36 : Int32).toInt = 36 := rfl
  omega

theorem toInt_div_base (i : Int32) (base : Base) :
    (i / base.val).toInt = i.toInt.tdiv base.val.toInt := by
  refine Int32.toInt_div_of_ne_right i base.val fun h => ?_
  have hbase := base.bounds
  rw [h] at hbase
  exact absurd hbase.1 (by decide)

theorem natAbs_div_base (i : Int32) (base : Base) :
    (i / base.val).toInt.natAbs = i.toInt.natAbs / base.val.toInt.natAbs := by
  rw [toInt_div_base]
  exact Int.natAbs_tdiv _ _

/-- Dividing by a base brings every number but 0 closer to 0. -/
theorem natAbs_div_base_lt {i : Int32} (base : Base) (h : i / base.val ≠ 0) :
    (i / base.val).toInt.natAbs < i.toInt.natAbs := by
  have hbase := base.bounds
  rw [natAbs_div_base]
  refine Nat.div_lt_self (Nat.pos_of_ne_zero fun h0 => h ?_) (by omega)
  rw [← Int32.toInt_inj, Int32.toInt_zero, ← Int.natAbs_eq_zero, natAbs_div_base, h0, Nat.zero_div]

/-- The `do` loop of `itoa`: the digits are written from the index `ptr` on.  The result is the
memory, the index behind the digits, and the last `tmp_value`. -/
def itoaLoop (base : Base) (mem : Text) (ptr : Nat) (i : Int32) : Text × Nat × Int32 :=
  let tmpValue := i
  let i := tmpValue / base.val
  let mem := Function.update mem ptr (digitChar (tmpValue - i * base.val))
  if i ≠ 0 then itoaLoop base mem (ptr + 1) i
  else (mem, ptr + 1, tmpValue)
termination_by i.toInt.natAbs
decreasing_by exact natAbs_div_base_lt base ‹_›

def itoa (mem : Text) (i base : Int32) : Text :=
  if h : base < 2 ∨ 36 < base then Function.update mem 0 0
  else
    let (mem, ptr, tmpValue) := itoaLoop ⟨base, h⟩ mem 0 i
    let (mem, ptr) :=
      if tmpValue < 0 then (Function.update mem ptr '-'.toUInt8, ptr + 1) else (mem, ptr)
    let mem := Function.update mem ptr 0
    reverseSpan mem 0 (ptr - 1)

/-- A character as the code compares it: `char` is signed, and converted to `uint32_t`. -/
def charValue (c : UInt8) : UInt32 := c.toInt8.toInt32.toUInt32

/-- The value of a digit of any base; `none` where `strtol` leaves its loop. -/
def digitValue (ch : UInt32) : Option UInt32 :=
  if charValue '0'.toUInt8 ≤ ch ∧ ch ≤ charValue '9'.toUInt8 then some (ch - charValue '0'.toUInt8)
  else if charValue 'A'.toUInt8 ≤ ch ∧ ch ≤ charValue 'Z'.toUInt8 then
    some (ch - charValue 'A'.toUInt8 + 10)
  else if charValue 'a'.toUInt8 ≤ ch ∧ ch ≤ charValue 'z'.toUInt8 then
    some (ch - charValue 'a'.toUInt8 + 10)
  else none

/-- The loop of `strtol` with so many rounds left: the value, and the index behind the last
character that it has read. -/
def strtolLoop (mem : Text) (base : Int32) : Nat → Nat → UInt32 → UInt32 × Nat
  | 0, s, value => (value, s)
  | rounds + 1, s, value =>
    match digitValue (charValue (mem s)) with
    | some ch => strtolLoop mem base rounds (s + 1) (value * base.toUInt32 + ch)
    | none => (value, s + 1)

/-- `strtol`: the value and the index that goes to `*end`. -/
def strtol (mem : Text) (base : Int32) : Int32 × Nat :=
  let (neg, s) := if mem 0 = '-'.toUInt8 then (true, 1) else (false, 0)
  let (base, s) :=
    if mem s = '0'.toUInt8 ∧ mem (s + 1) = 'x'.toUInt8 then (16, s + 2) else (base, s)
  -- the rounds for `i` from 0 to 8
  let (value, s) := strtolLoop mem base 9 s 0
  (if neg then -value.toInt32 else value.toInt32, s - 1)

/-- The first loop of `atoi`, with bounded fuel: past blanks, and past a sign, which ends it.  The
result is the index behind them and `f`. -/
def atoiSign (mem : Text) : Nat → Nat → Option (Nat × Bool)
  | 0, _ => none
  | fuel + 1, s =>
    if mem s = ' '.toUInt8 ∨ mem s = '\t'.toUInt8 then atoiSign mem fuel (s + 1)
    else if mem s = '-'.toUInt8 then some (s + 1, true)
    else if mem s = '+'.toUInt8 then some (s + 1, false)
    else some (s, false)

/-- The second loop of `atoi`. -/
def atoiDigits (mem : Text) : Nat → Nat → Int32 → Option Int32
  | 0, _, _ => none
  | fuel + 1, s, n =>
    if '0'.toUInt8.toInt8 ≤ (mem s).toInt8 ∧ (mem s).toInt8 ≤ '9'.toUInt8.toInt8 then
      atoiDigits mem fuel (s + 1) (n * 10 + (mem s).toInt8.toInt32 - '0'.toUInt8.toInt8.toInt32)
    else some n

/-- `atoi`, where each loop takes at most `fuel` rounds. -/
def atoi (fuel : Nat) (mem : Text) : Option Int32 := do
  let (s, f) ← atoiSign mem fuel 0
  let n ← atoiDigits mem fuel s 0
  return if f then -n else n

/-! ### Texts in memory -/

/-- The memory has the characters `cs` from the index `s` on, and a NUL behind them. -/
def Written (mem : Text) (s : Nat) (cs : List UInt8) : Prop :=
  (∀ j (h : j < cs.length), mem (s + j) = cs[j]) ∧ mem (s + cs.length) = 0

theorem written_nil {mem : Text} {s : Nat} : Written mem s [] ↔ mem s = 0 := by
  simp [Written]

theorem written_cons {mem : Text} {s : Nat} {c : UInt8} {cs : List UInt8} :
    Written mem s (c :: cs) ↔ mem s = c ∧ Written mem (s + 1) cs := by
  constructor
  · rintro ⟨hchars, hnul⟩
    refine ⟨hchars 0 (Nat.zero_lt_succ _), fun j hj => ?_, ?_⟩
    · have h := hchars (j + 1) (Nat.succ_lt_succ hj)
      rw [List.getElem_cons_succ] at h
      rw [← h, Nat.add_right_comm, Nat.add_assoc]
    · rw [List.length_cons] at hnul
      rw [← hnul, Nat.add_right_comm, Nat.add_assoc]
  · rintro ⟨hc, hchars, hnul⟩
    refine ⟨fun j hj => ?_, ?_⟩
    · cases j with
      | zero => exact hc
      | succ j =>
        rw [List.getElem_cons_succ, ← hchars j (Nat.lt_of_succ_lt_succ hj), Nat.add_right_comm,
          Nat.add_assoc]
    · rw [List.length_cons, ← hnul, Nat.add_right_comm, Nat.add_assoc]

/-! ### The digits -/

/-- The character of a digit. -/
def digitByte (n : Nat) : UInt8 := if n < 10 then 48 + UInt8.ofNat n else 87 + UInt8.ofNat n

theorem digitText_getD {n : Nat} (hn : n < 36) :
    (digitText.getD (35 + n) '\x00').toUInt8 = digitByte n ∧
      (digitText.getD (35 - n) '\x00').toUInt8 = digitByte n := by
  have hall : ∀ n ∈ List.range 36, (digitText.getD (35 + n) '\x00').toUInt8 = digitByte n ∧
      (digitText.getD (35 - n) '\x00').toUInt8 = digitByte n := by decide
  exact hall n (List.mem_range.mpr hn)

/-- The text has a digit's character on either side of 0. -/
theorem digitChar_eq {v : Int32} (hv : v.toInt.natAbs < 36) :
    digitChar v = digitByte v.toInt.natAbs := by
  have hsum : (35 + v).toInt = 35 + v.toInt := by
    rw [Int32.toInt_add, show (35 : Int32).toInt = 35 from rfl]
    exact Int.bmod_eq_of_le (by omega) (by omega)
  rw [digitChar, hsum]
  rcases Int.natAbs_eq v.toInt with h | h
  · rw [show (35 + v.toInt).toNat = 35 + v.toInt.natAbs by omega]
    exact (digitText_getD hv).1
  · rw [show (35 + v.toInt).toNat = 35 - v.toInt.natAbs by omega]
    exact (digitText_getD hv).2

theorem digitValue_digitByte {n : Nat} (hn : n < 36) :
    digitValue (charValue (digitByte n)) = some (UInt32.ofNat n) := by
  have hall :
      ∀ n ∈ List.range 36, digitValue (charValue (digitByte n)) = some (UInt32.ofNat n) := by
    decide
  exact hall n (List.mem_range.mpr hn)

/-- What is left of a number when the digits above the last are taken away. -/
theorem toInt_lastDigit (i : Int32) (base : Base) :
    (i - i / base.val * base.val).toInt = i.toInt.tmod base.val.toInt := by
  have hbase := base.bounds
  have hle := i.le_toInt
  have hlt := i.toInt_lt
  have hsplit := Int.tdiv_mul_add_tmod i.toInt base.val.toInt
  have hmod : (i.toInt.tmod base.val.toInt).natAbs < base.val.toInt.natAbs := by
    rw [Int.natAbs_tmod]
    exact Nat.mod_lt _ (by omega)
  have habs : (i.toInt.tdiv base.val.toInt * base.val.toInt).natAbs ≤ i.toInt.natAbs := by
    rw [Int.natAbs_mul, Int.natAbs_tdiv]
    exact Nat.div_mul_le_self _ _
  have hprod : (i / base.val * base.val).toInt = i.toInt.tdiv base.val.toInt * base.val.toInt := by
    rw [Int32.toInt_mul, toInt_div_base]
    exact Int.bmod_eq_of_le (by omega) (by omega)
  rw [Int32.toInt_sub, hprod, show i.toInt - i.toInt.tdiv base.val.toInt * base.val.toInt =
    i.toInt.tmod base.val.toInt by omega]
  exact Int.bmod_eq_of_le (by omega) (by omega)

/-- The digits of a magnitude as characters, the least significant first. -/
def digitBytes (base : Base) (i : Int32) : List UInt8 :=
  (numeral base.val.toInt.natAbs i.toInt.natAbs).map digitByte

theorem digitBytes_eq (i : Int32) (base : Base) :
    digitBytes base i = digitChar (i - i / base.val * base.val) ::
      if i / base.val = 0 then [] else digitBytes base (i / base.val) := by
  have hbase := base.bounds
  have hlast := toInt_lastDigit i base
  have hmod := Nat.mod_lt i.toInt.natAbs (y := base.val.toInt.natAbs) (by omega)
  have habs : (i - i / base.val * base.val).toInt.natAbs =
      i.toInt.natAbs % base.val.toInt.natAbs := by
    rw [hlast]
    exact Int.natAbs_tmod _ _
  have hzero : i / base.val = 0 ↔ i.toInt.natAbs / base.val.toInt.natAbs = 0 := by
    rw [← Int32.toInt_inj, Int32.toInt_zero, ← Int.natAbs_eq_zero, natAbs_div_base]
  rw [digitBytes, numeral_eq (by omega), List.map_cons, digitChar_eq (by omega), habs]
  apply congrArg _
  by_cases h0 : i / base.val = 0
  · rw [if_pos h0, if_pos (hzero.mp h0), List.map_nil]
  · rw [if_neg h0, if_neg (mt hzero.mpr h0), digitBytes, natAbs_div_base]

/-! ### Writing -/

theorem neg_iff (i : Int32) : i < 0 ↔ i.toInt < 0 := by
  rw [Int32.lt_iff_toInt_lt, Int32.toInt_zero]

/-- A quotient other than 0 has the sign of the dividend. -/
theorem div_base_neg_iff {i : Int32} (base : Base) (h : i / base.val ≠ 0) :
    i / base.val < 0 ↔ i < 0 := by
  have hbase := base.bounds
  have hne : i.toInt.tdiv base.val.toInt ≠ 0 := by
    rw [← toInt_div_base]
    exact fun h0 => h (Int32.toInt_inj.mp h0)
  rw [neg_iff, neg_iff, toInt_div_base]
  rcases le_or_gt 0 i.toInt with hi | hi
  · have := Int.tdiv_nonneg hi (by omega : 0 ≤ base.val.toInt)
    omega
  · have hneg := Int.tdiv_nonneg (by omega : 0 ≤ -i.toInt) (by omega : 0 ≤ base.val.toInt)
    rw [Int.neg_tdiv] at hneg
    omega

/-- The memory, index and number that the loop of `itoa` leaves: the digits of `i` from `ptr` on,
and a number with the sign of `i`. -/
structure Pushed (base : Base) (mem : Text) (ptr : Nat) (i : Int32) (r : Text × Nat × Int32) :
    Prop where
  digits : ∀ j (h : j < (digitBytes base i).length), r.1 (ptr + j) = (digitBytes base i)[j]
  below : ∀ k < ptr, r.1 k = mem k
  next : r.2.1 = ptr + (digitBytes base i).length
  sign : r.2.2 < 0 ↔ i < 0

theorem itoaLoop_pushed (base : Base) (mem : Text) (ptr : Nat) (i : Int32) :
    Pushed base mem ptr i (itoaLoop base mem ptr i) := by
  fun_induction itoaLoop base mem ptr i with
  | case1 mem ptr i tmpValue i' mem' h ih =>
    have hbytes : digitBytes base i = digitChar (i - i' * base.val) :: digitBytes base i' := by
      rw [digitBytes_eq, if_neg h]
    constructor
    · intro j hj
      simp only [hbytes] at hj ⊢
      cases j with
      | zero => exact (ih.below ptr ptr.lt_succ_self).trans (Function.update_self _ _ _)
      | succ j =>
        rw [List.getElem_cons_succ, ← ih.digits j (Nat.lt_of_succ_lt_succ hj)]
        exact congrArg _ (by omega)
    · intro k hk
      rw [ih.below k (Nat.lt_succ_of_lt hk)]
      exact Function.update_of_ne (by omega) _ _
    · rw [ih.next, hbytes, List.length_cons]
      omega
    · exact ih.sign.trans (div_base_neg_iff base h)
  | case2 mem ptr i tmpValue i' mem' h =>
    have hbytes : digitBytes base i = [digitChar (i - i' * base.val)] := by
      rw [digitBytes_eq, if_pos (not_not.mp h)]
    constructor
    · intro j hj
      simp only [hbytes] at hj ⊢
      obtain rfl : j = 0 := by simpa using hj
      exact Function.update_self _ _ _
    · intro k hk
      exact Function.update_of_ne (by omega) _ _
    · rw [hbytes, List.length_singleton]
    · exact Iff.rfl

/-- Turning the characters of a string around in place turns the string around. -/
theorem Written.reverse {mem : Text} {cs : List UInt8} (h : Written mem 0 cs) (hne : cs ≠ []) :
    Written (reverseSpan mem 0 (cs.length - 1)) 0 cs.reverse := by
  have hpos := List.length_pos_iff.mpr hne
  refine ⟨fun j hj => ?_, ?_⟩
  · rw [List.length_reverse] at hj
    rw [reverseSpan_apply (by omega) (by omega), List.getElem_reverse,
      ← h.1 (cs.length - 1 - j) (by omega)]
    exact congrArg _ (by omega)
  · rw [List.length_reverse, reverseSpan_of_gt (by omega)]
    exact h.2

/-- The text of a number: a sign, and the digits from the most significant on. -/
def itoaText (base : Base) (i : Int32) : List UInt8 :=
  (if i < 0 then ['-'.toUInt8] else []) ++ (digitBytes base i).reverse

/-- `itoa` writes the text of the number, whatever was in the buffer. -/
theorem itoa_written (base : Base) (mem : Text) (i : Int32) :
    Written (itoa mem i base.val) 0 (itoaText base i) := by
  have hloop := itoaLoop_pushed base mem 0 i
  have hdigits := hloop.digits
  have hne : digitBytes base i ≠ [] := List.map_eq_nil_iff.not.mpr (numeral_ne_nil _ _)
  have hnext := hloop.next
  simp only [Nat.zero_add] at hdigits hnext
  rw [itoa, dif_neg base.property]
  by_cases hneg : i < 0
  · have htext : itoaText base i = (digitBytes base i ++ ['-'.toUInt8]).reverse := by
      rw [itoaText, if_pos hneg, List.reverse_append, List.reverse_singleton]
    simp only [if_pos (hloop.sign.mpr hneg), hnext, htext]
    have hwritten : Written (Function.update (Function.update (itoaLoop base mem 0 i).1
        (digitBytes base i).length '-'.toUInt8) ((digitBytes base i).length + 1) 0) 0
        (digitBytes base i ++ ['-'.toUInt8]) := by
      refine ⟨fun j hj => ?_, ?_⟩
      · rw [List.length_append, List.length_singleton] at hj
        rw [Nat.zero_add, Function.update_of_ne (by omega)]
        rcases Nat.lt_succ_iff_lt_or_eq.mp hj with hj | rfl
        · rw [Function.update_of_ne (by omega), List.getElem_append_left hj, hdigits j hj]
        · rw [Function.update_self, List.getElem_concat_length rfl]
      · rw [List.length_append, List.length_singleton, Nat.zero_add, Function.update_self]
    have hrev := hwritten.reverse (List.append_ne_nil_of_left_ne_nil hne _)
    rw [List.length_append, List.length_singleton] at hrev
    exact hrev
  · have htext : itoaText base i = (digitBytes base i).reverse := by
      rw [itoaText, if_neg hneg, List.nil_append]
    simp only [if_neg (mt hloop.sign.mp hneg), hnext, htext]
    have hwritten : Written (Function.update (itoaLoop base mem 0 i).1 (digitBytes base i).length 0)
        0 (digitBytes base i) := by
      refine ⟨fun j hj => ?_, ?_⟩
      · rw [Nat.zero_add, Function.update_of_ne (by omega)]
        exact hdigits j hj
      · rw [Nat.zero_add, Function.update_self]
    exact hwritten.reverse hne

/-! ### Reading -/

/-- Horner's rule on words. -/
def horner (base value : UInt32) (ds : List Nat) : UInt32 :=
  ds.foldl (fun value d => value * base + UInt32.ofNat d) value

theorem toNat_horner_modEq (base : UInt32) (ds : List Nat) {value : UInt32} {n : Nat}
    (h : value.toNat ≡ n [MOD 2 ^ 32]) :
    (horner base value ds).toNat ≡ ds.foldl (fun value d => value * base.toNat + d) n
      [MOD 2 ^ 32] := by
  induction ds generalizing value n with
  | nil => exact h
  | cons d ds ih =>
    apply ih
    have hdigit : (UInt32.ofNat d).toNat ≡ d [MOD 2 ^ 32] := by
      rw [UInt32.toNat_ofNat']
      exact Nat.mod_modEq _ _
    rw [UInt32.toNat_add, UInt32.toNat_mul]
    exact (Nat.mod_modEq _ _).trans (((Nat.mod_modEq _ _).trans (h.mul_right _)).add hdigit)

/-- Reading the digits of a number gives the number, modulo `2 ^ 32`. -/
theorem toNat_horner_numeral (base : UInt32) (n : Nat) :
    (horner base 0 (numeral base.toNat n).reverse).toNat = n % 2 ^ 32 := by
  have hzero : (0 : UInt32).toNat ≡ 0 [MOD 2 ^ 32] := rfl
  have h := toNat_horner_modEq base (numeral base.toNat n).reverse hzero
  rw [foldl_reverse_eq_ofDigits, ofDigits_numeral] at h
  rw [← h, Nat.mod_eq_of_lt (UInt32.toNat_lt _)]

/-- Digits that leave a round over are read up to the NUL, and others for as many rounds as there
are. -/
theorem strtolLoop_written {mem : Text} {ds : List Nat} (hds : ∀ d ∈ ds, d < 36) (base : Int32)
    {s : Nat} (h : Written mem s (ds.map digitByte)) (rounds : Nat) (value : UInt32) :
    (ds.length < rounds → strtolLoop mem base rounds s value =
        (horner base.toUInt32 value ds, s + ds.length + 1)) ∧
      (rounds ≤ ds.length → (strtolLoop mem base rounds s value).2 = s + rounds) := by
  induction ds generalizing s rounds value with
  | nil =>
    have hnul : mem s = 0 := written_nil.mp h
    have hnone : digitValue (charValue 0) = none := by decide
    cases rounds with
    | zero => exact ⟨fun hlt => absurd hlt (Nat.lt_irrefl 0), fun _ => rfl⟩
    | succ rounds =>
      refine ⟨fun _ => ?_, fun hle => absurd hle (Nat.not_succ_le_zero _)⟩
      simp only [strtolLoop, hnul, hnone]
      rfl
  | cons d ds ih =>
    obtain ⟨hd, hds⟩ := List.forall_mem_cons.mp hds
    obtain ⟨hc, hrest⟩ := written_cons.mp h
    cases rounds with
    | zero => exact ⟨fun hlt => absurd hlt (Nat.not_lt_zero _), fun _ => rfl⟩
    | succ rounds =>
      have ih := ih hds hrest rounds (value * base.toUInt32 + UInt32.ofNat d)
      simp only [strtolLoop, hc, digitValue_digitByte hd, List.length_cons]
      refine ⟨fun hlt => ?_, fun hle => ?_⟩
      · rw [ih.1 (Nat.lt_of_succ_lt_succ hlt), Nat.add_assoc s 1, Nat.add_comm 1]
        rfl
      · rw [ih.2 (Nat.le_of_succ_le_succ hle), Nat.add_assoc, Nat.add_comm 1]

/-- A magnitude with its sign. -/
theorem toInt32_magnitude {i : Int32} {v : UInt32} (h : v.toNat = i.toInt.natAbs) :
    (if i < 0 then -v.toInt32 else v.toInt32) = i := by
  have hle := i.le_toInt
  have hlt := i.toInt_lt
  apply Int32.toInt_inj.mp
  by_cases hneg : i < 0
  · have hint := (neg_iff i).mp hneg
    rw [if_pos hneg, Int32.toInt_neg, toInt_toInt32, Int.bmod_neg_bmod,
      show -(v.toNat : ℤ) = i.toInt by omega]
    exact Int.bmod_eq_of_le (by omega) (by omega)
  · have hint := mt (neg_iff i).mpr hneg
    rw [if_neg hneg, toInt_toInt32, show (v.toNat : ℤ) = i.toInt by omega]
    exact Int.bmod_eq_of_le (by omega) (by omega)

theorem toNat_base (base : Base) : base.val.toUInt32.toNat = base.val.toInt.natAbs := by
  have hbase := base.bounds
  have hlt := base.val.toUInt32.toNat_lt
  have hint := toInt_toInt32 base.val.toUInt32
  rw [Int32.toInt32_toUInt32] at hint
  have hmod : base.val.toInt = (base.val.toUInt32.toNat : ℤ) ∨
      base.val.toInt = (base.val.toUInt32.toNat : ℤ) - 2 ^ 32 := by
    rw [hint, Int.bmod]
    split_ifs <;> omega
  omega

theorem digitByte_ne {n : Nat} (hn : n < 36) :
    digitByte n ≠ 0 ∧ digitByte n ≠ '-'.toUInt8 ∧ digitByte n ≠ '+'.toUInt8 ∧
      digitByte n ≠ ' '.toUInt8 ∧ digitByte n ≠ '\t'.toUInt8 ∧
      (digitByte n = '0'.toUInt8 → n = 0) := by
  have hall : ∀ n ∈ List.range 36, digitByte n ≠ 0 ∧ digitByte n ≠ '-'.toUInt8 ∧
      digitByte n ≠ '+'.toUInt8 ∧ digitByte n ≠ ' '.toUInt8 ∧ digitByte n ≠ '\t'.toUInt8 ∧
      (digitByte n = '0'.toUInt8 → n = 0) := by decide
  exact hall n (List.mem_range.mpr hn)

/-- The digits from the most significant on. -/
def leading (base : Base) (i : Int32) : List Nat :=
  (numeral base.val.toInt.natAbs i.toInt.natAbs).reverse

theorem reverse_digitBytes (base : Base) (i : Int32) :
    (digitBytes base i).reverse = (leading base i).map digitByte :=
  List.map_reverse.symm

theorem leading_lt {base : Base} {i : Int32} {d : Nat} (hd : d ∈ leading base i) : d < 36 := by
  have hbase := base.bounds
  have := numeral_lt_base (by omega) (List.mem_reverse.mp hd)
  omega

/-- The first digit is 0 in the numeral 0 only. -/
theorem leading_cases (base : Base) (i : Int32) :
    ∃ d ds, leading base i = d :: ds ∧ (d = 0 → ds = []) := by
  have hne : leading base i ≠ [] := List.reverse_ne_nil_iff.mpr (numeral_ne_nil _ _)
  obtain ⟨d, ds, hcons⟩ := List.exists_cons_of_ne_nil hne
  exact ⟨d, ds, hcons, reverse_numeral_cons hcons⟩

/-- A numeral does not start with the prefix that sets the base to 16. -/
theorem not_prefix {mem : Text} {s : Nat} {base : Base} {i : Int32}
    (h : Written mem s ((leading base i).map digitByte)) :
    ¬(mem s = '0'.toUInt8 ∧ mem (s + 1) = 'x'.toUInt8) := by
  obtain ⟨d, ds, hcons, hzero⟩ := leading_cases base i
  have hd : d < 36 := leading_lt (by rw [hcons]; exact List.mem_cons_self)
  rw [hcons, List.map_cons, written_cons] at h
  rintro ⟨h0, hx⟩
  have hds := hzero ((digitByte_ne hd).2.2.2.2.2 (h.1.symm.trans h0))
  rw [hds, List.map_nil, written_nil, hx] at h
  exact absurd h.2 (by decide)

/-- The text of a number, sign and digits apart. -/
theorem written_itoaText {mem : Text} {base : Base} {i : Int32}
    (h : Written mem 0 (itoaText base i)) :
    (mem 0 = '-'.toUInt8 ↔ i < 0) ∧
      Written mem (if i < 0 then 1 else 0) ((leading base i).map digitByte) := by
  rw [itoaText, reverse_digitBytes] at h
  by_cases hneg : i < 0
  · rw [if_pos hneg, List.singleton_append, written_cons] at h
    rw [if_pos hneg]
    exact ⟨⟨fun _ => hneg, fun _ => h.1⟩, h.2⟩
  · rw [if_neg hneg, List.nil_append] at h
    rw [if_neg hneg]
    obtain ⟨d, ds, hcons, -⟩ := leading_cases base i
    have hd : d < 36 := leading_lt (by rw [hcons]; exact List.mem_cons_self)
    refine ⟨⟨fun hminus => ?_, fun hneg' => absurd hneg' hneg⟩, h⟩
    rw [hcons, List.map_cons, written_cons] at h
    exact absurd (h.1.symm.trans hminus) (digitByte_ne hd).2.1

theorem length_itoaText (base : Base) (i : Int32) :
    (itoaText base i).length = (if i < 0 then 1 else 0) + (leading base i).length := by
  rw [itoaText, reverse_digitBytes, List.length_append, List.length_map]
  split <;> rfl

/-- `strtol` on the text of a number: the sign is taken off, and the loop reads the digits. -/
theorem strtol_eq {mem : Text} {base : Base} {i : Int32} (h : Written mem 0 (itoaText base i)) :
    strtol mem base.val =
      let r := strtolLoop mem base.val 9 (if i < 0 then 1 else 0) 0
      (if i < 0 then -r.1.toInt32 else r.1.toInt32, r.2 - 1) := by
  obtain ⟨hminus, hdigits⟩ := written_itoaText h
  have hprefix := not_prefix hdigits
  by_cases hneg : i < 0
  · simp only [if_pos hneg] at hprefix ⊢
    simp only [strtol, if_pos (hminus.mpr hneg), if_neg hprefix, if_true]
  · simp only [if_neg hneg] at hprefix ⊢
    simp only [strtol, if_neg (mt hminus.mp hneg), if_neg hprefix, Bool.false_eq_true, if_false]

/-- Up to eight digits are read back, and the end is the NUL. -/
theorem strtol_of_le {mem : Text} {base : Base} {i : Int32} (h : Written mem 0 (itoaText base i))
    (hlen : (leading base i).length ≤ 8) :
    strtol mem base.val = (i, (itoaText base i).length) := by
  have hloop :=
    (strtolLoop_written (fun d hd => leading_lt hd) base.val (written_itoaText h).2 9 0).1
    (Nat.lt_succ_of_le hlen)
  have hvalue : (horner base.val.toUInt32 0 (leading base i)).toNat = i.toInt.natAbs := by
    have hle := i.le_toInt
    have hlt := i.toInt_lt
    rw [leading, ← toNat_base, toNat_horner_numeral, Nat.mod_eq_of_lt (by omega)]
  rw [strtol_eq h, hloop, length_itoaText]
  exact Prod.ext (toInt32_magnitude hvalue) (Nat.add_sub_cancel _ _)

/-- Of more digits only nine are read, and the end is the ninth. -/
theorem strtol_of_gt {mem : Text} {base : Base} {i : Int32} (h : Written mem 0 (itoaText base i))
    (hlen : 8 < (leading base i).length) :
    (strtol mem base.val).2 < (itoaText base i).length := by
  have hloop :=
    (strtolLoop_written (fun d hd => leading_lt hd) base.val (written_itoaText h).2 9 0).2
    hlen
  rw [strtol_eq h, length_itoaText]
  dsimp only
  omega

/-- A decimal digit as `atoi` tests and reads it. -/
theorem digitByte_decimal {n : Nat} (hn : n < 10) :
    ('0'.toUInt8.toInt8 ≤ (digitByte n).toInt8 ∧ (digitByte n).toInt8 ≤ '9'.toUInt8.toInt8) ∧
      (digitByte n).toInt8.toInt32.toUInt32 =
        UInt32.ofNat n + '0'.toUInt8.toInt8.toInt32.toUInt32 := by
  have hall : ∀ n ∈ List.range 10, ('0'.toUInt8.toInt8 ≤ (digitByte n).toInt8 ∧
      (digitByte n).toInt8 ≤ '9'.toUInt8.toInt8) ∧ (digitByte n).toInt8.toInt32.toUInt32 =
        UInt32.ofNat n + '0'.toUInt8.toInt8.toInt32.toUInt32 := by decide
  exact hall n (List.mem_range.mpr hn)

/-- One round of `atoi` is one step of Horner's rule. -/
theorem atoi_step (value : UInt32) {d : Nat} (hd : d < 10) :
    value.toInt32 * 10 + (digitByte d).toInt8.toInt32 - '0'.toUInt8.toInt8.toInt32 =
      (value * 10 + UInt32.ofNat d).toInt32 := by
  rw [← Int32.toInt32_toUInt32 (_ - _), Int32.toUInt32_sub, Int32.toUInt32_add, Int32.toUInt32_mul,
    (digitByte_decimal hd).2, ← UInt32.add_assoc, UInt32.add_sub_cancel, UInt32.toUInt32_toInt32]
  rfl

theorem atoiDigits_written {mem : Text} {ds : List Nat} (hds : ∀ d ∈ ds, d < 10) {s fuel : Nat}
    (h : Written mem s (ds.map digitByte)) (hfuel : ds.length < fuel) (value : UInt32) :
    atoiDigits mem fuel s value.toInt32 = some (horner 10 value ds).toInt32 := by
  induction ds generalizing s fuel value with
  | nil =>
    have hnul : mem s = 0 := written_nil.mp h
    obtain ⟨fuel, rfl⟩ := Nat.exists_eq_succ_of_ne_zero hfuel.ne'
    rw [atoiDigits, hnul, if_neg (by decide)]
    rfl
  | cons d ds ih =>
    obtain ⟨hd, hds⟩ := List.forall_mem_cons.mp hds
    obtain ⟨hc, hrest⟩ := written_cons.mp h
    rw [List.length_cons] at hfuel
    obtain ⟨fuel, rfl⟩ := Nat.exists_eq_succ_of_ne_zero (by omega : fuel ≠ 0)
    rw [atoiDigits, hc, if_pos (digitByte_decimal hd).1, atoi_step value hd,
      ih hds hrest (Nat.lt_of_succ_lt_succ hfuel)]
    rfl

/-- The base of `atoi`. -/
def decimal : Base := ⟨10, by decide⟩

/-- `atoi` reads the decimal text of every number. -/
theorem atoi_written {mem : Text} {i : Int32} (h : Written mem 0 (itoaText decimal i)) {fuel : Nat}
    (hfuel : (leading decimal i).length < fuel) : atoi fuel mem = some i := by
  obtain ⟨hminus, hdigits⟩ := written_itoaText h
  obtain ⟨fuel', rfl⟩ := Nat.exists_eq_succ_of_ne_zero (by omega : fuel ≠ 0)
  have hten : ∀ d ∈ leading decimal i, d < 10 :=
    fun d hd => numeral_lt_base (b := 10) (by decide) (List.mem_reverse.mp hd)
  have hvalue : (horner 10 0 (leading decimal i)).toNat = i.toInt.natAbs := by
    have hle := i.le_toInt
    have hlt := i.toInt_lt
    have hhorner := toNat_horner_numeral 10 i.toInt.natAbs
    rw [Nat.mod_eq_of_lt (by omega)] at hhorner
    exact hhorner
  have hsign : atoiSign mem (fuel' + 1) 0 = some (if i < 0 then 1 else 0, decide (i < 0)) := by
    by_cases hneg : i < 0
    · rw [atoiSign, hminus.mpr hneg, if_neg (by decide), if_pos rfl, if_pos hneg,
        decide_eq_true hneg]
    · obtain ⟨d, ds, hcons, -⟩ := leading_cases decimal i
      have hd : d < 36 := leading_lt (by rw [hcons]; exact List.mem_cons_self)
      obtain ⟨-, hnminus, hnplus, hnspace, hntab, -⟩ := digitByte_ne hd
      have hfirst : mem 0 = digitByte d := by
        rw [if_neg hneg, hcons, List.map_cons, written_cons] at hdigits
        exact hdigits.1
      rw [atoiSign, hfirst, if_neg (not_or.mpr ⟨hnspace, hntab⟩), if_neg hnminus, if_neg hnplus,
        if_neg hneg, decide_eq_false hneg]
  have hread : atoiDigits mem (fuel' + 1) (if i < 0 then 1 else 0) 0 =
      some (horner 10 0 (leading decimal i)).toInt32 := atoiDigits_written hten hdigits hfuel 0
  have hresult := toInt32_magnitude hvalue
  rw [atoi, hsign]
  simp only [Option.bind_eq_bind, Option.bind_some, Option.pure_def, hread, decide_eq_true_eq,
    hresult]

/-! ### The round trip -/

/-- `itoa` writes a string, `strtol` reads the number back and points to the NUL, and for base 10
`atoi` reads it back too. -/
def RoundTrip (mem : Text) (i base : Int32) : Prop :=
  ∃ cs, Written (itoa mem i base) 0 cs ∧ 0 ∉ cs ∧ strtol (itoa mem i base) base = (i, cs.length) ∧
    (base = 10 → ∃ n, ∀ fuel, n < fuel → atoi fuel (itoa mem i base) = some i)

theorem zero_notMem_itoaText (base : Base) (i : Int32) : 0 ∉ itoaText base i := by
  rw [itoaText, reverse_digitBytes, List.mem_append, not_or]
  constructor
  · split
    · decide
    · exact List.not_mem_nil
  · intro hmem
    obtain ⟨d, hd, hzero⟩ := List.mem_map.mp hmem
    exact (digitByte_ne (leading_lt hd)).1 hzero

/-- A string without NUL is over where the memory has one. -/
theorem Written.length_le {mem : Text} {cs : List UInt8} (h : Written mem 0 cs) (hnul : 0 ∉ cs)
    {n : Nat} (hn : mem (0 + n) = 0) : cs.length ≤ n := by
  by_contra hlt
  have hmem := List.getElem_mem (not_le.mp hlt)
  rw [← h.1 n (not_le.mp hlt), hn] at hmem
  exact hnul hmem

/-- The round trip succeeds for the numbers of at most eight digits. -/
theorem roundTrip_base_iff (mem : Text) (i : Int32) (base : Base) :
    RoundTrip mem i base.val ↔ (leading base i).length ≤ 8 := by
  have hwritten := itoa_written base mem i
  have hnul := zero_notMem_itoaText base i
  constructor
  · rintro ⟨cs, hcs, -, hstrtol, -⟩
    by_contra hlen
    have hend := strtol_of_gt hwritten (not_le.mp hlen)
    have hle := hwritten.length_le hnul hcs.2
    rw [hstrtol] at hend
    exact absurd hend (not_lt.mpr hle)
  · intro hlen
    refine ⟨itoaText base i, hwritten, hnul, strtol_of_le hwritten hlen, fun hten => ?_⟩
    obtain rfl : base = decimal := Subtype.ext hten
    exact ⟨_, fun fuel hfuel => atoi_written hwritten hfuel⟩

/-- In base 2 to 36, a number comes back from its text when it has at most eight digits. -/
theorem roundTrip_iff (mem : Text) (i base : Int32) (hbase : 2 ≤ base.toInt ∧ base.toInt ≤ 36) :
    RoundTrip mem i base ↔ |i.toInt| < base.toInt ^ 8 := by
  have hvalid : ¬(base < 2 ∨ 36 < base) := by
    rw [Int32.lt_iff_toInt_lt, Int32.lt_iff_toInt_lt, show (2 : Int32).toInt = 2 from rfl,
      show (36 : Int32).toInt = 36 from rfl]
    omega
  have hpow : |i.toInt| < base.toInt ^ 8 ↔ i.toInt.natAbs < base.toInt.natAbs ^ 8 := by
    rw [Int.abs_eq_natAbs, ← Int.natAbs_of_nonneg (by omega : 0 ≤ base.toInt)]
    norm_cast
  rw [roundTrip_base_iff mem i ⟨base, hvalid⟩, leading, List.length_reverse,
    numeral_length_le_iff (by dsimp only; omega) (by decide), hpow]

/-- The least number has eight digits in base 16. -/
theorem roundTrip_min : RoundTrip (fun _ => 0) Int32.minValue 16 :=
  (roundTrip_iff _ Int32.minValue 16 (by decide)).mpr (by decide)

/-- The end of a numeral of nine decimal digits is its last digit, not the NUL. -/
theorem roundTrip_nine_digits :
    ¬∀ (mem : Text) (i base : Int32), 2 ≤ base.toInt ∧ base.toInt ≤ 36 → RoundTrip mem i base := by
  intro hall
  have h := (roundTrip_base_iff (fun _ => 0) 100000000 decimal).mp (hall _ _ _ (by decide))
  revert h
  rw [leading, List.length_reverse, numeral_length_le_iff (by decide) (by decide)]
  decide

end PrplHypervisor.Guest
