import Mathlib.Data.UInt
import Mathlib.Algebra.Order.Ring.Int

/-! `print` of the hypervisor's library (`sys/lib/libc.c`) and of the guests'
(`bare-metal-apps/lib/libc.c`).  The two go through a format in the same way; the hypervisor's puts
a carriage return before a newline, and the guests' has floating-point conversions, which have no
result here. -/

namespace PrplHypervisor

namespace Kernel

def PAD_RIGHT : UInt32 := 1

def PAD_ZERO : UInt32 := 2

/-- The memory behind the argument `format`, by index. -/
abbrev Format := Nat → UInt8

/-- What is printed for the character or the conversion at an index of the format. -/
structure Emission where
  index : Nat
  bytes : List UInt8

/-- The variables of `print`, with the indexes of the format that it has read and its output.
`args` counts the arguments that `va_arg` has taken. -/
structure PrintState where
  format : Nat
  args : Nat
  pc : Int32
  reads : List Nat
  output : List Emission

/-- `*format` -/
def PrintState.read (s : PrintState) : PrintState := { s with reads := s.reads ++ [s.format] }

/-- `++format` -/
def PrintState.next (s : PrintState) : PrintState := { s with format := s.format + 1 }

/-- The output `bytes`, of which the result of `print` counts `pc`. -/
def PrintState.put (s : PrintState) (bytes : List UInt8) (pc : Int32) : PrintState :=
  { s with pc := s.pc + pc, output := s.output ++ [⟨s.format, bytes⟩] }

@[simp] theorem PrintState.format_read (s : PrintState) : s.read.format = s.format := rfl

@[simp] theorem PrintState.format_next (s : PrintState) : s.next.format = s.format + 1 := rfl

@[simp] theorem PrintState.format_put (s : PrintState) (bytes : List UInt8) (pc : Int32) :
    (s.put bytes pc).format = s.format := rfl

/-- What the two libraries do in their own ways: what goes before a newline, and the characters of
floating-point conversions. -/
structure PrintLibrary where
  newline : List UInt8
  float : UInt8 → Bool

/-- The arguments, and the strings that are in memory at the addresses among them. -/
structure PrintArgs where
  vaArg : Nat → UInt32
  string : UInt32 → List UInt8

/-! ### Conversions -/

/-- `prints`: what it prints, which is as much as it counts. -/
def prints (string : List UInt8) (width : Int32) (pad : UInt32) : List UInt8 :=
  let len := Int32.ofNat string.length
  let (width, padchar) :=
    if 0 < width then
      (if width ≤ len then 0 else width - len,
        if pad &&& PAD_ZERO ≠ 0 then '0'.toUInt8 else ' '.toUInt8)
    else (width, ' '.toUInt8)
  let padding := List.replicate width.toInt.toNat padchar
  if pad &&& PAD_RIGHT = 0 then padding ++ string else string ++ padding

/-- A base that `printi` is called with. -/
abbrev PrintBase := { b : UInt32 // 2 ≤ b }

theorem toNat_div_lt {u : UInt32} (b : PrintBase) (h : u ≠ 0) : (u / b.val).toNat < u.toNat := by
  have hb : 2 ≤ b.val.toNat := UInt32.le_iff_toNat_le.mp b.property
  have hu : 0 < u.toNat := Nat.pos_of_ne_zero fun hzero => h (UInt32.toNat_inj.mp hzero)
  rw [UInt32.toNat_div]
  exact Nat.div_lt_self hu hb

/-- The loop of `printi`, with the digits that are in `print_buf` already. -/
def printiLoop (b : PrintBase) (letbase : UInt8) (u : UInt32) (s : List UInt8) : List UInt8 :=
  if _h : u = 0 then s
  else
    let t := (u % b.val).toUInt8
    let t := if 10 ≤ t then t + (letbase - '0'.toUInt8 - 10) else t
    printiLoop b letbase (u / b.val) ((t + '0'.toUInt8) :: s)
termination_by u.toNat
decreasing_by exact toNat_div_lt b ‹_›

def printi (i : UInt32) (b : PrintBase) (sg : Bool) (width : Int32) (pad : UInt32)
    (letbase : Char) : List UInt8 :=
  if i = 0 then prints ['0'.toUInt8] width pad
  else if sg ∧ b.val = 10 ∧ i.toInt32 < 0 then
    let s := printiLoop b letbase.toUInt8 (-i) []
    if width ≠ 0 ∧ pad &&& PAD_ZERO ≠ 0 then '-'.toUInt8 :: prints s (width - 1) pad
    else prints ('-'.toUInt8 :: s) width pad
  else prints (printiLoop b letbase.toUInt8 i []) width pad

def nullString : List UInt8 :=
  ['('.toUInt8, 'n'.toUInt8, 'u'.toUInt8, 'l'.toUInt8, 'l'.toUInt8, ')'.toUInt8]

/-- What the conversion `c` prints of the next argument, or none when there is no such
conversion. -/
def conversion (string : UInt32 → List UInt8) (arg : UInt32) (width : Int32) (pad : UInt32)
    (c : UInt8) : Option (List UInt8) :=
  if c = 's'.toUInt8 then some (prints (if arg ≠ 0 then string arg else nullString) width pad)
  else if c = 'd'.toUInt8 then some (printi arg ⟨10, by decide⟩ true width pad 'a')
  else if c = 'x'.toUInt8 then some (printi arg ⟨16, by decide⟩ false width pad 'a')
  else if c = 'X'.toUInt8 then some (printi arg ⟨16, by decide⟩ false width pad 'A')
  else if c = 'u'.toUInt8 then some (printi arg ⟨10, by decide⟩ false width pad 'a')
  else if c = 'c'.toUInt8 then
    some (prints (if arg.toUInt8 ≠ 0 then [arg.toUInt8] else []) width pad)
  else none

/-! ### The format -/

/-- A loop over the characters of the format with the property `p`, with bounded fuel; `f` does its
body. -/
def skipWhile {β : Type} (format : Format) (p : UInt8 → Bool) (f : β → UInt8 → β) :
    Nat → PrintState → β → Option (PrintState × β)
  | 0, _, _ => none
  | fuel + 1, s, b =>
    if p (format s.format) then skipWhile format p f fuel s.read.next (f b (format s.format))
    else some (s.read, b)

def isDigit (c : UInt8) : Bool := '0'.toUInt8 ≤ c ∧ c ≤ '9'.toUInt8

/-- The loop for zero padding. -/
def skipZeros (format : Format) (fuel : Nat) (s : PrintState) (pad : UInt32) :
    Option (PrintState × UInt32) :=
  skipWhile format (· = '0'.toUInt8) (fun pad _ => pad ||| PAD_ZERO) fuel s pad

/-- The loop for the digits of the width. -/
def readWidth (format : Format) (fuel : Nat) (s : PrintState) (width : Int32) :
    Option (PrintState × Int32) :=
  skipWhile format isDigit (fun width c => width * 10 + (c - '0'.toUInt8).toUInt32.toInt32) fuel s
    width

variable (lib : PrintLibrary) (args : PrintArgs) (format : Format)

/-- The part of the body behind the `-` flag: the zero padding, the width and the conversion. -/
def printConversion (fuel : Nat) (s : PrintState) (pad : UInt32) : Option PrintState := do
  let (s, pad) ← skipZeros format fuel s pad
  let (s, width) ← readWidth format fuel s 0
  let c := format s.format
  if lib.float c then none
  else
    match conversion args.string (args.vaArg s.args) width pad c with
    | some text => some ({ s with args := s.args + 1 }.put text (Int32.ofNat text.length))
    | none => some s

/-- The body of the loop of `print` for a `%`: the variables behind it, and whether it leaves the
loop. -/
def printSpec (fuel : Nat) (s : PrintState) : Option (PrintState × Bool) :=
  let s := s.next.read
  let c := format s.format
  if c = 0 then some (s, true)
  else if c = '%'.toUInt8 then some (s.put [c] 1, false)
  else
    let s := if c = '-'.toUInt8 then printConversion lib args format fuel s.next PAD_RIGHT
      else printConversion lib args format fuel s 0
    s.map fun s => (s, false)

/-- The loop of `print`, with bounded fuel. -/
def printLoop : Nat → PrintState → Option PrintState
  | 0, _ => none
  | fuel + 1, s =>
    let s := s.read
    let c := format s.format
    if c = 0 then some s
    else if c = '%'.toUInt8 then do
      let (s, stop) ← printSpec lib args format fuel s
      if stop then some s else printLoop fuel s.next
    else
      let s := if c = '\n'.toUInt8 then s.put lib.newline 0 else s
      printLoop fuel (s.put [c] 1).next

def printStart : PrintState where
  format := 0
  args := 0
  pc := 0
  reads := []
  output := []

/-- What is the hypervisor's library's own. -/
def library : PrintLibrary := { newline := ['\r'.toUInt8], float := fun _ => false }

/-- `print` of the hypervisor's library. -/
def print (fuel : Nat) : Option PrintState := printLoop library args format fuel printStart

end Kernel

open Kernel

/-- The characters of the floating-point conversions of the guests' library. -/
def Guest.floats : List UInt8 :=
  ['.'.toUInt8, 'e'.toUInt8, 'E'.toUInt8, 'g'.toUInt8, 'G'.toUInt8, 'f'.toUInt8]

/-- What is the guests' library's own. -/
def Guest.library : PrintLibrary := { newline := [], float := fun c => c ∈ Guest.floats }

/-- `print` of the guests' library. -/
def Guest.print (args : PrintArgs) (format : Format) (fuel : Nat) : Option PrintState :=
  printLoop Guest.library args format fuel printStart

namespace Kernel

/-! ### The text of a format -/

/-- Where a character of the format is: in plain text, behind a `%`, or behind the flags or the
width of a specification that they begin. -/
inductive FormatState
  | text
  | percent
  | spec
  deriving DecidableEq, Repr

def FormatState.next : FormatState → UInt8 → FormatState
  | .text, c => if c = '%'.toUInt8 then .percent else .text
  | .percent, c => if c = '-'.toUInt8 ∨ isDigit c then .spec else .text
  | .spec, c => if isDigit c then .spec else .text

/-- Where the character at the index `i` is. -/
def formatState (format : Format) : Nat → FormatState
  | 0 => .text
  | i + 1 => (formatState format i).next (format i)

/-- The format ends with the NUL at the index `n`. -/
structure Terminated (format : Format) (n : Nat) : Prop where
  nul : format n = 0
  before : ∀ i < n, format i ≠ 0

/-- No character of the format is that of a floating-point conversion. -/
def NoFloat (float : UInt8 → Bool) (format : Format) (n : Nat) : Prop :=
  ∀ i < n, formatState format i ≠ .text → float (format i) = false

instance (float : UInt8 → Bool) (format : Format) (n : Nat) : Decidable (NoFloat float format n) :=
  inferInstanceAs (Decidable (∀ i < n, formatState format i ≠ .text → float (format i) = false))

/-- Nothing behind the NUL has been read, and the output is for what is before it. -/
structure StaysInside (n : Nat) (s : PrintState) : Prop where
  reads : ∀ i ∈ s.reads, i ≤ n
  output : ∀ e ∈ s.output, e.index < n

/-- `run` returns with enough fuel, and has stayed inside the format. -/
def ReturnsInside (run : Nat → Option PrintState) (n : Nat) : Prop :=
  ∃ enough, ∀ fuel ≥ enough, ∃ s, run fuel = some s ∧ StaysInside n s

variable {format : Format} {n : Nat} {s t : PrintState} {β : Type} {p : UInt8 → Bool}
variable {f : β → UInt8 → β} {b b' : β} {fuel : Nat}

theorem Terminated.lt (h : Terminated format n) {i : Nat} (hi : i ≤ n) (hne : format i ≠ 0) :
    i < n :=
  Nat.lt_of_le_of_ne hi fun heq => hne (heq ▸ h.nul)

/-- The digits of a specification belong to it. -/
theorem formatState_digits {i j : Nat} (hi : formatState format i ≠ .text) (hij : i ≤ j)
    (hdigits : ∀ k, i ≤ k → k < j → isDigit (format k)) :
    formatState format j ≠ .text ∧ (i < j → formatState format j = .spec) := by
  induction j, hij using Nat.le_induction with
  | base => exact ⟨hi, fun hlt => absurd hlt (Nat.lt_irrefl i)⟩
  | succ j hij ih =>
    obtain ⟨htext, -⟩ := ih fun k hk hkj => hdigits k hk (Nat.lt_succ_of_lt hkj)
    have hdigit := hdigits j hij (Nat.lt_succ_self j)
    have hspec : formatState format (j + 1) = .spec := by
      rw [formatState]
      cases hstate : formatState format j with
      | text => exact absurd hstate htext
      | percent | spec => simp [FormatState.next, hdigit]
    exact ⟨by rw [hspec]; decide, fun _ => hspec⟩

/-! ### The inner loops -/

theorem StaysInside.read (h : StaysInside n s) (hs : s.format ≤ n) : StaysInside n s.read := by
  refine ⟨?_, h.output⟩
  rw [PrintState.read, List.forall_mem_append, List.forall_mem_singleton]
  exact ⟨h.reads, hs⟩

theorem StaysInside.put (h : StaysInside n s) (hs : s.format < n) (bytes : List UInt8)
    (pc : Int32) : StaysInside n (s.put bytes pc) := by
  refine ⟨h.reads, ?_⟩
  rw [PrintState.put, List.forall_mem_append, List.forall_mem_singleton]
  exact ⟨h.output, hs⟩

/-- A loop over the characters with the property `p` has gone from `s` to `t`. -/
structure Skipped (format : Format) (n : Nat) (p : UInt8 → Bool) (s t : PrintState) : Prop where
  le : s.format ≤ t.format
  inside : t.format ≤ n
  passed : ∀ i, s.format ≤ i → i < t.format → p (format i)
  stopped : p (format t.format) = false
  stays : StaysInside n s → StaysInside n t

theorem skipWhile_ok (h : Terminated format n) (hnul : p 0 = false) (hs : s.format ≤ n)
    (hrun : skipWhile format p f fuel s b = some (t, b')) : Skipped format n p s t := by
  induction fuel generalizing s b with
  | zero => cases hrun
  | succ fuel ih =>
    rw [skipWhile] at hrun
    split_ifs at hrun with hp
    · have hlt : s.format < n := h.lt hs fun hzero => by simp [hzero, hnul] at hp
      have hnext : s.read.next.format ≤ n := hlt
      have hrest := ih hnext hrun
      refine ⟨Nat.le_of_succ_le hrest.le, hrest.inside, fun i hi hit => ?_, hrest.stopped,
        fun hstays => hrest.stays ⟨(hstays.read hs).reads, hstays.output⟩⟩
      rcases Nat.eq_or_lt_of_le hi with rfl | hlt
      · exact hp
      · exact hrest.passed i hlt hit
    · obtain ⟨rfl, -⟩ := Prod.mk.inj (Option.some.inj hrun)
      exact ⟨le_refl _, hs, fun i hi hit => absurd hit (Nat.not_lt.mpr hi),
        Bool.eq_false_iff.mpr hp, fun hstays => hstays.read hs⟩

/-- With fuel for the characters up to the NUL a loop comes to its end. -/
theorem skipWhile_defined (h : Terminated format n) (hnul : p 0 = false) (hs : s.format ≤ n)
    (hfuel : n - s.format < fuel) : ∃ t b', skipWhile format p f fuel s b = some (t, b') := by
  induction fuel generalizing s b with
  | zero => exact absurd hfuel (Nat.not_lt_zero _)
  | succ fuel ih =>
    rw [skipWhile]
    split_ifs with hp
    · have hlt : s.format < n := h.lt hs fun hzero => by simp [hzero, hnul] at hp
      refine ih hlt ?_
      change n - (s.format + 1) < fuel
      omega
    · exact ⟨_, _, rfl⟩

theorem skipWhile_reads (hrun : skipWhile format p f fuel s b = some (t, b')) :
    s.reads ⊆ t.reads := by
  induction fuel generalizing s b with
  | zero => cases hrun
  | succ fuel ih =>
    rw [skipWhile] at hrun
    split_ifs at hrun
    · exact List.Subset.trans (List.subset_append_left _ _) (ih hrun)
    · obtain ⟨rfl, -⟩ := Prod.mk.inj (Option.some.inj hrun)
      exact List.subset_append_left _ _

/-! ### A specification -/

variable {lib : PrintLibrary} {args : PrintArgs} {pad : UInt32} {stop : Bool}

theorem isDigit_zero : isDigit 0 = false := by decide

theorem conversion_nul (string : UInt32 → List UInt8) (arg : UInt32) (width : Int32)
    (pad : UInt32) : conversion string arg width pad 0 = none := by
  have hs : (0 : UInt8) ≠ 's'.toUInt8 := by decide
  have hd : (0 : UInt8) ≠ 'd'.toUInt8 := by decide
  have hx : (0 : UInt8) ≠ 'x'.toUInt8 := by decide
  have hX : (0 : UInt8) ≠ 'X'.toUInt8 := by decide
  have hu : (0 : UInt8) ≠ 'u'.toUInt8 := by decide
  have hc : (0 : UInt8) ≠ 'c'.toUInt8 := by decide
  rw [conversion, if_neg hs, if_neg hd, if_neg hx, if_neg hX, if_neg hu, if_neg hc]

/-- Behind a `%` and a `-` that may follow it. -/
structure InSpec (format : Format) (n i : Nat) : Prop where
  inside : i ≤ n
  state : formatState format i = .spec ∨
    formatState format i = .percent ∧ format i ≠ '-'.toUInt8 ∧ i < n

theorem InSpec.ne_text {i : Nat} (h : InSpec format n i) : formatState format i ≠ .text := by
  rcases h.state with hstate | ⟨hstate, -⟩
  · rw [hstate]
    decide
  · rw [hstate]
    decide

/-- The character of the conversion, or the NUL in its place. -/
theorem InSpec.ends {i j : Nat} (h : InSpec format n i) (hij : i ≤ j) (hj : j ≤ n)
    (hdigits : ∀ k, i ≤ k → k < j → isDigit (format k)) (hend : isDigit (format j) = false) :
    j < n ∧ formatState format (j + 1) = .text ∨ j = n ∧ formatState format n = .spec := by
  have hspec := (formatState_digits h.ne_text hij hdigits).2
  rcases Nat.eq_or_lt_of_le hij with rfl | hlt
  · rcases h.state with hstate | ⟨hstate, hdash, hlt⟩
    · rcases Nat.eq_or_lt_of_le hj with rfl | hlt
      · exact .inr ⟨rfl, hstate⟩
      · exact .inl ⟨hlt, by simp [formatState, hstate, FormatState.next, hend]⟩
    · exact .inl ⟨hlt, by simp [formatState, hstate, FormatState.next, hend, hdash]⟩
  · rcases Nat.eq_or_lt_of_le hj with rfl | hjn
    · exact .inr ⟨rfl, hspec hlt⟩
    · exact .inl ⟨hjn, by simp [formatState, hspec hlt, FormatState.next, hend]⟩

/-- Where the body of the loop for a `%` leaves the pointer. -/
structure SpecDone (format : Format) (n : Nat) (s t : PrintState) : Prop where
  stays : StaysInside n s → StaysInside n t
  le : s.format ≤ t.format
  state : formatState format t.format ≠ .text
  ends : t.format < n ∧ formatState format (t.format + 1) = .text ∨
    t.format = n ∧ formatState format n = .spec

/-- The two inner loops, one behind the other. -/
theorem skipBoth_ok (h : Terminated format n) {u : PrintState} {pad pad' : UInt32} {width : Int32}
    (hs : InSpec format n s.format) (hzeros : skipZeros format fuel s pad = some (t, pad'))
    (hwidth : readWidth format fuel t 0 = some (u, width)) : SpecDone format n s u := by
  have hskip := skipWhile_ok h (by decide) hs.inside hzeros
  have hread := skipWhile_ok h isDigit_zero hskip.inside hwidth
  have hle := hskip.le.trans hread.le
  have hdigits : ∀ k, s.format ≤ k → k < u.format → isDigit (format k) := by
    intro k hk hku
    by_cases hkt : k < t.format
    · rw [of_decide_eq_true (hskip.passed k hk hkt)]
      decide
    · exact hread.passed k (Nat.le_of_not_lt hkt) hku
  exact ⟨fun hstays => hread.stays (hskip.stays hstays), hle,
    (formatState_digits hs.ne_text hle hdigits).1, hs.ends hle hread.inside hdigits hread.stopped⟩

theorem printConversion_ok (h : Terminated format n) (hs : InSpec format n s.format)
    (hrun : printConversion lib args format fuel s pad = some t) : SpecDone format n s t := by
  unfold printConversion at hrun
  obtain ⟨⟨u, pad'⟩, hzeros, hrun⟩ := Option.bind_eq_some_iff.mp hrun
  obtain ⟨⟨v, width⟩, hwidth, hrun⟩ := Option.bind_eq_some_iff.mp hrun
  have hdone := skipBoth_ok h hs hzeros hwidth
  dsimp only at hrun
  split_ifs at hrun
  split at hrun
  next text hconversion =>
    obtain rfl := Option.some.inj hrun
    -- the NUL is the character of no conversion
    have hlt : v.format < n := by
      rcases hdone.ends with ⟨hlt, -⟩ | ⟨hend, -⟩
      · exact hlt
      · rw [hend, h.nul, conversion_nul] at hconversion
        cases hconversion
    refine ⟨fun hstays => ?_, hdone.le, hdone.state, hdone.ends⟩
    have hv : StaysInside n { v with args := v.args + 1 } :=
      ⟨(hdone.stays hstays).reads, (hdone.stays hstays).output⟩
    exact hv.put hlt _ _
  next =>
    obtain rfl := Option.some.inj hrun
    exact hdone

theorem printConversion_defined (h : Terminated format n) (hs : InSpec format n s.format)
    (hnul : lib.float 0 = false) (hfloat : NoFloat lib.float format n)
    (hfuel : n - s.format < fuel) :
    ∃ t, printConversion lib args format fuel s pad = some t := by
  obtain ⟨u, pad', hzeros⟩ : ∃ u pad', skipZeros format fuel s pad = some (u, pad') :=
    skipWhile_defined h (by decide) hs.inside hfuel
  have hskip := skipWhile_ok h (by decide) hs.inside hzeros
  have hle := hskip.le
  obtain ⟨v, width, hwidth⟩ : ∃ v width, readWidth format fuel u 0 = some (v, width) :=
    skipWhile_defined h isDigit_zero hskip.inside (by omega)
  have hdone := skipBoth_ok h hs hzeros hwidth
  have hnone : lib.float (format v.format) = false := by
    rcases hdone.ends with ⟨hlt, -⟩ | ⟨hend, -⟩
    · exact hfloat v.format hlt hdone.state
    · rw [hend, h.nul, hnul]
  simp only [printConversion, hzeros, hwidth, hnone, Option.bind_eq_bind, Option.bind_some,
    Bool.false_eq_true, if_false]
  split
  · exact ⟨_, rfl⟩
  · exact ⟨_, rfl⟩

theorem printSpec_eq (fuel : Nat) (s : PrintState) : printSpec lib args format fuel s =
    if format (s.format + 1) = 0 then some (s.next.read, true)
    else if format (s.format + 1) = '%'.toUInt8 then
      some (s.next.read.put [format (s.format + 1)] 1, false)
    else
      (if format (s.format + 1) = '-'.toUInt8 then
        printConversion lib args format fuel s.next.read.next PAD_RIGHT
      else printConversion lib args format fuel s.next.read 0).map fun s => (s, false) := rfl

theorem inSpec_dash {i : Nat} (hi : i < n) (hstate : formatState format i = .percent)
    (hdash : format i = '-'.toUInt8) : InSpec format n (i + 1) := by
  refine ⟨hi, .inl ?_⟩
  rw [formatState, hstate, hdash]
  rfl

/-- A `%` with what follows it in the format, or at its end. -/
theorem printSpec_ok (h : Terminated format n) (hs : s.format < n)
    (hstate : formatState format (s.format + 1) = .percent)
    (hrun : printSpec lib args format fuel s = some (t, stop)) :
    (StaysInside n s → StaysInside n t) ∧
      if stop then formatState format n ≠ .spec else SpecDone format n s t := by
  have hread : StaysInside n s → StaysInside n s.next.read :=
    fun hstays => StaysInside.read ⟨hstays.reads, hstays.output⟩ hs
  -- a conversion from `u` on is one from `s` on
  have hfrom : ∀ {u v : PrintState} {pad : UInt32},
      printConversion lib args format fuel u pad = some v → InSpec format n u.format →
      s.format ≤ u.format → (StaysInside n s → StaysInside n u) → SpecDone format n s v := by
    intro u v pad hv hu hle hstays
    have hdone := printConversion_ok h hu hv
    exact ⟨fun hs => hdone.stays (hstays hs), hle.trans hdone.le, hdone.state, hdone.ends⟩
  rw [printSpec_eq] at hrun
  split_ifs at hrun with hnul hagain hdash
  · -- the format ends with the `%`
    obtain ⟨rfl, rfl⟩ := Prod.mk.inj (Option.some.inj hrun)
    obtain rfl : s.format + 1 = n := Nat.le_antisymm hs (Nat.le_of_not_lt fun hlt =>
      h.before _ hlt hnul)
    exact ⟨hread, by simp [hstate]⟩
  · obtain ⟨rfl, rfl⟩ := Prod.mk.inj (Option.some.inj hrun)
    have hlt : s.format + 1 < n := h.lt hs hnul
    have hnext : formatState format (s.format + 1 + 1) = .text := by
      rw [formatState, hstate, hagain]
      rfl
    have hstays : StaysInside n s → StaysInside n (s.next.read.put [format (s.format + 1)] 1) :=
      fun hstays => (hread hstays).put hlt _ _
    exact ⟨hstays, hstays, Nat.le_succ _, by simp [hstate], .inl ⟨hlt, hnext⟩⟩
  · obtain ⟨u, hu, hret⟩ := Option.map_eq_some_iff.mp hrun
    obtain ⟨rfl, rfl⟩ := Prod.mk.inj hret
    have hdone := hfrom hu (inSpec_dash (h.lt hs hnul) hstate hdash) (Nat.le_add_right _ 2)
      fun hstays => ⟨(hread hstays).reads, (hread hstays).output⟩
    exact ⟨hdone.stays, hdone⟩
  · obtain ⟨u, hu, hret⟩ := Option.map_eq_some_iff.mp hrun
    obtain ⟨rfl, rfl⟩ := Prod.mk.inj hret
    have hdone := hfrom hu ⟨hs, .inr ⟨hstate, hdash, h.lt hs hnul⟩⟩ (Nat.le_succ _) hread
    exact ⟨hdone.stays, hdone⟩

theorem printSpec_defined (h : Terminated format n) (hs : s.format < n)
    (hstate : formatState format (s.format + 1) = .percent) (hnul : lib.float 0 = false)
    (hfloat : NoFloat lib.float format n) (hfuel : n - s.format ≤ fuel) :
    ∃ t stop, printSpec lib args format fuel s = some (t, stop) := by
  have hfrom : ∀ (u : PrintState) (pad : UInt32), InSpec format n u.format →
      s.format < u.format → ∃ v stop,
        (printConversion lib args format fuel u pad).map (fun s => (s, false)) =
          some (v, stop) := by
    intro u pad hu hlt
    obtain ⟨v, hv⟩ : ∃ v, printConversion lib args format fuel u pad = some v :=
      printConversion_defined h hu hnul hfloat (by omega)
    exact ⟨v, false, by rw [hv, Option.map_some]⟩
  rw [printSpec_eq]
  split_ifs with hend hagain hdash
  · exact ⟨_, _, rfl⟩
  · exact ⟨_, _, rfl⟩
  · exact hfrom s.next.read.next _ (inSpec_dash (h.lt hs hend) hstate hdash)
      (Nat.lt_add_of_pos_right Nat.two_pos)
  · exact hfrom s.next.read _ ⟨hs, .inr ⟨hstate, hdash, h.lt hs hend⟩⟩ (Nat.lt_succ_self _)

theorem printSpec_reads (hrun : printSpec lib args format fuel s = some (t, stop)) :
    s.reads ⊆ t.reads := by
  have hnext : s.reads ⊆ s.next.read.reads := List.subset_append_left _ _
  have hfrom : ∀ {u v : PrintState} {pad : UInt32},
      printConversion lib args format fuel u pad = some v → s.reads ⊆ u.reads →
      s.reads ⊆ v.reads := by
    intro u v pad hv hu
    unfold printConversion at hv
    obtain ⟨⟨w, pad'⟩, hzeros, hv⟩ := Option.bind_eq_some_iff.mp hv
    obtain ⟨⟨x, width⟩, hwidth, hv⟩ := Option.bind_eq_some_iff.mp hv
    have hx : s.reads ⊆ x.reads :=
      List.Subset.trans hu (List.Subset.trans (skipWhile_reads hzeros) (skipWhile_reads hwidth))
    dsimp only at hv
    split_ifs at hv
    split at hv
    · obtain rfl := Option.some.inj hv
      exact hx
    · obtain rfl := Option.some.inj hv
      exact hx
  rw [printSpec_eq] at hrun
  split_ifs at hrun
  · obtain ⟨rfl, -⟩ := Prod.mk.inj (Option.some.inj hrun)
    exact hnext
  · obtain ⟨rfl, -⟩ := Prod.mk.inj (Option.some.inj hrun)
    exact hnext
  · obtain ⟨u, hu, hret⟩ := Option.map_eq_some_iff.mp hrun
    obtain ⟨rfl, -⟩ := Prod.mk.inj hret
    exact hfrom hu hnext
  · obtain ⟨u, hu, hret⟩ := Option.map_eq_some_iff.mp hrun
    obtain ⟨rfl, -⟩ := Prod.mk.inj hret
    exact hfrom hu hnext

/-! ### The loop -/

theorem printLoop_reads (hrun : printLoop lib args format fuel s = some t) :
    s.format ∈ t.reads ∧ s.reads ⊆ t.reads := by
  induction fuel generalizing s with
  | zero => cases hrun
  | succ fuel ih =>
    -- what has been read so far stays, and the loop reads the next character
    have hrest : ∀ {u : PrintState}, s.read.reads ⊆ u.reads →
        s.format ∈ u.reads ∧ s.reads ⊆ u.reads := by
      intro u hu
      exact ⟨hu (List.mem_append_right _ (List.mem_singleton_self _)),
        List.Subset.trans (List.subset_append_left _ _) hu⟩
    rw [printLoop] at hrun
    dsimp only at hrun
    split_ifs at hrun
    · obtain rfl := Option.some.inj hrun
      exact hrest (List.Subset.refl _)
    · obtain ⟨⟨u, stop⟩, hspec, hrun⟩ := Option.bind_eq_some_iff.mp hrun
      have hu := printSpec_reads hspec
      dsimp only at hrun
      split_ifs at hrun
      · obtain rfl := Option.some.inj hrun
        exact hrest hu
      · exact hrest (List.Subset.trans hu (ih hrun).2)
    · exact hrest (ih hrun).2
    · exact hrest (ih hrun).2

/-- A run from plain text on: it reads behind the NUL exactly when the NUL is inside a
specification. -/
theorem printLoop_ok (h : Terminated format n) (hs : s.format ≤ n)
    (htext : formatState format s.format = .text)
    (hrun : printLoop lib args format fuel s = some t) :
    (formatState format n ≠ .spec → StaysInside n s → StaysInside n t) ∧
      (formatState format n = .spec → n + 1 ∈ t.reads) := by
  induction fuel generalizing s with
  | zero => cases hrun
  | succ fuel ih =>
    -- a character of the plain text
    have hplain : ∀ {u : PrintState},
        printLoop lib args format fuel (u.put [format s.format] 1).next = some t →
        format s.format ≠ 0 → format s.format ≠ '%'.toUInt8 → u.format = s.format →
        (StaysInside n s → StaysInside n u) →
        (formatState format n ≠ .spec → StaysInside n s → StaysInside n t) ∧
          (formatState format n = .spec → n + 1 ∈ t.reads) := by
      intro u hrun hnul hpercent hu hstays
      have hlt : u.format < n := hu ▸ h.lt hs hnul
      have hnext : formatState format (u.format + 1) = .text := by
        rw [hu, formatState, htext, FormatState.next, if_neg hpercent]
      obtain ⟨hin, hout⟩ := ih (s := (u.put [format s.format] 1).next) hlt hnext hrun
      refine ⟨fun hend hs' => hin hend ?_, hout⟩
      have hput := (hstays hs').put hlt [format s.format] 1
      exact ⟨hput.reads, hput.output⟩
    rw [printLoop] at hrun
    dsimp only at hrun
    split_ifs at hrun with hnul hpercent hnewline
    · obtain rfl := Option.some.inj hrun
      obtain rfl : s.format = n := Nat.le_antisymm hs (Nat.le_of_not_lt fun hlt =>
        h.before _ hlt hnul)
      exact ⟨fun _ hstays => hstays.read hs, fun hspec => by simp [htext] at hspec⟩
    · have hlt : s.format < n := h.lt hs hnul
      obtain ⟨⟨u, stop⟩, hspec, hrun⟩ := Option.bind_eq_some_iff.mp hrun
      have hstate : formatState format (s.read.format + 1) = .percent := by
        rw [PrintState.format_read, formatState, htext, show format s.format = _ from hpercent]
        rfl
      obtain ⟨hstays, hdone⟩ := printSpec_ok (s := s.read) h hlt hstate hspec
      dsimp only at hrun
      split_ifs at hrun with hstop
      · obtain rfl := Option.some.inj hrun
        rw [if_pos hstop] at hdone
        exact ⟨fun _ hin => hstays (hin.read hs), fun hend => absurd hend hdone⟩
      · rw [if_neg hstop] at hdone
        rcases hdone.ends with ⟨hun, hnext⟩ | ⟨hun, hend⟩
        · obtain ⟨hin, hout⟩ := ih (s := u.next) hun hnext hrun
          refine ⟨fun hend hs' => hin hend ?_, hout⟩
          exact ⟨(hstays (hs'.read hs)).reads, (hstays (hs'.read hs)).output⟩
        · -- the loop goes on behind the NUL
          have hread := (printLoop_reads hrun).1
          rw [PrintState.format_next, hun] at hread
          exact ⟨fun hne => absurd hend hne, fun _ => hread⟩
    · exact hplain hrun hnul hpercent rfl fun hin => (hin.read hs).put (h.lt hs hnul) _ _
    · exact hplain hrun hnul hpercent rfl fun hin => hin.read hs

theorem printLoop_defined (h : Terminated format n) (hnul : lib.float 0 = false)
    (hfloat : NoFloat lib.float format n) (hend : formatState format n ≠ .spec)
    (hs : s.format ≤ n) (htext : formatState format s.format = .text)
    (hfuel : n - s.format < fuel) : ∃ t, printLoop lib args format fuel s = some t := by
  induction fuel generalizing s with
  | zero => exact absurd hfuel (Nat.not_lt_zero _)
  | succ fuel ih =>
    have hplain : ∀ {u : PrintState}, format s.format ≠ 0 → format s.format ≠ '%'.toUInt8 →
        u.format = s.format →
        ∃ t, printLoop lib args format fuel (u.put [format s.format] 1).next = some t := by
      intro u hne hpercent hu
      have hlt : u.format < n := hu ▸ h.lt hs hne
      refine ih hlt ?_ ?_
      · rw [PrintState.format_next, PrintState.format_put, hu, formatState, htext,
          FormatState.next, if_neg hpercent]
      · rw [PrintState.format_next, PrintState.format_put, hu]
        omega
    rw [printLoop]
    dsimp only
    split_ifs with hne hpercent hnewline
    · exact ⟨_, rfl⟩
    · have hlt : s.format < n := h.lt hs hne
      have hstate : formatState format (s.read.format + 1) = .percent := by
        rw [PrintState.format_read, formatState, htext, show format s.format = _ from hpercent]
        rfl
      have hroom : n - s.read.format ≤ fuel := Nat.le_of_lt_succ hfuel
      obtain ⟨u, stop, hspec⟩ : ∃ u stop, printSpec lib args format fuel s.read = some (u, stop) :=
        printSpec_defined h hlt hstate hnul hfloat hroom
      obtain ⟨-, hdone⟩ := printSpec_ok (s := s.read) h hlt hstate hspec
      rw [hspec, Option.bind_eq_bind, Option.bind_some]
      cases stop with
      | true => exact ⟨u, rfl⟩
      | false =>
        have hle : s.format ≤ u.format := hdone.le
        rcases hdone.ends with ⟨hun, hnext⟩ | ⟨-, hspec⟩
        · apply ih (s := u.next) hun hnext
          rw [PrintState.format_next]
          omega
        · exact absurd hspec hend
    · exact hplain hne hpercent rfl
    · exact hplain hne hpercent rfl

/-- Either library's `print` stays inside a format exactly when the format does not end inside a
specification. -/
theorem printLoop_inside_iff (h : Terminated format n) (hnul : lib.float 0 = false)
    (hfloat : NoFloat lib.float format n) :
    ReturnsInside (fun fuel => printLoop lib args format fuel printStart) n ↔
      formatState format n ≠ .spec := by
  constructor
  · rintro ⟨enough, hall⟩ hspec
    obtain ⟨t, hrun, hstays⟩ := hall enough (le_refl _)
    have hread := (printLoop_ok h (Nat.zero_le n) rfl hrun).2 hspec
    exact absurd (hstays.reads _ hread) (Nat.not_succ_le_self n)
  · intro hend
    refine ⟨n + 1, fun fuel hfuel => ?_⟩
    obtain ⟨t, hrun⟩ : ∃ t, printLoop lib args format fuel printStart = some t :=
      printLoop_defined h hnul hfloat hend (Nat.zero_le n) rfl
        (Nat.lt_of_lt_of_le (Nat.lt_succ_self n) hfuel)
    refine ⟨t, hrun, (printLoop_ok h (Nat.zero_le n) rfl hrun).1 hend ⟨?_, ?_⟩⟩
    · exact fun _ hi => absurd hi List.not_mem_nil
    · exact fun _ he => absurd he List.not_mem_nil

/-- Both libraries stay inside a format exactly when it does not end inside a specification. -/
theorem prints_inside_iff (args : PrintArgs) (format : Format) (n : Nat)
    (h : Terminated format n) :
    (ReturnsInside (print args format) n ↔ formatState format n ≠ .spec) ∧
      (NoFloat Guest.library.float format n →
        (ReturnsInside (Guest.print args format) n ↔ formatState format n ≠ .spec)) :=
  ⟨printLoop_inside_iff h rfl fun _ _ _ => rfl, printLoop_inside_iff h (by decide)⟩

/-- The format of the characters `cs`, with the bytes `behind` its NUL. -/
def formatOf (cs : List Char) (behind : UInt8) : Format := fun i =>
  if i = cs.length then 0 else if h : i < cs.length then cs[i].toUInt8 else behind

theorem prints_inside_width :
    ReturnsInside (print ⟨fun _ => 7, fun _ => []⟩ (formatOf ['%', '5', 'd', '\n'] 65)) 4 ∧
      ReturnsInside
        (Guest.print ⟨fun _ => 7, fun _ => []⟩ (formatOf ['%', '5', 'd', '\n'] 65)) 4 := by
  have hends : Terminated (formatOf ['%', '5', 'd', '\n'] 65) 4 := ⟨by decide, by decide⟩
  obtain ⟨hprint, hguest⟩ := prints_inside_iff ⟨fun _ => 7, fun _ => []⟩
    (formatOf ['%', '5', 'd', '\n'] 65) 4 hends
  exact ⟨hprint.mpr (by decide), (hguest (by decide)).mpr (by decide)⟩

/-- A width with nothing behind it: the NUL is skipped. -/
theorem print_width_at_end :
    ¬∀ (args : PrintArgs) (format : Format) (n : Nat), Terminated format n →
      ReturnsInside (print args format) n := by
  intro hall
  have hends : Terminated (formatOf ['%', '5'] 65) 2 := ⟨by decide, by decide⟩
  obtain ⟨enough, hrun⟩ := hall ⟨fun _ => 0, fun _ => []⟩ (formatOf ['%', '5'] 65) 2 hends
  obtain ⟨s, hs, hstays⟩ := hrun enough (le_refl _)
  have hread := (printLoop_ok hends (Nat.zero_le 2) rfl hs).2 (by decide)
  exact absurd (hstays.reads 3 hread) (by decide)

end Kernel

end PrplHypervisor
