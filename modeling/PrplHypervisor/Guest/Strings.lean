import Mathlib.Algebra.Order.Ring.Int
import Mathlib.Data.List.Forall2
import PrplHypervisor.Guest.Numerals
import PrplHypervisor.Kernel.CopyPaths

/-! `memmove` and `strtok` of the guest library (`bare-metal-apps/lib/libc.c`).  `strtok` is meant
for a series of calls: the first one gets the string, the later ones `NULL`, and a static variable
has the place to go on at. -/

namespace PrplHypervisor.Guest

open Kernel Lib.Copy

section Move

/-- The loop of `memmove` that goes up. -/
def moveUp (mem : Bytes) : Nat → UInt32 → UInt32 → Bytes
  | 0, _, _ => mem
  | n + 1, s, p => moveUp (Function.update mem s (mem p)) n (s + 1) (p + 1)

/-- The loop that goes down; both pointers are decremented before the byte is copied. -/
def moveDown (mem : Bytes) : Nat → UInt32 → UInt32 → Bytes
  | 0, _, _ => mem
  | n + 1, s, p => moveDown (Function.update mem (s - 1) (mem (p - 1))) n (s - 1) (p - 1)

def memmove (mem : Bytes) (dst src n : UInt32) : Bytes :=
  if src ≥ dst then moveUp mem n.toNat dst src else moveDown mem n.toNat (dst + n) (src + n)

variable {mem : Bytes} {dst src : UInt32}

theorem byteAt_succ (base : UInt32) (i : Nat) : byteAt base (i + 1) = byteAt (base + 1) i := by
  rw [Nat.add_comm, byteAt_add]
  rfl

theorem byteAt_succ_sub (base : UInt32) (i : Nat) : byteAt base (i + 1) - 1 = byteAt base i := by
  rw [byteAt_add]
  exact UInt32.add_sub_cancel _ _

theorem moveUp_eq (n : Nat) (mem : Bytes) (dst src : UInt32) :
    moveUp mem n dst src = copySeq (byteAt dst) (byteAt src) mem n := by
  induction n generalizing mem dst src with
  | zero => rfl
  | succ n ih =>
    rw [moveUp, ih, Nat.add_comm n 1, copySeq_add 1 n]
    simp only [copySeq, byteAt_zero, Nat.add_comm 1, byteAt_succ]

theorem moveDown_eq (n : Nat) (mem : Bytes) (dst src : UInt32) :
    moveDown mem n (byteAt dst n) (byteAt src n) =
      copySeq (fun i => byteAt dst (n - 1 - i)) (fun i => byteAt src (n - 1 - i)) mem n := by
  induction n generalizing mem with
  | zero => rfl
  | succ n ih =>
    have hindex : ∀ i, n - (1 + i) = n - 1 - i := fun i => (Nat.sub_sub n 1 i).symm
    rw [moveDown, byteAt_succ_sub, byteAt_succ_sub, ih, Nat.add_comm n 1, copySeq_add 1 n,
      Nat.add_comm 1 n]
    simp only [copySeq, Nat.sub_zero, Nat.add_sub_cancel, hindex]

theorem toNat_byteAt {base : UInt32} {i : Nat} (h : base.toNat + i < 2 ^ 32) :
    (byteAt base i).toNat = base.toNat + i := by
  have hi : i < 2 ^ 32 := Nat.lt_of_le_of_lt (Nat.le_add_left _ _) h
  rw [byteAt, UInt32.toNat_add, UInt32.toNat_ofNat_of_lt' hi, Nat.mod_eq_of_lt h]

/-- For ranges that lie in the memory in any way, over each other too, `memmove` puts the bytes that
the source had into the destination, and changes no other. -/
theorem memmove_bytes (mem : Bytes) (dst src n : UInt32) (hdst : dst.toNat + n.toNat ≤ 2 ^ 32)
    (hsrc : src.toNat + n.toNat ≤ 2 ^ 32) :
    (∀ i < n.toNat, memmove mem dst src n (byteAt dst i) = mem (byteAt src i)) ∧
      ∀ a, (∀ i < n.toNat, a ≠ byteAt dst i) → memmove mem dst src n a = mem a := by
  have hn := n.toNat_lt
  unfold memmove
  split
  · rename_i hle
    rw [ge_iff_le, UInt32.le_iff_toNat_le] at hle
    have hahead : ∀ j < n.toNat, ∀ i < j, byteAt src j ≠ byteAt dst i := by
      intro j hj i hi heq
      have hnat := congrArg UInt32.toNat heq
      rw [toNat_byteAt (by omega), toNat_byteAt (by omega)] at hnat
      omega
    rw [moveUp_eq]
    refine ⟨fun i hi => ?_, fun a ha => copySeq_of_ne ha⟩
    rw [copySeq_eq_atOnce hahead]
    exact copyAtOnce_apply (byteAt_distinct dst hn) hi
  · rename_i hlt
    rw [ge_iff_le, UInt32.not_le, UInt32.lt_iff_toNat_lt] at hlt
    have hbehind : ∀ j < n.toNat, ∀ i < j,
        byteAt src (n.toNat - 1 - j) ≠ byteAt dst (n.toNat - 1 - i) := by
      intro j hj i hi heq
      have hnat := congrArg UInt32.toNat heq
      rw [toNat_byteAt (by omega), toNat_byteAt (by omega)] at hnat
      omega
    have hdistinct : ∀ j < n.toNat, ∀ i < j,
        byteAt dst (n.toNat - 1 - j) ≠ byteAt dst (n.toNat - 1 - i) := fun j hj i hi =>
      (byteAt_distinct dst hn _ (by omega) _ (by omega)).symm
    have hend : ∀ base : UInt32, base + n = byteAt base n.toNat := fun base => by
      rw [byteAt, UInt32.ofNat_toNat]
    rw [hend, hend, moveDown_eq]
    refine ⟨fun i hi => ?_, fun a ha => copySeq_of_ne fun i hi => ha _ (by omega)⟩
    have hindex : n.toNat - 1 - (n.toNat - 1 - i) = i := by omega
    have hcopy : copyAtOnce (fun i => byteAt dst (n.toNat - 1 - i))
        (fun i => byteAt src (n.toNat - 1 - i)) mem n.toNat
          (byteAt dst (n.toNat - 1 - (n.toNat - 1 - i))) =
        mem (byteAt src (n.toNat - 1 - (n.toNat - 1 - i))) :=
      copyAtOnce_apply hdistinct (by omega)
    rw [copySeq_eq_atOnce hbehind]
    rwa [hindex] at hcopy

theorem memmove_bytes_overlap :
    (∀ i < (8 : UInt32).toNat,
      memmove (fun a => a.toUInt8) 4 0 8 (byteAt 4 i) = (byteAt 0 i).toUInt8) ∧
      ∀ a, (∀ i < (8 : UInt32).toNat, a ≠ byteAt 4 i) →
        memmove (fun a => a.toUInt8) 4 0 8 a = a.toUInt8 :=
  memmove_bytes (fun a => a.toUInt8) 4 0 8 (by decide) (by decide)

end Move

/-! ### `strtok` -/

/-- The loop at `cont`: the first character that is no delimiter, and the pointer behind it. -/
def skipDelimiters (delim : List UInt8) (mem : Text) : Nat → Nat → Option (UInt8 × Nat)
  | 0, _ => none
  | fuel + 1, s =>
    if mem s ∈ delim then skipDelimiters delim mem fuel (s + 1) else some (mem s, s + 1)

/-- The loop over a token; the delimiters are compared with their NUL. -/
def scanToken (delim : List UInt8) (mem : Text) : Nat → Nat → Option (UInt8 × Nat)
  | 0, _ => none
  | fuel + 1, s =>
    if mem s ∈ delim ∨ mem s = 0 then some (mem s, s + 1) else scanToken delim mem fuel (s + 1)

/-- The memory, and the static variable `last`. -/
structure Strtok where
  mem : Text
  last : Option Nat

/-- `delim` has the characters before its NUL, and `none` is `NULL`. -/
def strtok (delim : List UInt8) (fuel : Nat) (s : Option Nat) (t : Strtok) :
    Option (Option Nat × Strtok) :=
  match s.or t.last with
  | none => some (none, t)
  | some s => do
    let (c, s) ← skipDelimiters delim t.mem fuel s
    if c = 0 then
      return (none, { t with last := none })
    let tok := s - 1
    let (c, s) ← scanToken delim t.mem fuel s
    if c = 0 then
      return (some tok, { t with last := none })
    return (some tok, ⟨Function.update t.mem (s - 1) 0, some s⟩)

/-- The loop of a caller that takes all tokens: what `strtok` returns until it is `NULL`. -/
def strtokAll (delim : List UInt8) (fuel : Nat) :
    Nat → Option Nat → Strtok → Option (List Nat × Strtok)
  | 0, _, _ => none
  | calls + 1, s, t => do
    let (tok, t) ← strtok delim fuel s t
    match tok with
    | none => return ([], t)
    | some p =>
      let (ps, t) ← strtokAll delim fuel calls none t
      return (p :: ps, t)

/-- The string at a pointer. -/
def StringAt (mem : Text) (a : Nat) : List UInt8 → Prop
  | [] => mem a = 0
  | c :: cs => mem a = c ∧ c ≠ 0 ∧ StringAt mem (a + 1) cs

/-- The parts of a text between delimiters that are not empty. -/
def tokens (delim text : List UInt8) : List (List UInt8) :=
  (text.splitOnP (· ∈ delim)).filter (· ≠ [])

variable {delim text : List UInt8} {mem : Text} {a fuel : Nat}

theorem StringAt.congr {mem' : Text} (h : StringAt mem a text)
    (hsame : ∀ i ≤ text.length, mem' (a + i) = mem (a + i)) : StringAt mem' a text := by
  induction text generalizing a with
  | nil => exact (hsame 0 (Nat.le_refl 0)).trans h
  | cons c cs ih =>
    refine ⟨(hsame 0 (Nat.zero_le _)).trans h.1, h.2.1, ih h.2.2 fun i hi => ?_⟩
    rw [Nat.add_assoc, Nat.add_comm 1 i]
    exact hsame (i + 1) (Nat.succ_le_succ hi)

theorem skipDelimiters_delims {pre rest : List UInt8} (hpre : ∀ c ∈ pre, c ∈ delim)
    (h : StringAt mem a (pre ++ rest)) (hfuel : pre.length ≤ fuel) :
    skipDelimiters delim mem fuel a =
      skipDelimiters delim mem (fuel - pre.length) (a + pre.length) := by
  induction pre generalizing a fuel with
  | nil => rfl
  | cons c cs ih =>
    cases fuel with
    | zero => exact absurd hfuel (Nat.not_succ_le_zero _)
    | succ fuel =>
      have hc : mem a ∈ delim := h.1 ▸ hpre c List.mem_cons_self
      rw [skipDelimiters, if_pos hc, ih (fun d hd => hpre d (List.mem_cons_of_mem _ hd)) h.2.2
        (Nat.le_of_succ_le_succ hfuel), List.length_cons, Nat.succ_sub_succ, Nat.add_assoc,
        Nat.add_comm 1]

theorem scanToken_token {tok rest : List UInt8} (htok : ∀ c ∈ tok, c ∉ delim)
    (h : StringAt mem a (tok ++ rest)) (hfuel : tok.length ≤ fuel) :
    scanToken delim mem fuel a = scanToken delim mem (fuel - tok.length) (a + tok.length) := by
  induction tok generalizing a fuel with
  | nil => rfl
  | cons c cs ih =>
    cases fuel with
    | zero => exact absurd hfuel (Nat.not_succ_le_zero _)
    | succ fuel =>
      have hc : ¬(mem a ∈ delim ∨ mem a = 0) := by
        rw [h.1]
        exact fun hor => hor.elim (htok c List.mem_cons_self) h.2.1
      rw [scanToken, if_neg hc, ih (fun d hd => htok d (List.mem_cons_of_mem _ hd)) h.2.2
        (Nat.le_of_succ_le_succ hfuel), List.length_cons, Nat.succ_sub_succ, Nat.add_assoc,
        Nat.add_comm 1]

theorem StringAt.drop {pre rest : List UInt8} (h : StringAt mem a (pre ++ rest)) :
    StringAt mem (a + pre.length) rest := by
  induction pre generalizing a with
  | nil => exact h
  | cons c cs ih =>
    have hrest := ih h.2.2
    rwa [Nat.add_assoc, Nat.add_comm 1] at hrest

/-- A NUL cuts a string. -/
theorem StringAt.cut {pre rest : List UInt8} (h : StringAt mem a (pre ++ rest)) :
    StringAt (Function.update mem (a + pre.length) 0) a pre := by
  induction pre generalizing a with
  | nil => exact Function.update_self _ _ _
  | cons c cs ih =>
    refine ⟨?_, h.2.1, ?_⟩
    · rw [Function.update_of_ne (by rw [List.length_cons]; omega)]
      exact h.1
    · have hcut := ih h.2.2
      rwa [Nat.add_assoc, Nat.add_comm 1] at hcut

/-! ### Tokens -/

theorem tokens_delims (delim : List UInt8) {pre : List UInt8} (rest : List UInt8)
    (hpre : ∀ c ∈ pre, c ∈ delim) : tokens delim (pre ++ rest) = tokens delim rest := by
  induction pre with
  | nil => rfl
  | cons c cs ih =>
    have hc : decide (c ∈ delim) = true := decide_eq_true (hpre c List.mem_cons_self)
    rw [List.cons_append, tokens, List.splitOnP_cons_eq_if_modifyHead, if_pos hc]
    exact ih fun d hd => hpre d (List.mem_cons_of_mem _ hd)

theorem tokens_last {tok : List UInt8} (htok : ∀ c ∈ tok, c ∉ delim) (hne : tok ≠ []) :
    tokens delim tok = [tok] := by
  rw [tokens, List.splitOnP_eq_singleton fun c hc => decide_eq_false (htok c hc)]
  exact List.filter_cons_of_pos (decide_eq_true hne)

theorem tokens_cons {tok : List UInt8} {c : UInt8} (rest : List UInt8) (htok : ∀ c ∈ tok, c ∉ delim)
    (hne : tok ≠ []) (hc : c ∈ delim) :
    tokens delim (tok ++ c :: rest) = tok :: tokens delim rest := by
  rw [tokens, List.splitOnP_append_cons_of_forall_mem (fun c hc => decide_eq_false (htok c hc)) c
    (decide_eq_true hc)]
  exact List.filter_cons_of_pos (decide_eq_true hne)

/-- A text is delimiters, or delimiters before a token that ends it or has a delimiter behind it. -/
theorem text_cases (delim text : List UInt8) :
    (∀ c ∈ text, c ∈ delim) ∨ ∃ pre c tok, (∀ d ∈ pre, d ∈ delim) ∧ (∀ d ∈ c :: tok, d ∉ delim) ∧
      (text = pre ++ c :: tok ∨ ∃ d rest, d ∈ delim ∧ text = pre ++ (c :: tok ++ d :: rest)) := by
  induction text with
  | nil => exact Or.inl fun _ h => absurd h List.not_mem_nil
  | cons c cs ih =>
    by_cases hc : c ∈ delim
    · rcases ih with hall | ⟨pre, e, tok, hpre, htok, htext⟩
      · exact Or.inl (List.forall_mem_cons.mpr ⟨hc, hall⟩)
      · refine Or.inr ⟨c :: pre, e, tok, List.forall_mem_cons.mpr ⟨hc, hpre⟩, htok, ?_⟩
        rcases htext with rfl | ⟨d, rest, hd, rfl⟩
        · exact Or.inl rfl
        · exact Or.inr ⟨d, rest, hd, rfl⟩
    · have hnone : ∀ d ∈ ([] : List UInt8), d ∈ delim := fun _ h => absurd h List.not_mem_nil
      have hone : ∀ d ∈ [c], d ∉ delim := fun d hd => List.mem_singleton.mp hd ▸ hc
      apply Or.inr
      rcases ih with hall | ⟨pre, e, tok, hpre, htok, htext⟩
      · cases cs with
        | nil => exact ⟨[], c, [], hnone, hone, Or.inl rfl⟩
        | cons d rest =>
          exact ⟨[], c, [], hnone, hone, Or.inr ⟨d, rest, hall d List.mem_cons_self, rfl⟩⟩
      · cases pre with
        | nil =>
          refine ⟨[], c, e :: tok, hnone, List.forall_mem_cons.mpr ⟨hc, htok⟩, ?_⟩
          rcases htext with rfl | ⟨d, rest, hd, rfl⟩
          · exact Or.inl rfl
          · exact Or.inr ⟨d, rest, hd, rfl⟩
        | cons d pre =>
          have hd := hpre d List.mem_cons_self
          rcases htext with rfl | ⟨f, rest, -, rfl⟩
          · exact ⟨[], c, [], hnone, hone, Or.inr ⟨d, _, hd, rfl⟩⟩
          · exact ⟨[], c, [], hnone, hone, Or.inr ⟨d, _, hd, rfl⟩⟩

/-! ### One call -/

variable {s : Option Nat} {t : Strtok}

/-- The first loop stops behind the delimiters. -/
theorem skipDelimiters_eq {pre rest : List UInt8} (hpre : ∀ c ∈ pre, c ∈ delim)
    (h : StringAt mem a (pre ++ rest)) (hfuel : pre.length < fuel)
    (hstop : mem (a + pre.length) ∉ delim) :
    skipDelimiters delim mem fuel a = some (mem (a + pre.length), a + pre.length + 1) := by
  rw [skipDelimiters_delims hpre h (Nat.le_of_lt hfuel)]
  obtain ⟨k, hk⟩ := Nat.exists_eq_succ_of_ne_zero (Nat.sub_ne_zero_of_lt hfuel)
  rw [hk, skipDelimiters, if_neg hstop]

theorem scanToken_eq {tok rest : List UInt8} (htok : ∀ c ∈ tok, c ∉ delim)
    (h : StringAt mem a (tok ++ rest)) (hfuel : tok.length < fuel)
    (hstop : mem (a + tok.length) ∈ delim ∨ mem (a + tok.length) = 0) :
    scanToken delim mem fuel a = some (mem (a + tok.length), a + tok.length + 1) := by
  rw [scanToken_token htok h (Nat.le_of_lt hfuel)]
  obtain ⟨k, hk⟩ := Nat.exists_eq_succ_of_ne_zero (Nat.sub_ne_zero_of_lt hfuel)
  rw [hk, scanToken, if_pos hstop]

theorem strtok_delims (hzero : 0 ∉ delim) (hs : s.or t.last = some a) (h : StringAt t.mem a text)
    (htext : ∀ c ∈ text, c ∈ delim) (hfuel : text.length < fuel) :
    strtok delim fuel s t = some (none, ⟨t.mem, none⟩) := by
  have hwhole : StringAt t.mem a (text ++ []) := by
    rw [List.append_nil]
    exact h
  have hend : t.mem (a + text.length) = 0 := hwhole.drop
  have hskip := skipDelimiters_eq htext hwhole hfuel (hend ▸ hzero)
  rw [strtok, hs]
  simp only [hskip, hend, bind, Option.bind, if_pos, pure]

theorem strtok_token {pre tok rest : List UInt8} {c : UInt8} (hs : s.or t.last = some a)
    (h : StringAt t.mem a (pre ++ (c :: tok ++ rest))) (hpre : ∀ d ∈ pre, d ∈ delim)
    (htok : ∀ d ∈ c :: tok, d ∉ delim) (hfuel : (pre ++ (c :: tok ++ rest)).length < fuel)
    (hstop : t.mem (a + pre.length + 1 + tok.length) ∈ delim ∨
      t.mem (a + pre.length + 1 + tok.length) = 0) :
    strtok delim fuel s t = some (some (a + pre.length),
      if t.mem (a + pre.length + 1 + tok.length) = 0 then ⟨t.mem, none⟩
      else ⟨Function.update t.mem (a + pre.length + 1 + tok.length) 0,
        some (a + pre.length + 1 + tok.length + 1)⟩) := by
  obtain ⟨hc, hzero, hrest⟩ := h.drop
  simp only [List.length_append, List.length_cons] at hfuel
  have hpreFuel : pre.length < fuel := by omega
  have htokFuel : tok.length < fuel := by omega
  have hskip := skipDelimiters_eq hpre h hpreFuel (hc ▸ htok c List.mem_cons_self)
  have hscan := scanToken_eq (fun d hd => htok d (List.mem_cons_of_mem _ hd)) hrest htokFuel hstop
  rw [strtok, hs]
  simp only [hskip, hscan, hc, hzero, bind, Option.bind, if_false, pure, Nat.add_sub_cancel]
  split <;> rfl

/-! ### All calls -/

/-- What the calls do to the text that is left: pointers to its tokens, and no other byte
changed. -/
def TakenApart (delim : List UInt8) (a : Nat) (text : List UInt8) (t t' : Strtok) (ps : List Nat) :
    Prop :=
  List.Forall₂ (StringAt t'.mem) ps (tokens delim text) ∧ t'.last = none ∧
    ∀ x, x < a ∨ a + text.length < x → t'.mem x = t.mem x

theorem strtokAll_takenApart (hzero : 0 ∉ delim) {calls : Nat} (hs : s.or t.last = some a)
    (h : StringAt t.mem a text) (hfuel : text.length < fuel) (hcalls : text.length < calls) :
    ∃ ps t', strtokAll delim fuel calls s t = some (ps, t') ∧ TakenApart delim a text t t' ps := by
  induction calls generalizing s t a text with
  | zero => exact absurd hcalls (Nat.not_lt_zero _)
  | succ calls ih =>
    rcases text_cases delim text with hall | ⟨pre, c, tok, hpre, htok, htext⟩
    · refine ⟨[], ⟨t.mem, none⟩, ?_, ?_, rfl, fun _ _ => rfl⟩
      · rw [strtokAll, strtok_delims hzero hs h hall hfuel]
        rfl
      · have htokens := tokens_delims delim [] hall
        rw [List.append_nil] at htokens
        rw [htokens]
        exact .nil
    have hne : c :: tok ≠ [] := List.cons_ne_nil c tok
    rcases htext with rfl | ⟨d, rest, hd, rfl⟩
    · have hwhole : StringAt t.mem a (pre ++ (c :: tok ++ [])) := by
        rw [List.append_nil]
        exact h
      have hend : t.mem (a + pre.length + 1 + tok.length) = 0 := by
        have hnul : t.mem (a + pre.length + (c :: tok).length) = 0 := hwhole.drop.drop
        rwa [List.length_cons, Nat.add_comm tok.length, ← Nat.add_assoc] at hnul
      rw [← List.append_nil (c :: tok)] at hfuel
      have hcall := strtok_token hs hwhole hpre htok hfuel (Or.inr hend)
      rw [if_pos hend] at hcall
      obtain ⟨k, rfl⟩ : ∃ k, calls = k + 1 := Nat.exists_eq_succ_of_ne_zero fun hk => by
        rw [hk, List.length_append, List.length_cons] at hcalls
        omega
      refine ⟨[a + pre.length], ⟨t.mem, none⟩, ?_, ?_, rfl, fun _ _ => rfl⟩
      · rw [strtokAll, hcall]
        rfl
      · rw [tokens_delims delim _ hpre, tokens_last htok hne]
        exact .cons h.drop .nil
    · have hat : StringAt t.mem (a + pre.length) (c :: tok ++ d :: rest) := h.drop
      obtain ⟨hstop, hdzero, hrest⟩ :
          StringAt t.mem (a + pre.length + 1 + tok.length) (d :: rest) := by
        have hbehind := hat.drop
        rwa [List.length_cons, Nat.add_comm tok.length, ← Nat.add_assoc] at hbehind
      have hcall := strtok_token hs h hpre htok hfuel (Or.inl (hstop ▸ hd))
      rw [if_neg (hstop ▸ hdzero)] at hcall
      simp only [List.length_append, List.length_cons] at hfuel hcalls
      let next : Strtok := ⟨Function.update t.mem (a + pre.length + 1 + tok.length) 0,
        some (a + pre.length + 1 + tok.length + 1)⟩
      have hnext : StringAt next.mem (a + pre.length + 1 + tok.length + 1) rest :=
        hrest.congr fun i _ => Function.update_of_ne (by omega) _ _
      have hrestFuel : rest.length < fuel := by omega
      have hrestCalls : rest.length < calls := by omega
      obtain ⟨ps, t', hall, htokens, hlast, hothers⟩ :=
        ih (s := none) (t := next) rfl hnext hrestFuel hrestCalls
      refine ⟨(a + pre.length) :: ps, t', ?_, ?_, hlast, fun x hx => ?_⟩
      · have hlater : strtokAll delim fuel calls none
            ⟨Function.update t.mem (a + pre.length + 1 + tok.length) 0,
              some (a + pre.length + 1 + tok.length + 1)⟩ = some (ps, t') := hall
        rw [strtokAll, hcall]
        simp only [bind, Option.bind, hlater]
        rfl
      · rw [tokens_delims delim _ hpre, tokens_cons rest htok hne hd]
        refine .cons ?_ htokens
        have hcut := hat.cut
        rw [List.length_cons, Nat.add_comm tok.length, ← Nat.add_assoc] at hcut
        refine hcut.congr fun i hi => hothers _ (Or.inl ?_)
        rw [List.length_cons] at hi
        omega
      · simp only [List.length_append, List.length_cons] at hx
        rw [hothers x (by omega)]
        exact Function.update_of_ne (by omega) _ _

/-- The calls of `strtok` that take a string apart return, in their order, pointers to its tokens,
each with a NUL behind it when all is done, and change nothing outside the string. -/
theorem strtok_tokens (delim : List UInt8) (text : List UInt8) (t : Strtok) (hzero : 0 ∉ delim)
    (h : StringAt t.mem a text) :
    ∃ ps t', strtokAll delim (text.length + 1) (text.length + 1) (some a) t = some (ps, t') ∧
      List.Forall₂ (StringAt t'.mem) ps (tokens delim text) ∧ t'.last = none ∧
        ∀ x, x < a ∨ a + text.length < x → t'.mem x = t.mem x :=
  strtokAll_takenApart hzero rfl h (Nat.lt_succ_self _) (Nat.lt_succ_self _)

/-- `/ab//c` at an address of the RAM. -/
def pathText (x : Nat) : UInt8 :=
  if 0x80001000 ≤ x then [47, 97, 98, 47, 47, 99].getD (x - 0x80001000) 0 else 0

theorem strtok_tokens_path : ∃ ps t',
    strtokAll [47] 7 7 (some 0x80001000) ⟨pathText, some 0x80000003⟩ = some (ps, t') ∧
      List.Forall₂ (StringAt t'.mem) ps (tokens [47] [47, 97, 98, 47, 47, 99]) ∧ t'.last = none ∧
        ∀ x, x < 0x80001000 ∨ 0x80001000 + 6 < x → t'.mem x = pathText x :=
  strtok_tokens [47] [47, 97, 98, 47, 47, 99] ⟨pathText, some 0x80000003⟩ (by decide)
    (by simp only [StringAt]; decide)

end PrplHypervisor.Guest
