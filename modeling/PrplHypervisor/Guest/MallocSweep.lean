import PrplHypervisor.Guest.Malloc

/-! The sweep of `malloc` over the blocks of a guest's heap.  It joins free blocks as it goes and
takes those in front of a used block that have room.  Else it comes to the last block, which has no
bound: without a link the sweep ends there, and with one it goes back to blocks that it has
passed. -/

namespace PrplHypervisor.Guest

open Lib.LinkedList Lib.Runs Lib.Words

/-- The search for free blocks in front of a used one that have `need` bytes: the first of them, or
that of the free blocks at the end of the list, if there are any. -/
def findRun (mem : Words) (need : Nat) : Option UInt32 → List UInt32 → UInt32 ⊕ Option UInt32
  | run, [] => .inr run
  | run, b :: l =>
    if isUsed mem b then
      match run with
      | some f => if f.toNat + need ≤ b.toNat then .inl f else findRun mem need none l
      | none => findRun mem need none l
    else findRun mem need (some (run.getD b)) l

/-! ### Words and blocks -/

variable {mem mem' : Words} {h p q b c f e t u link size : UInt32}
    {l l₁ l₂ run behind : List UInt32}

theorem toNat_add_four (hp : p.toNat + 8 ≤ 2 ^ 32) : (p + 4).toNat = p.toNat + 4 := by
  rw [UInt32.toNat_add]
  show (p.toNat + 4) % 2 ^ 32 = _
  omega

theorem isUsed_iff : isUsed mem p = true ↔ (blockSize mem p).toNat % 2 = 1 := by
  have hand : (blockSize mem p &&& 1).toNat = (blockSize mem p).toNat % 2 :=
    toNat_and_low (k := 1) rfl
  rw [isUsed, decide_eq_true_eq, ne_eq, ← UInt32.toNat_inj, hand, UInt32.toNat_zero]
  omega

theorem isUsed_eq_false (h : 2 ∣ (blockSize mem p).toNat) : isUsed mem p = false := by
  rw [← Bool.not_eq_true, isUsed_iff]
  omega

/-- The block at `b` is the same in both memories. -/
structure SameBlock (mem mem' : Words) (b : UInt32) : Prop where
  next : next mem' b = next mem b
  size : blockSize mem' b = blockSize mem b

theorem SameBlock.used (h : SameBlock mem mem' b) : isUsed mem' b = isUsed mem b := by
  rw [isUsed, isUsed, h.size]

@[simp] theorem next_setBlock : next (setBlock mem p link size) p = link :=
  Function.update_self ..

@[simp] theorem blockSize_setBlock : blockSize (setBlock mem p link size) p = size := by
  have hne : p + 4 ≠ p := by
    rw [ne_eq, ← UInt32.toNat_inj, UInt32.toNat_add]
    have := p.toNat_lt
    show ¬(p.toNat + 4) % 2 ^ 32 = _
    omega
  rw [blockSize, setBlock, Function.update_of_ne hne, Function.update_self]

/-- A word outside of a block. -/
theorem same_of_update {w value : UInt32} (hb : b.toNat + 8 ≤ 2 ^ 32)
    (hw : w.toNat < b.toNat ∨ b.toNat + 4 < w.toNat ∨ w.toNat % 4 ≠ b.toNat % 4) :
    SameBlock mem (Function.update mem w value) b := by
  have hfour := toNat_add_four hb
  constructor
  · refine Function.update_of_ne (fun heq => ?_) ..
    rw [← heq] at hw
    omega
  · refine Function.update_of_ne (fun heq => ?_) ..
    rw [← heq, hfour] at hw
    omega

theorem SameBlock.trans {mem'' : Words} (h : SameBlock mem mem' b) (h' : SameBlock mem' mem'' b) :
    SameBlock mem mem'' b :=
  ⟨h'.next.trans h.next, h'.size.trans h.size⟩

theorem same_of_setBlock (hp : p.toNat + 8 ≤ 2 ^ 32) (hb : b.toNat + 8 ≤ 2 ^ 32)
    (hapart : p.toNat + 8 ≤ b.toNat ∨ b.toNat + 8 ≤ p.toNat) :
    SameBlock mem (setBlock mem p link size) b := by
  have hfour := toNat_add_four hp
  refine SameBlock.trans (same_of_update hb ?_) (same_of_update hb ?_)
  · omega
  · omega

/-! ### The chain of the blocks -/

/-- The chain while no `malloc` is between its stores. -/
structure Blocks (mem : Words) (h : UInt32) (l : List UInt32) (t : UInt32) : Prop
    extends IsChain mem h l t where
  aligned : ∀ b ∈ l, 4 ∣ b.toNat
  alignedLast : 4 ∣ t.toNat
  last : isUsed mem t = false
  top : t.toNat + 8 ≤ 2 ^ 32

theorem IsChain.unique {l' : List UInt32} {t' : UInt32} (hc : IsChain mem h l t)
    (hc' : IsChain mem h l' t') : l = l' ∧ t = t' := by
  refine hc.segment.unique (p := fun b => b.toNat + 8 ≤ (next mem b).toNat) hc'.segment hc.rising
    hc'.rising ?_ ?_
  · have := hc.back
    omega
  · have := hc'.back
    omega

theorem IsChain.le_last (hc : IsChain mem h l t) (hb : b ∈ l) : b.toNat + 8 ≤ t.toNat :=
  (hc.segment.between hc.rising hb).2

theorem Blocks.le_top (hc : Blocks mem h l t) (hb : b ∈ l) : b.toNat + 8 ≤ 2 ^ 32 := by
  have := hc.le_last hb
  have := hc.top
  omega

/-- The parts of a chain, with the places where they meet. -/
theorem IsChain.split (hc : IsChain mem h (l₁ ++ l₂) t) : ∃ m,
    Segment (next mem) h l₁ m ∧ Segment (next mem) m l₂ t ∧
      Rising (next mem) UInt32.toNat 8 l₁ ∧ Rising (next mem) UInt32.toNat 8 l₂ := by
  obtain ⟨m, h₁, h₂⟩ := segment_append.mp hc.segment
  exact ⟨m, h₁, h₂, rising_append.mp hc.rising⟩

/-- The difference of addresses of blocks is no mark. -/
theorem aligned_sub (hp : 4 ∣ p.toNat) (hq : 4 ∣ q.toNat) : 4 ∣ (p - q - 8).toNat := by
  rw [UInt32.toNat_sub, UInt32.toNat_sub]
  show 4 ∣ (2 ^ 32 - 8 + _) % 2 ^ 32
  have := q.toNat_lt
  omega

/-- The free blocks from `f` up to `e` become one. -/
theorem Blocks.join {before : List UInt32} (hc : Blocks mem h (before ++ f :: run ++ behind) t)
    (hrun : Segment (next mem) f (f :: run) e) (hbehind : Segment (next mem) e behind t) :
    Blocks (setBlock mem f e (e - f - 8)) h (before ++ f :: behind) t ∧
      isUsed (setBlock mem f e (e - f - 8)) f = false ∧
      ∀ b ∈ t :: (before ++ run ++ behind), SameBlock mem (setBlock mem f e (e - f - 8)) b := by
  obtain ⟨e', hfirst, hlast, hr, hrBehind⟩ := hc.split
  obtain ⟨f', hbefore, hf, hrBefore, hrRun⟩ :
      ∃ f', Segment (next mem) h before f' ∧ Segment (next mem) f' (f :: run) e' ∧
        Rising (next mem) UInt32.toNat 8 before ∧ Rising (next mem) UInt32.toNat 8 (f :: run) := by
    obtain ⟨m, h₁, h₂⟩ := segment_append.mp hfirst
    exact ⟨m, h₁, h₂, rising_append.mp hr⟩
  obtain rfl : f' = f := hf.1
  have hup := (hrun.between hrRun List.mem_cons_self).2
  have hle := hbehind.start_le hrBehind
  have htop := hc.top
  have hsame : ∀ b ∈ t :: (before ++ run ++ behind),
      SameBlock mem (setBlock mem f' e (e - f' - 8)) b := by
    intro b hb
    have hbtop : b.toNat + 8 ≤ 2 ^ 32 := by
      rcases List.mem_cons.mp hb with rfl | hb
      · exact htop
      · apply hc.le_top
        simp only [List.mem_append, List.mem_cons] at hb ⊢
        tauto
    apply same_of_setBlock (by omega) hbtop
    simp only [List.mem_cons, List.mem_append] at hb
    rcases hb with rfl | (hb | hb) | hb
    · omega
    · exact Or.inr (hbefore.between hrBefore hb).2
    · have hrest := hrun.2
      have hfirst := hrRun f' List.mem_cons_self
      have hlow := (hrest.between (fun x hx => hrRun x (List.mem_cons_of_mem _ hx)) hb).1
      omega
    · have hlow := (hbehind.between hrBehind hb).1
      omega
  have hfree : isUsed (setBlock mem f' e (e - f' - 8)) f' = false := by
    apply isUsed_eq_false
    rw [blockSize_setBlock]
    refine Dvd.dvd.trans (by decide) (aligned_sub (p := e) ?_ (hc.aligned f' (by simp)))
    cases behind with
    | nil => exact hbehind ▸ hc.alignedLast
    | cons b behind =>
      obtain rfl := hbehind.1
      exact hc.aligned e (by simp)
  have hnextBefore : ∀ b ∈ before, next (setBlock mem f' e (e - f' - 8)) b = next mem b :=
    fun b hb => (hsame b (by simp [hb])).next
  have hnextBehind : ∀ b ∈ behind, next (setBlock mem f' e (e - f' - 8)) b = next mem b :=
    fun b hb => (hsame b (by simp [hb])).next
  have hlastSame := hsame t List.mem_cons_self
  refine ⟨⟨⟨?_, ?_, ?_⟩, ?_, hc.alignedLast, ?_, htop⟩, hfree, hsame⟩
  · refine (hbefore.congr hnextBefore).append ⟨rfl, ?_⟩
    rw [next_setBlock]
    exact hbehind.congr hnextBehind
  · refine rising_append.mpr ⟨hrBefore.congr hnextBefore, fun b hb => ?_⟩
    rcases List.mem_cons.mp hb with rfl | hb
    · rw [next_setBlock]
      exact hup
    · exact hrBehind.congr hnextBehind b hb
  · rw [hlastSame.next]
    exact hc.back
  · intro b hb
    apply hc.aligned b
    simp only [List.mem_append, List.mem_cons] at hb ⊢
    tauto
  · rw [hlastSame.used]
    exact hc.last

/-- From `b`, free blocks of `l` lead to the used block `u`. -/
structure Reaches (mem : Words) (l : List UInt32) (b u : UInt32) (path : List UInt32) : Prop where
  segment : Segment (next mem) b path u
  rising : Rising (next mem) UInt32.toNat 8 path
  free : ∀ c ∈ path, c ∈ l ∧ isUsed mem c = false
  used : isUsed mem u = true

/-- The chain `l'` of `mem'` is the chain `l` of `mem` with some free blocks joined.  The links to
blocks that are no longer in the chain still lead where they led. -/
structure Joined (mem mem' : Words) (h t : UInt32) (l l' : List UInt32) : Prop where
  blocks : Blocks mem' h l' t
  sub : ∀ b ∈ l', b ∈ l
  used : ∀ b ∈ l, isUsed mem' b = isUsed mem b
  kept : ∀ b ∈ l, isUsed mem b = true → b ∈ l' ∧ next mem' b = next mem b
  last : next mem' t = next mem t
  reaches : ∀ b, ∀ u ∈ l, (∃ path, Reaches mem l b u path) → ∃ path, Reaches mem' l b u path

theorem Joined.refl (hc : Blocks mem h l t) : Joined mem mem h t l l where
  blocks := hc
  sub _ hb := hb
  used _ _ := rfl
  kept _ hb _ := ⟨hb, rfl⟩
  last := rfl
  reaches _ _ _ := id

theorem Joined.step {mem₀ : Words} {l₀ before : List UInt32} (hc : Blocks mem₀ h l₀ t)
    (hj : Joined mem₀ mem h t l₀ (before ++ f :: run ++ e :: behind))
    (hfree : ∀ b ∈ f :: run, isUsed mem b = false) (he : isUsed mem e = true) :
    Joined mem₀ (setBlock mem f e (e - f - 8)) h t l₀ (before ++ f :: e :: behind) := by
  obtain ⟨e', hfirst, hbehind, hr, -⟩ := hj.blocks.split
  obtain rfl : e' = e := hbehind.1
  obtain ⟨f', -, hrun⟩ := segment_append.mp hfirst
  obtain rfl : f' = f := hrun.1
  have hrRun := (rising_append.mp hr).2
  obtain ⟨hblocks, hfreeF, hsameChain⟩ := hj.blocks.join hrun hbehind
  have hf : f' ∈ l₀ := hj.sub f' (by simp)
  -- the blocks of the first chain are apart, those that have been joined before included
  have hsame : ∀ b ∈ l₀, b ≠ f' → SameBlock mem (setBlock mem f' e' (e' - f' - 8)) b := by
    intro b hb hne
    apply same_of_setBlock (hc.le_top hf) (hc.le_top hb)
    rcases hc.segment.apart hc.rising hf hb with heq | hapart
    · exact absurd heq.symm hne
    · exact hapart
  have hused : ∀ b ∈ l₀, isUsed (setBlock mem f' e' (e' - f' - 8)) b = isUsed mem b := by
    intro b hb
    by_cases heq : b = f'
    · rw [heq, hfreeF, hfree f' List.mem_cons_self]
    · exact (hsame b hb heq).used
  refine ⟨hblocks, fun b hb => hj.sub b ?_, fun b hb => (hused b hb).trans (hj.used b hb),
    fun b hb hb' => ?_, (hsameChain t List.mem_cons_self).next.trans hj.last, ?_⟩
  · simp only [List.mem_append, List.mem_cons] at hb ⊢
    tauto
  · obtain ⟨hmem, hnext⟩ := hj.kept b hb hb'
    have hnot : b ∉ f' :: run := fun hin => by
      rw [← hj.used b hb, hfree b hin] at hb'
      cases hb'
    have hne : b ≠ f' := fun heq => hnot (heq ▸ List.mem_cons_self)
    refine ⟨?_, (hsame b hb hne).next.trans hnext⟩
    simp only [List.mem_append, List.mem_cons] at hmem hnot ⊢
    tauto
  · intro b u hu hreach
    obtain ⟨path, hpath⟩ := hj.reaches b u hu hreach
    have hu' : isUsed (setBlock mem f' e' (e' - f' - 8)) u = true := (hused u hu).trans hpath.used
    by_cases hin : f' ∈ path
    · -- a path through `f` goes on to `e`, which is one link from there on
      obtain ⟨p₁, p₂, rfl⟩ := List.append_of_mem hin
      obtain ⟨m, hp₁, hp₂⟩ := segment_append.mp hpath.segment
      obtain rfl : m = f' := hp₂.1
      obtain ⟨hr₁, hr₂⟩ := rising_append.mp hpath.rising
      obtain ⟨-, rfl⟩ := hp₂.unique (p := fun c => isUsed mem c = false) hrun
        (fun c hc => (hpath.free c (List.mem_append_right _ hc)).2) hfree
        (by rw [hpath.used]; exact Bool.noConfusion) (by rw [he]; exact Bool.noConfusion)
      have hbelow : ∀ c ∈ p₁, next (setBlock mem m u (u - m - 8)) c = next mem c := by
        intro c hc
        refine (hsame c (hpath.free c (List.mem_append_left _ hc)).1 fun heq => ?_).next
        have := (hp₁.between hr₁ hc).2
        rw [heq] at this
        omega
      refine ⟨p₁ ++ [m], ⟨(hp₁.congr hbelow).append ⟨rfl, next_setBlock⟩,
        rising_append.mpr ⟨hr₁.congr hbelow, fun c hc => ?_⟩, fun c hc => ?_, hu'⟩⟩
      · rw [List.mem_singleton.mp hc, next_setBlock]
        exact (hrun.between hrRun List.mem_cons_self).2
      · have hcl := (hpath.free c (by
          simp only [List.mem_append, List.mem_cons] at hc ⊢
          tauto))
        exact ⟨hcl.1, (hused c hcl.1).trans hcl.2⟩
    · have hpathSame : ∀ c ∈ path, next (setBlock mem f' e' (e' - f' - 8)) c = next mem c :=
        fun c hc => (hsame c (hpath.free c hc).1 fun heq => hin (heq ▸ hc)).next
      exact ⟨path, hpath.segment.congr hpathSame, hpath.rising.congr hpathSame,
        fun c hc => ⟨(hpath.free c hc).1, (hused c (hpath.free c hc).1).trans (hpath.free c hc).2⟩,
        hu'⟩

/-! ### The search for a run -/

variable {need : Nat}

theorem findRun_used (hl : ∀ b ∈ l, isUsed mem b = true) (l' : List UInt32) :
    findRun mem need none (l ++ l') = findRun mem need none l' := by
  induction l with
  | nil => rfl
  | cons b l ih =>
    rw [List.cons_append, findRun, hl b List.mem_cons_self, if_pos rfl]
    exact ih fun c hc => hl c (List.mem_cons_of_mem _ hc)

theorem findRun_free (hl : ∀ b ∈ l, isUsed mem b = false) (l' : List UInt32) :
    findRun mem need (some f) (l ++ l') = findRun mem need (some f) l' := by
  induction l with
  | nil => rfl
  | cons b l ih =>
    rw [List.cons_append, findRun, hl b List.mem_cons_self, if_neg Bool.false_ne_true]
    exact ih fun c hc => hl c (List.mem_cons_of_mem _ hc)

theorem findRun_start (hf : isUsed mem f = false) (l : List UInt32) :
    findRun mem need none (f :: l) = findRun mem need (some f) l := by
  rw [findRun, hf, if_neg Bool.false_ne_true]
  rfl

/-- Free blocks in front of a used one. -/
theorem findRun_run (hl : ∀ b ∈ f :: run, isUsed mem b = false) (he : isUsed mem e = true)
    (l : List UInt32) : findRun mem need none (f :: run ++ e :: l) =
      if f.toNat + need ≤ e.toNat then .inl f else findRun mem need none (e :: l) := by
  rw [List.cons_append, findRun_start (hl f List.mem_cons_self),
    findRun_free fun b hb => hl b (List.mem_cons_of_mem _ hb), findRun, he, if_pos rfl]
  split_ifs with hfit
  · rfl
  · rw [findRun, he, if_pos rfl]

/-- Free blocks at the end. -/
theorem findRun_last (hl : ∀ b ∈ l, isUsed mem b = false) :
    findRun mem need none l = .inr l.head? := by
  cases l with
  | nil => rfl
  | cons f l =>
    rw [findRun_start (hl f List.mem_cons_self), ← List.append_nil l,
      findRun_free fun b hb => hl b (List.mem_cons_of_mem _ hb)]
    rfl

/-- A list starts with used blocks, free ones behind them, and then ends or goes on with a used
one. -/
theorem exists_runs (mem : Words) (l : List UInt32) : ∃ us fs rest, l = us ++ fs ++ rest ∧
    (∀ b ∈ us, isUsed mem b = true) ∧ (∀ b ∈ fs, isUsed mem b = false) ∧
    (rest = [] ∨ ∃ f run e behind, fs = f :: run ∧ rest = e :: behind ∧ isUsed mem e = true) := by
  induction l with
  | nil => exact ⟨[], [], [], rfl, by simp, by simp, Or.inl rfl⟩
  | cons b l ih =>
    obtain ⟨us, fs, rest, rfl, hus, hfs, hrest⟩ := ih
    cases hb : isUsed mem b with
    | true =>
      exact ⟨b :: us, fs, rest, rfl, List.forall_mem_cons.mpr ⟨hb, hus⟩, hfs, hrest⟩
    | false =>
      cases us with
      | nil =>
        refine ⟨[], b :: fs, rest, rfl, by simp, List.forall_mem_cons.mpr ⟨hb, hfs⟩, ?_⟩
        rcases hrest with hnil | ⟨f, run, e, behind, -, hrest, he⟩
        · exact Or.inl hnil
        · exact Or.inr ⟨b, fs, e, behind, rfl, hrest, he⟩
      | cons u us =>
        exact ⟨[], [b], u :: us ++ fs ++ rest, rfl, by simp, by simp [hb],
          Or.inr ⟨b, [], u, us ++ fs ++ rest, rfl, by simp, hus u List.mem_cons_self⟩⟩

/-! ### The loops -/

variable {fuel n : Nat}

theorem skipUsed_eq {m : UInt32} (hl : Segment (next mem) p l m)
    (hused : ∀ b ∈ l, isUsed mem b = true) (hm : isUsed mem m = false) (hq : l = [] → q = p)
    (hfuel : l.length < fuel) : skipUsed mem fuel p q = some (m, m) := by
  induction l generalizing p q fuel with
  | nil =>
    obtain rfl := hl
    obtain rfl := hq rfl
    obtain ⟨fuel, rfl⟩ := Nat.exists_eq_add_one_of_ne_zero (Nat.ne_of_gt hfuel)
    rw [skipUsed, whileLoop, hm, if_neg Bool.false_ne_true]
  | cons b l ih =>
    obtain ⟨rfl, hrest⟩ := hl
    obtain ⟨fuel, rfl⟩ := Nat.exists_eq_add_one_of_ne_zero (Nat.ne_of_gt (Nat.zero_lt_of_lt hfuel))
    rw [skipUsed, whileLoop, hused p List.mem_cons_self, if_pos rfl]
    exact ih hrest (fun c hc => hused c (List.mem_cons_of_mem _ hc)) (fun _ => rfl)
      (Nat.lt_of_succ_lt_succ hfuel)

theorem skipFree_eq (hl : Segment (next mem) p l e)
    (hfree : ∀ b ∈ l, isUsed mem b = false ∧ next mem b ≠ 0)
    (he : isUsed mem e = true ∨ next mem e = 0) (hfuel : l.length < fuel) :
    skipFree mem fuel p = some e := by
  refine whileLoop_segment hl (fun b hb => ?_) ?_ hfuel
  · rw [(hfree b hb).1]
    simpa using (hfree b hb).2
  · rcases he with he | he
    · rw [he]
      rfl
    · simp [he]

theorem next_ne_zero (hup : b.toNat + 8 ≤ (next mem b).toNat) : next mem b ≠ 0 := by
  intro hzero
  rw [hzero, UInt32.toNat_zero] at hup
  omega

/-- A pass of the outer loop, from the inner loops on. -/
theorem sweep_succ {m : UInt32} (hp : next mem p ≠ 0)
    (hused : skipUsed mem fuel p q = some (m, m)) (hfree : skipFree mem fuel m = some e)
    (he : e ≠ 0) : sweep size fuel (n + 1) mem p q =
      if next (setBlock mem m e (e - m - 8)) e = 0 ∧ e - m - 8 < size + 8 then
        some (setBlock mem m e (e - m - 8), none)
      else if size + 8 ≤ e - m - 8 then some (setBlock mem m e (e - m - 8), some m)
      else sweep size fuel n (setBlock mem m e (e - m - 8)) e m := by
  rw [sweep, if_neg hp, hused]
  simp only [Option.bind_eq_bind, Option.bind_some, hfree, if_pos he, blockSize_setBlock]
  rfl

/-! ### The sweep up to the last block -/

/-- The sweep takes the free block `f`, which has `need` bytes up to a used one. -/
def TakesInner (size : UInt32) (fuel : Nat) (mem₀ : Words) (h t : UInt32) (l₀ : List UInt32)
    (need n : Nat) (mem : Words) (p q f : UInt32) : Prop :=
  ∃ mem' before e behind, sweep size fuel n mem p q = some (mem', some f) ∧
    Joined mem₀ mem' h t l₀ (before ++ f :: e :: behind) ∧ isUsed mem' f = false ∧
    f.toNat + need ≤ e.toNat

/-- The sweep comes to its last pass, with the used blocks `us` in front of the free blocks `fs` at
the end. -/
def ComesToLast (size : UInt32) (fuel : Nat) (mem₀ : Words) (h t : UInt32) (l₀ : List UInt32)
    (n : Nat) (mem : Words) (p q : UInt32) (run : Option UInt32) : Prop :=
  ∃ mem' before us fs p' q' n',
    sweep size fuel n mem p q = sweep size fuel (n' + 1) mem' p' q' ∧
    Joined mem₀ mem' h t l₀ (before ++ (us ++ fs)) ∧ Segment (next mem') p' (us ++ fs) t ∧
    us ++ fs ≠ [] ∧ (∀ b ∈ us, isUsed mem' b = true) ∧ (∀ b ∈ fs, isUsed mem' b = false) ∧
    (us = [] → q' = p') ∧ run = fs.head?

theorem Blocks.length_lt (hc : Blocks mem h l t) : l.length < 2 ^ 29 := by
  have hlength := hc.segment.length_le hc.rising
  have htop := hc.top
  omega

theorem toNat_gap {bytes : Nat} (hbytes : size.toNat = bytes) (hroom : bytes + 8 < 2 ^ 32) :
    (size + 8).toNat = bytes + 8 := by
  rw [UInt32.toNat_add, hbytes]
  show (bytes + 8) % 2 ^ 32 = _
  omega

theorem toNat_between (hup : f.toNat + 8 ≤ e.toNat) :
    (e - f - 8).toNat = e.toNat - f.toNat - 8 := by
  have he := e.toNat_lt
  rw [UInt32.toNat_sub, UInt32.toNat_sub]
  show (2 ^ 32 - 8 + (2 ^ 32 - f.toNat + e.toNat) % 2 ^ 32) % 2 ^ 32 = _
  omega

/-- A pass over free blocks in front of a used one. -/
theorem sweep_inner {before us : List UInt32} {bytes : Nat}
    (hc : Blocks mem h (before ++ (us ++ (f :: run) ++ e :: behind)) t)
    (hseg : Segment (next mem) p (us ++ (f :: run) ++ e :: behind) t)
    (hus : ∀ b ∈ us, isUsed mem b = true) (hfs : ∀ b ∈ f :: run, isUsed mem b = false)
    (he : isUsed mem e = true) (hq : us = [] → q = p) (hbytes : size.toNat = bytes)
    (hroom : bytes + 8 < 2 ^ 32) (hfuel : 2 ^ 32 ≤ fuel) : sweep size fuel (n + 1) mem p q =
      if f.toNat + (bytes + 16) ≤ e.toNat then some (setBlock mem f e (e - f - 8), some f)
      else sweep size fuel n (setBlock mem f e (e - f - 8)) e f := by
  have hlength := hc.length_lt
  simp only [List.length_append, List.length_cons] at hlength
  obtain ⟨e', hfirst, hlast⟩ := segment_append.mp hseg
  obtain rfl : e' = e := hlast.1
  obtain ⟨f', husSeg, hrun⟩ := segment_append.mp hfirst
  obtain rfl : f' = f := hrun.1
  have hrising := (rising_append.mp hc.rising).2
  have hr : Rising (next mem) UInt32.toNat 8 (f' :: run) :=
    fun b hb => hrising b (by simp only [List.mem_append]; tauto)
  have hup := (hrun.between hr List.mem_cons_self).2
  have hused : skipUsed mem fuel p q = some (f', f') :=
    skipUsed_eq husSeg hus (hfs f' List.mem_cons_self) hq (by omega)
  have hfree : skipFree mem fuel f' = some e' :=
    skipFree_eq hrun (fun b hb => ⟨hfs b hb, next_ne_zero (hr b hb)⟩) (Or.inl he)
      (by rw [List.length_cons]; omega)
  have hp : next mem p ≠ 0 := by
    refine next_ne_zero (hrising p ?_)
    cases us with
    | nil =>
      obtain rfl := husSeg
      simp
    | cons u us =>
      obtain rfl := husSeg.1
      simp
  have he₀ : e' ≠ 0 := by
    rintro rfl
    rw [UInt32.toNat_zero] at hup
    omega
  have hne : next (setBlock mem f' e' (e' - f' - 8)) e' ≠ 0 := by
    have htop := hc.le_top (b := e') (by simp)
    rw [(same_of_setBlock (by omega) htop (Or.inl hup)).next]
    exact next_ne_zero (hrising e' (by simp))
  have hfit : size + 8 ≤ e' - f' - 8 ↔ f'.toNat + (bytes + 16) ≤ e'.toNat := by
    rw [UInt32.le_iff_toNat_le, toNat_gap hbytes hroom, toNat_between hup]
    omega
  rw [sweep_succ hp hused hfree he₀, if_neg fun h => hne h.1]
  exact if_congr hfit rfl rfl

theorem sweep_runs {mem₀ : Words} {l₀ : List UInt32} (hc : Blocks mem₀ h l₀ t) {bytes : Nat}
    (hbytes : size.toNat = bytes) (hroom : bytes + 8 < 2 ^ 32) (hfuel : 2 ^ 32 ≤ fuel) :
    ∀ (k : Nat) (rest : List UInt32), rest.length ≤ k → ∀ (before : List UInt32) (mem : Words)
      (p q : UInt32) (n : Nat), Joined mem₀ mem h t l₀ (before ++ rest) →
      Segment (next mem) p rest t → rest ≠ [] → (isUsed mem p = false → q = p) → rest.length < n →
      match findRun mem₀ (bytes + 16) none rest with
      | .inl f => TakesInner size fuel mem₀ h t l₀ (bytes + 16) n mem p q f
      | .inr run => ComesToLast size fuel mem₀ h t l₀ n mem p q run := by
  intro k
  induction k with
  | zero =>
    intro rest hk _ _ _ _ _ _ _ hne
    exact absurd (List.length_eq_zero_iff.mp (Nat.le_zero.mp hk)) hne
  | succ k ih =>
    intro rest hk before mem p q n hj hseg hne hq hn
    obtain ⟨us, fs, more, rfl, hus, hfs, hmore⟩ := exists_runs mem rest
    have hsame : ∀ b ∈ us ++ fs ++ more, isUsed mem b = isUsed mem₀ b :=
      fun b hb => hj.used b (hj.sub b (List.mem_append_right _ hb))
    have hstart : us = [] → q = p := by
      rintro rfl
      cases fs with
      | nil =>
        rcases hmore with rfl | ⟨f, run, e, behind, hnil, -⟩
        · exact absurd rfl hne
        · cases hnil
      | cons f run =>
        obtain ⟨rfl, -⟩ := hseg
        exact hq (hfs p List.mem_cons_self)
    have hus₀ : ∀ b ∈ us, isUsed mem₀ b = true := fun b hb =>
      (hsame b (by simp [hb])).symm.trans (hus b hb)
    have hfs₀ : ∀ b ∈ fs, isUsed mem₀ b = false := fun b hb =>
      (hsame b (by simp [hb])).symm.trans (hfs b hb)
    obtain ⟨n, rfl⟩ := Nat.exists_eq_add_one_of_ne_zero (Nat.ne_of_gt (Nat.zero_lt_of_lt hn))
    rcases hmore with rfl | ⟨f, run, e, behind, rfl, rfl, he⟩
    · rw [List.append_nil] at hj hseg hne
      rw [List.append_nil, findRun_used hus₀, findRun_last hfs₀]
      exact ⟨mem, before, us, fs, p, q, n, rfl, hj, hseg, hne, hus, hfs, hstart, rfl⟩
    · have he₀ : isUsed mem₀ e = true := (hsame e (by simp)).symm.trans he
      have hpass := sweep_inner (n := n) hj.blocks hseg hus hfs he hstart hbytes hroom hfuel
      have hstep : Joined mem₀ (setBlock mem f e (e - f - 8)) h t l₀
          (before ++ us ++ f :: e :: behind) := by
        refine Joined.step hc ?_ hfs he
        rwa [← List.append_assoc, ← List.append_assoc] at hj
      rw [List.append_assoc, findRun_used hus₀, findRun_run hfs₀ he₀]
      split_ifs with hfit
      · rw [if_pos hfit] at hpass
        refine ⟨_, before ++ us, e, behind, hpass, hstep, ?_, hfit⟩
        rw [hstep.used f (hj.sub f (by simp)), hfs₀ f List.mem_cons_self]
      · rw [if_neg hfit] at hpass
        have hlist :
            before ++ us ++ f :: e :: behind = before ++ us ++ [f] ++ e :: behind := by simp
        rw [hlist] at hstep
        obtain ⟨e', -, hrest, -⟩ := hstep.blocks.split
        obtain rfl : e' = e := hrest.1
        have husedE : isUsed (setBlock mem f e' (e' - f - 8)) e' = true := by
          rw [hstep.used e' (hj.sub e' (by simp)), he₀]
        have hnext := ih (e' :: behind)
          (by simp only [List.length_append, List.length_cons] at hk ⊢; omega)
          (before ++ us ++ [f]) _ e' f n hstep hrest (List.cons_ne_nil _ _)
          (fun hfalse => by rw [husedE] at hfalse; cases hfalse)
          (by simp only [List.length_append, List.length_cons] at hn ⊢; omega)
        unfold TakesInner ComesToLast at hnext ⊢
        rw [hpass]
        exact hnext

/-! ### The last pass -/

section LastPass

variable {mem₀ : Words} {l₀ before us fs : List UInt32}
  (hc : Blocks mem h (before ++ (us ++ fs)) t) (hseg : Segment (next mem) p (us ++ fs) t)
  (hne : us ++ fs ≠ []) (hus : ∀ b ∈ us, isUsed mem b = true)
  (hfs : ∀ b ∈ fs, isUsed mem b = false) (hq : us = [] → q = p) (hfuel : 2 ^ 32 ≤ fuel)

include hc hseg hne hus hfs hq hfuel

/-- The used blocks are skipped, up to the free blocks at the end. -/
theorem last_start : ∃ x, x = fs.head?.getD t ∧ next mem p ≠ 0 ∧
    skipUsed mem fuel p q = some (x, x) ∧ Segment (next mem) x fs t ∧ isUsed mem x = false ∧
    Rising (next mem) UInt32.toNat 8 fs ∧ Segment (next mem) h (before ++ us) x := by
  have hlength := hc.length_lt
  simp only [List.length_append] at hlength
  obtain ⟨x, husSeg, hfsSeg⟩ := segment_append.mp hseg
  have hrising := (rising_append.mp hc.rising).2
  have hx : x = fs.head?.getD t ∧ isUsed mem x = false := by
    cases fs with
    | nil => exact ⟨hfsSeg, hfsSeg ▸ hc.last⟩
    | cons f fs => exact ⟨hfsSeg.1, hfsSeg.1 ▸ hfs f List.mem_cons_self⟩
  have hp : next mem p ≠ 0 := by
    refine next_ne_zero (hrising p ?_)
    cases us with
    | nil =>
      cases fs with
      | nil => exact absurd rfl hne
      | cons f fs =>
        obtain rfl := hseg.1
        simp
    | cons u us =>
      obtain rfl := husSeg.1
      simp
  obtain ⟨p', hbefore, hp', -⟩ := hc.split
  have hsame : p' = p := by
    cases hlist : us ++ fs with
    | nil => exact absurd hlist hne
    | cons b l =>
      rw [hlist] at hseg hp'
      exact hp'.1.trans hseg.1.symm
  obtain rfl := hsame
  exact ⟨x, hx.1, hp, skipUsed_eq husSeg hus hx.2 hq (by omega), hfsSeg, hx.2,
    (rising_append.mp hrising).2, hbefore.append husSeg⟩

end LastPass

/-- The used blocks of the chain are still in it, with their links. -/
def KeepsUsed (mem mem' : Words) (l l' : List UInt32) : Prop :=
  ∀ c ∈ l, isUsed mem c = true → c ∈ l' ∧ next mem' c = next mem c ∧ isUsed mem' c = true

/-- The free block `x` of the chain has `need` bytes. -/
def TakesRun (mem₀ mem : Words) (h t : UInt32) (l₀ : List UInt32) (need : Nat) (x : UInt32) :
    Prop :=
  ∃ before behind, Blocks mem h (before ++ x :: behind) t ∧ isUsed mem x = false ∧
    x.toNat + need ≤ (next mem x).toNat ∧ KeepsUsed mem₀ mem l₀ (before ++ x :: behind)

/-- The blocks from `x` on are free, and the link of `x` leads back. -/
def TakesLast (mem₀ mem : Words) (h : UInt32) (l₀ : List UInt32) (x : UInt32) : Prop :=
  ∃ before, Segment (next mem) h before x ∧ Rising (next mem) UInt32.toNat 8 before ∧
    (∀ b ∈ before, 4 ∣ b.toNat) ∧ 4 ∣ x.toNat ∧ x.toNat + 8 ≤ 2 ^ 32 ∧
    (next mem x).toNat ≤ x.toNat ∧ KeepsUsed mem₀ mem l₀ before

theorem Joined.keepsUsed {mem₀ : Words} {l₀ : List UInt32} (hj : Joined mem₀ mem h t l₀ l) :
    KeepsUsed mem₀ mem l₀ l := by
  intro c hc hused
  obtain ⟨hmem, hnext⟩ := hj.kept c hc hused
  exact ⟨hmem, hnext, (hj.used c hc).trans hused⟩

/-- The used blocks are not among free ones. -/
theorem KeepsUsed.drop {mem₀ : Words} {l₀ : List UInt32} (hk : KeepsUsed mem₀ mem l₀ (l ++ run))
    (hrun : ∀ b ∈ run, isUsed mem b = false) : KeepsUsed mem₀ mem l₀ l := by
  intro c hc hused
  obtain ⟨hin, hnext, hused'⟩ := hk c hc hused
  rcases List.mem_append.mp hin with hin | hin
  · exact ⟨hin, hnext, hused'⟩
  · rw [hrun c hin] at hused'
    cases hused'

theorem KeepsUsed.mono {mem₀ : Words} {l₀ l' : List UInt32} (hk : KeepsUsed mem₀ mem l₀ l)
    (hsame : ∀ b ∈ l, isUsed mem b = true → b ∈ l' ∧ SameBlock mem mem' b) :
    KeepsUsed mem₀ mem' l₀ l' := by
  intro c hc hused
  obtain ⟨hin, hnext, hused'⟩ := hk c hc hused
  obtain ⟨hin', hsame⟩ := hsame c hin hused'
  exact ⟨hin', hsame.next.trans hnext, hsame.used.trans hused'⟩

/-- The free blocks at the end, from `x` on, become one with a link back. -/
theorem takesLast_setBlock {mem₀ : Words} {l₀ before : List UInt32} {x : UInt32} (size : UInt32)
    (hc : Blocks mem h (before ++ l) t) (hx : x = l.head?.getD t)
    (hbefore : Segment (next mem) h before x) (hk : KeepsUsed mem₀ mem l₀ (before ++ l))
    (hl : ∀ b ∈ l, isUsed mem b = false) (hlink : link.toNat ≤ x.toNat) :
    TakesLast mem₀ (setBlock mem x link size) h l₀ x ∧
      ∀ b ∈ before, SameBlock mem (setBlock mem x link size) b := by
  have hr := (rising_append.mp hc.rising).1
  have hplace : 4 ∣ x.toNat ∧ x.toNat + 8 ≤ 2 ^ 32 := by
    rw [hx]
    cases l with
    | nil => exact ⟨hc.alignedLast, hc.top⟩
    | cons b l => exact ⟨hc.aligned b (by simp), hc.le_top (by simp)⟩
  have hsame : ∀ b ∈ before, SameBlock mem (setBlock mem x link size) b := by
    intro b hb
    have hlow := (hbefore.between hr hb).2
    exact same_of_setBlock hplace.2 (hc.le_top (List.mem_append_left _ hb)) (Or.inr hlow)
  refine ⟨⟨before, hbefore.congr fun b hb => (hsame b hb).next,
    hr.congr fun b hb => (hsame b hb).next, fun b hb => hc.aligned b (List.mem_append_left _ hb),
    hplace.1, hplace.2, ?_, (hk.drop hl).mono fun b hb _ => ⟨hb, hsame b hb⟩⟩, hsame⟩
  rw [next_setBlock]
  exact hlink

section LastPass

variable {mem₀ : Words} {l₀ before us fs : List UInt32}
  (hj : Joined mem₀ mem h t l₀ (before ++ (us ++ fs))) (hseg : Segment (next mem) p (us ++ fs) t)
  (hne : us ++ fs ≠ []) (hus : ∀ b ∈ us, isUsed mem b = true)
  (hfs : ∀ b ∈ fs, isUsed mem b = false) (hq : us = [] → q = p) {bytes : Nat}
  (hbytes : size.toNat = bytes) (hroom : bytes + 8 < 2 ^ 32) (hfuel : 2 ^ 32 ≤ fuel)

include hj hseg hne hus hfs hq hbytes hroom hfuel

/-- Without a link from the last block, the free blocks in front of it are taken, if they have
room. -/
theorem last_run (hlink : next mem t = 0) (hf : fs.head? = some f) : ∃ mem',
    sweep size fuel (n + 1) mem p q =
      some (mem', if f.toNat + (bytes + 16) ≤ t.toNat then some f else none) ∧
    (∃ l, Blocks mem' h l t ∧ KeepsUsed mem₀ mem' l₀ l) ∧
    (f.toNat + (bytes + 16) ≤ t.toNat → TakesRun mem₀ mem' h t l₀ (bytes + 16) f) := by
  have hlength := hj.blocks.length_lt
  simp only [List.length_append] at hlength
  obtain ⟨run, rfl⟩ : ∃ run, fs = f :: run := by
    cases fs with
    | nil => cases hf
    | cons b run => exact ⟨run, by rw [Option.some.inj hf]⟩
  obtain ⟨x, hx, hp, hskip, hfsSeg, -, hr, -⟩ :=
    last_start hj.blocks hseg hne hus hfs hq hfuel
  obtain rfl : f = x := hx.symm
  have hup := (hfsSeg.between hr List.mem_cons_self).2
  have hfree : skipFree mem fuel f = some t :=
    skipFree_eq hfsSeg (fun b hb => ⟨hfs b hb, next_ne_zero (hr b hb)⟩) (Or.inr hlink)
      (by omega)
  have ht : t ≠ 0 := by
    rintro rfl
    rw [UInt32.toNat_zero] at hup
    omega
  have hlist : before ++ (us ++ f :: run) = before ++ us ++ f :: run ++ [] := by simp
  have hblocks := hj.blocks
  rw [hlist] at hblocks
  obtain ⟨hjoined, hfreeF, hsame⟩ := hblocks.join hfsSeg (segment_nil.mpr rfl)
  have hkeeps : KeepsUsed mem₀ (setBlock mem f t (t - f - 8)) l₀ (before ++ us ++ [f]) := by
    have hk := hj.keepsUsed
    rw [← List.append_assoc] at hk
    refine (hk.drop hfs).mono fun b hb _ => ⟨List.mem_append_left _ hb, hsame b ?_⟩
    exact List.mem_cons_of_mem _ (List.mem_append_left _ (List.mem_append_left _ hb))
  have hfit : size + 8 ≤ t - f - 8 ↔ f.toNat + (bytes + 16) ≤ t.toNat := by
    rw [UInt32.le_iff_toNat_le, toNat_gap hbytes hroom, toNat_between hup]
    omega
  have hzero : next (setBlock mem f t (t - f - 8)) t = 0 :=
    (hsame t List.mem_cons_self).next.trans hlink
  refine ⟨setBlock mem f t (t - f - 8), ?_, ⟨_, hjoined, hkeeps⟩, fun hroomF =>
    ⟨before ++ us, [], hjoined, hfreeF, ?_, hkeeps⟩⟩
  · rw [sweep_succ hp hskip hfree ht]
    by_cases hroomF : f.toNat + (bytes + 16) ≤ t.toNat
    · rw [if_neg fun h => absurd (hfit.mpr hroomF) (UInt32.not_le.mpr h.2),
        if_pos (hfit.mpr hroomF), if_pos hroomF]
    · rw [if_pos ⟨hzero, UInt32.not_le.mp fun h => hroomF (hfit.mp h)⟩, if_neg hroomF]
  · rw [next_setBlock]
    exact hroomF

/-- Without a link, the last block is taken when it is alone, and is linked to itself. -/
theorem last_alone (hlink : next mem t = 0) (hf : fs = []) (hbound : bytes + 16 ≤ 2 ^ 32) :
    ∃ mem', sweep size fuel (n + 1) mem p q = some (mem', some t) ∧
      TakesLast mem₀ mem' h l₀ t := by
  subst hf
  obtain ⟨x, hx, hp, hskip, -, hfreeT, -, hbefore⟩ :=
    last_start hj.blocks hseg hne hus hfs hq hfuel
  obtain rfl : t = x := hx.symm
  have hfree : skipFree mem fuel t = some t :=
    skipFree_eq (segment_nil.mpr rfl) (by simp) (Or.inr hlink) (by rw [List.length_nil]; omega)
  have ht : t ≠ 0 := by
    have hback := hj.blocks.back
    rintro rfl
    rw [UInt32.toNat_zero] at hback
    omega
  have hfit : size + 8 ≤ t - t - 8 := by
    rw [UInt32.le_iff_toNat_le, toNat_gap hbytes hroom, UInt32.sub_self]
    show bytes + 8 ≤ 2 ^ 32 - 8
    omega
  have hblocks := hj.blocks
  have hk := hj.keepsUsed
  rw [← List.append_assoc] at hblocks hk
  refine ⟨setBlock mem t t (t - t - 8), ?_,
    (takesLast_setBlock _ hblocks rfl hbefore hk hfs (Nat.le_refl _)).1⟩
  rw [sweep_succ hp hskip hfree ht, next_setBlock, if_neg fun h => ht h.1, if_pos hfit]

/-- With a link that leads to a used block, the free blocks at the end are taken. -/
theorem last_linked (hc : Blocks mem₀ h l₀ t) (hlow : 8 ≤ h.toNat) {path : List UInt32}
    (hlink : next mem t ≠ 0) (hu : u ∈ l₀) (hpath : Reaches mem l₀ (next mem t) u path)
    (hbound : (fs.head?.getD t).toNat + bytes + 16 ≤ 2 ^ 32) :
    ∃ mem', sweep size fuel (n + 1) mem p q = some (mem', some (fs.head?.getD t)) ∧
      TakesLast mem₀ mem' h l₀ (fs.head?.getD t) := by
  have hlength := hj.blocks.length_lt
  simp only [List.length_append] at hlength
  obtain ⟨x, hx, hp, hskip, hfsSeg, hfreeX, hr, hbefore⟩ :=
    last_start hj.blocks hseg hne hus hfs hq hfuel
  rw [← hx] at hbound ⊢
  have hpathLength := hpath.segment.length_le hpath.rising
  have hutop := u.toNat_lt
  -- from the free blocks at the end, over the last one and along its link
  have hwalk : Segment (next mem) x (fs ++ t :: path) u := hfsSeg.append ⟨rfl, hpath.segment⟩
  have hfree : skipFree mem fuel x = some u := by
    refine skipFree_eq hwalk (fun b hb => ?_) (Or.inl hpath.used)
      (by simp only [List.length_append, List.length_cons]; omega)
    rcases List.mem_append.mp hb with hb | hb
    · exact ⟨hfs b hb, next_ne_zero (hr b hb)⟩
    · rcases List.mem_cons.mp hb with rfl | hb
      · exact ⟨hj.blocks.last, hlink⟩
      · exact ⟨(hpath.free b hb).2, next_ne_zero (hpath.rising b hb)⟩
  have hblocks := hj.blocks
  have hk := hj.keepsUsed
  rw [← List.append_assoc] at hblocks hk
  have hr' := (rising_append.mp hblocks.rising).1
  -- the used block is one in front of the free blocks at the end
  have huin : u ∈ before ++ us :=
    ((hk.drop hfs) u hu ((hj.used u hu).symm.trans hpath.used)).1
  have hux := (hbefore.between hr' huin).2
  have hu8 : 8 ≤ u.toNat := hlow.trans (hc.segment.between hc.rising hu).1
  have hu₀ : u ≠ 0 := by
    rintro rfl
    rw [UInt32.toNat_zero] at hu8
    omega
  have hle : u.toNat ≤ x.toNat := by omega
  obtain ⟨hlast, hsame⟩ := takesLast_setBlock (u - x - 8) hblocks hx hbefore hk hfs hle
  have hne' : next (setBlock mem x u (u - x - 8)) u ≠ 0 := by
    rw [(hsame u huin).next]
    exact next_ne_zero (hr' u huin)
  have hfit : size + 8 ≤ u - x - 8 := by
    rw [UInt32.le_iff_toNat_le, toNat_gap hbytes hroom, UInt32.toNat_sub, UInt32.toNat_sub]
    show bytes + 8 ≤ (2 ^ 32 - 8 + (2 ^ 32 - x.toNat + u.toNat) % 2 ^ 32) % 2 ^ 32
    omega
  refine ⟨setBlock mem x u (u - x - 8), ?_, hlast⟩
  rw [sweep_succ hp hskip hfree hu₀, if_neg fun h => hne' h.1, if_pos hfit]

end LastPass

end PrplHypervisor.Guest
