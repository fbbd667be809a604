import PrplHypervisor.Guest.MallocSweep

/-! When the heap of a guest is safe.  Without the end marker the last block has no bound, and its
link comes to lead back to a used block once the last block has been taken.  A call of `malloc` that
is served by free blocks in front of a used one is right; one that comes to the last block is right
while the memory from there on suffices and the link still leads to a used block. -/

namespace PrplHypervisor.Guest

open Lib.LinkedList Lib.Runs Lib.Words

/-- The link of the last block leads to a block that is used or has a used one behind it. -/
def LeadsToUsed (mem : Words) (l : List UInt32) (t : UInt32) : Prop :=
  ∃ u ∈ l.dropWhile (· ≠ next mem t), isUsed mem u = true

instance (mem : Words) (l : List UInt32) (t : UInt32) : Decidable (LeadsToUsed mem l t) :=
  List.decidableBEx _ _

/-- What the search for a request finds is right.  When the sweep comes to the last block `t`, it
takes the free blocks in front of it, from `q` on, or the last one alone.  With a link it does so in
any case, which is right when the link leads to a used block and the memory suffices.  Without one,
free blocks that do not suffice are left, which is right when they do not suffice with the last
block. -/
def Served (a : HeapArea) (mem : Words) (size : UInt32) (l : List UInt32) (t : UInt32) :
    UInt32 ⊕ Option UInt32 → Prop
  | .inl _ => True
  | .inr none => (next mem t ≠ 0 → LeadsToUsed mem l t) ∧ t.toNat + 8 + size.toNat ≤ a.finish
  | .inr (some q) =>
    if next mem t ≠ 0 then LeadsToUsed mem l t ∧ q.toNat + 8 + size.toNat ≤ a.finish
    else q.toNat + 16 + blockBytes size ≤ t.toNat ∨ a.endMarker < q.toNat + 16 + blockBytes size

instance (a : HeapArea) (mem : Words) (size : UInt32) (l : List UInt32) (t : UInt32) :
    ∀ found, Decidable (Served a mem size l t found)
  | .inl _ => isTrue trivial
  | .inr none => inferInstanceAs (Decidable (_ ∧ _))
  | .inr (some _) => inferInstanceAs (Decidable (ite _ _ _))

/-- A request that `malloc` serves as it should. -/
def Allowed (a : HeapArea) (h : GuestHeap) (size : UInt32) : Prop :=
  blockBytes size + 8 < 2 ^ 32 ∧ ∀ l t, IsChain h.mem h.krnlHeap l t →
    Served a h.mem size l t (findRun h.mem (blockBytes size + 16) none l)

def AllowedEvent (a : HeapArea) (s : GuestRun) : GuestEvent → Prop
  | .malloc size => Allowed a s.heap size
  | _ => True

variable {mem mem' : Words} {h p q b c f e t u x link size : UInt32}
    {l l₁ l₂ run behind : List UInt32}
  {fuel n bytes : Nat} {a : HeapArea}

/-! ### The search and the runs of free blocks -/

theorem findRun_some {need : Nat} {last : Option UInt32}
    (h : findRun mem need (some f) l = .inr last) :
    (∃ u ∈ l, isUsed mem u = true ∧ u.toNat < f.toNat + need) ∨ last = some f := by
  induction l with
  | nil => exact Or.inr (Sum.inr.inj h).symm
  | cons b l ih =>
    rw [findRun] at h
    cases hb : isUsed mem b with
    | true =>
      rw [hb, if_pos rfl] at h
      by_cases hfit : f.toNat + need ≤ b.toNat
      · simp only [if_pos hfit] at h
        cases h
      · exact Or.inl ⟨b, List.mem_cons_self, hb, Nat.lt_of_not_le hfit⟩
    | false =>
      rw [hb, if_neg Bool.false_ne_true] at h
      rcases ih h with ⟨u, hu, hused⟩ | hlast
      · exact Or.inl ⟨u, List.mem_cons_of_mem _ hu, hused⟩
      · exact Or.inr hlast

theorem findRun_cons_free {need : Nat} {start : Option UInt32} (hb : isUsed mem b = false) :
    findRun mem need start (b :: l) = findRun mem need (some (start.getD b)) l := by
  cases start with
  | none => rw [findRun, hb, if_neg Bool.false_ne_true]
  | some g => rw [findRun, hb, if_neg Bool.false_ne_true]

theorem findRun_cons_used {need : Nat} {start last : Option UInt32} (hb : isUsed mem b = true)
    (h : findRun mem need start (b :: l) = .inr last) : findRun mem need none l = .inr last := by
  cases start with
  | none => rwa [findRun, hb, if_pos rfl] at h
  | some g =>
    rw [findRun, hb, if_pos rfl] at h
    by_cases hfit : g.toNat + need ≤ b.toNat
    · simp only [if_pos hfit] at h
      cases h
    · simpa only [if_neg hfit] using h

/-- A search that comes to the end passes runs that are too short, and stays at the first block of
the last one. -/
theorem findRun_inr {need : Nat} {start last : Option UInt32} {before : List UInt32}
    (h : findRun mem need start l = .inr last) (hl : l = before ++ f :: run ++ behind)
    (hfree : ∀ b ∈ f :: run, isUsed mem b = false)
    (hsort : l.Pairwise fun b c => b.toNat ≤ c.toNat)
    (hstart : ∀ g, start = some g → ∀ b ∈ l, g.toNat ≤ b.toNat) :
    (∃ u ∈ behind, isUsed mem u = true ∧ u.toNat < f.toNat + need) ∨
      ∃ g, last = some g ∧ g.toNat ≤ f.toNat := by
  induction l generalizing start before with
  | nil => simp at hl
  | cons b l ih =>
    obtain ⟨hfirst, hsort⟩ := List.pairwise_cons.mp hsort
    cases before with
    | nil =>
      obtain ⟨rfl, htail⟩ := List.cons.inj hl
      obtain rfl : l = run ++ behind := htail
      rw [findRun_cons_free (hfree b List.mem_cons_self),
        findRun_free fun c hc => hfree c (List.mem_cons_of_mem _ hc)] at h
      have hle : (start.getD b).toNat ≤ b.toNat := by
        cases start with
        | none => exact Nat.le_refl _
        | some g => exact hstart g rfl b List.mem_cons_self
      rcases findRun_some h with ⟨u, hu, hused, hlt⟩ | hlast
      · exact Or.inl ⟨u, hu, hused, by omega⟩
      · exact Or.inr ⟨_, hlast, hle⟩
    | cons b' before =>
      obtain ⟨rfl, rfl⟩ := List.cons.inj hl
      cases hb : isUsed mem b with
      | true => exact ih (findRun_cons_used hb h) rfl hsort fun g hg => by cases hg
      | false =>
        rw [findRun_cons_free hb] at h
        refine ih h rfl hsort fun g hg c hc => ?_
        obtain rfl := Option.some.inj hg
        cases start with
        | none => exact hfirst c hc
        | some g => exact (hstart g rfl b List.mem_cons_self).trans (hfirst c hc)

/-- A request does not fit when the search comes to the end and neither what is in front of the last
block nor that with the last block suffices. -/
theorem not_runFits {s : GuestHeap} (hc : IsChain s.mem s.krnlHeap l t)
    (hfind : findRun s.mem (blockBytes size + 16) none l = .inr (some q))
    (hq : q.toNat ≤ t.toNat) (hshort : ¬q.toNat + (blockBytes size + 16) ≤ t.toNat)
    (hmarker : a.endMarker < q.toNat + 16 + blockBytes size) : ¬RunFits a s size := by
  rintro ⟨l', t', hc', before, f, run, behind, hlist, hfree, hfits⟩
  obtain ⟨rfl, rfl⟩ := hc.unique hc'
  have hsort := hc.segment.pairwise hc.rising
  have hsearch : ∀ before f run behind, l = before ++ f :: run ++ behind →
      (∀ b ∈ f :: run, isUsed s.mem b = false) →
      (∃ u ∈ behind, isUsed s.mem u = true ∧ u.toNat < f.toNat + (blockBytes size + 16)) ∨
        q.toNat ≤ f.toNat := by
    intro before f run behind hl hfree
    rcases findRun_inr hfind hl hfree hsort (fun g hg => by cases hg) with hused | ⟨g, hg, hle⟩
    · exact Or.inl hused
    · obtain rfl := Option.some.inj hg
      exact Or.inr hle
  rcases List.eq_nil_or_concat behind with rfl | ⟨behind, t', rfl⟩
  · -- the run ends with the last block
    have hmark : f.toNat + 8 + (blockBytes size + 8) ≤ a.endMarker := hfits
    rw [List.append_nil] at hlist
    rcases List.eq_nil_or_concat run with rfl | ⟨run, t', rfl⟩
    · obtain ⟨-, hlast⟩ := List.append_inj' hlist rfl
      obtain rfl := List.singleton_inj.mp hlast
      omega
    · rw [List.concat_eq_append, ← List.cons_append, ← List.append_assoc] at hlist
      obtain ⟨hl, -⟩ := List.append_inj' hlist rfl
      rcases hsearch before f run [] (by rw [hl, List.append_nil]) (fun b hb => hfree b (by
        rw [List.concat_eq_append, ← List.cons_append]
        exact List.mem_append_left _ hb)) with ⟨u, hu, -⟩ | hle
      · cases hu
      · omega
  · rw [List.concat_eq_append, ← List.append_assoc] at hlist
    obtain ⟨hl, hlast⟩ := List.append_inj' hlist rfl
    obtain rfl := List.singleton_inj.mp hlast
    rcases hsearch before f run behind hl hfree with ⟨u, hu, -, hlt⟩ | hle
    · cases behind with
      | nil => cases hu
      | cons e behind =>
        have hend : f.toNat + 8 + (blockBytes size + 8) ≤ e.toNat := hfits
        have hle : e.toNat ≤ u.toNat := by
          rcases List.mem_cons.mp hu with rfl | hu
          · exact Nat.le_refl _
          · rw [hl] at hsort
            exact (List.pairwise_cons.mp (List.pairwise_append.mp hsort).2.1).1 u hu
        omega
    · have hend : f.toNat + 8 + (blockBytes size + 8) ≤ t.toNat := by
        cases behind with
        | nil => exact hfits
        | cons e behind =>
          have hend : f.toNat + 8 + (blockBytes size + 8) ≤ e.toNat := hfits
          have := hc.le_last (b := e) (by rw [hl]; simp)
          omega
      omega

/-! ### One call of malloc -/

theorem le_blockBytes (size : UInt32) : size.toNat ≤ blockBytes size ∧
    blockBytes size ≤ size.toNat + 3 := by
  unfold blockBytes
  omega

theorem toNat_align4 (hroom : blockBytes size + 8 < 2 ^ 32) :
    (align4 size).toNat = blockBytes size := by
  have hsum : (size + 3).toNat = (size.toNat + 3) % 2 ^ 32 := UInt32.toNat_add size 3
  have hshift : ((size + 3) >>> 2).toNat = (size.toNat + 3) % 2 ^ 32 / 4 := by
    rw [toNat_shiftRight (k := 2) rfl (by decide), hsum]
    rfl
  unfold blockBytes at hroom ⊢
  rw [align4, toNat_shiftLeft_of_lt (k := 2) rfl (by decide) (by rw [hshift]; omega), hshift]
  omega

theorem KeepsUsed.refl (mem : Words) (l : List UInt32) : KeepsUsed mem mem l l :=
  fun _ hc hused => ⟨hc, rfl, hused⟩

/-- The first used block of a list that has one. -/
theorem exists_first_used (hused : ∃ u ∈ l, isUsed mem u = true) :
    ∃ fs u rest, l = fs ++ u :: rest ∧ (∀ b ∈ fs, isUsed mem b = false) ∧ isUsed mem u = true := by
  induction l with
  | nil =>
    obtain ⟨u, hu, -⟩ := hused
    cases hu
  | cons b l ih =>
    cases hb : isUsed mem b with
    | true => exact ⟨[], b, l, rfl, by simp, hb⟩
    | false =>
      obtain ⟨u, hu, hu'⟩ := hused
      rcases List.mem_cons.mp hu with rfl | hin
      · rw [hb] at hu'
        cases hu'
      · obtain ⟨fs, v, rest, rfl, hfs, hv⟩ := ih ⟨u, hin, hu'⟩
        exact ⟨b :: fs, v, rest, rfl, List.forall_mem_cons.mpr ⟨hb, hfs⟩, hv⟩

/-- The used block that the link of the last block leads to. -/
theorem LeadsToUsed.reaches (hc : Blocks mem h l t) (hl : LeadsToUsed mem l t) :
    ∃ u ∈ l, ∃ path, Reaches mem l (next mem t) u path := by
  obtain ⟨fs, u, rest, hdrop, hfs, hu⟩ := exists_first_used hl
  have hlist := List.takeWhile_append_dropWhile (p := fun b => decide (b ≠ next mem t)) (l := l)
  have hhead := List.head?_dropWhile_not (fun b => decide (b ≠ next mem t)) l
  rw [hdrop] at hlist hhead
  generalize l.takeWhile _ = before at hlist
  subst hlist
  obtain ⟨m, -, hseg, -, hr⟩ := hc.split
  obtain ⟨u', hpath, hu'⟩ := segment_append.mp hseg
  obtain rfl : u' = u := hu'.1
  have hm : m = next mem t := by
    cases fs with
    | nil => exact hseg.1.trans (by simpa using hhead)
    | cons f fs => exact hseg.1.trans (by simpa using hhead)
  refine ⟨u', by simp, fs, hm ▸ hpath, (rising_append.mp hr).1, fun c hcin => ⟨?_, hfs c hcin⟩, hu⟩
  exact List.mem_append_right _ (List.mem_append_left _ hcin)

theorem Served.linked {run : Option UInt32} (h : Served a mem size l t (.inr run))
    (hlink : next mem t ≠ 0) :
    LeadsToUsed mem l t ∧ (run.getD t).toNat + 8 + size.toNat ≤ a.finish := by
  cases run with
  | none => exact ⟨h.1 hlink, h.2⟩
  | some q => rwa [Served, if_pos hlink] at h

/-- What the sweep of a request comes to when it is right: free blocks in front of a used one, the
last blocks, or nothing when the request does not fit. -/
def Swept (a : HeapArea) (mem : Words) (size h : UInt32) (l : List UInt32) (t : UInt32)
    (result : Option (Words × Option UInt32)) : Prop :=
  (∃ mem' x, result = some (mem', some x) ∧ TakesRun mem mem' h t l (blockBytes size + 16) x) ∨
  (∃ mem' x, result = some (mem', some x) ∧ TakesLast mem mem' h l x ∧
    x.toNat + 8 + size.toNat ≤ a.finish) ∨
  ∃ mem' l' q, result = some (mem', none) ∧ Blocks mem' h l' t ∧ KeepsUsed mem mem' l l' ∧
    findRun mem (blockBytes size + 16) none l = .inr (some q) ∧ q.toNat ≤ t.toNat ∧
    ¬q.toNat + (blockBytes size + 16) ≤ t.toNat ∧ a.endMarker < q.toNat + 16 + blockBytes size

/-- The pass of the sweep that comes to the last block. -/
theorem swept_last {before us fs : List UInt32} (hc : Blocks mem h l t) (hlow : 8 ≤ h.toNat)
    (hroom : blockBytes size + 8 < 2 ^ 32) (hfuel : 2 ^ 32 ≤ fuel)
    (hj : Joined mem mem' h t l (before ++ (us ++ fs))) (hseg : Segment (next mem') p (us ++ fs) t)
    (hne : us ++ fs ≠ []) (hus : ∀ b ∈ us, isUsed mem' b = true)
    (hfs : ∀ b ∈ fs, isUsed mem' b = false) (hq : us = [] → q = p)
    (hfind : findRun mem (blockBytes size + 16) none l = .inr fs.head?)
    (hserved : Served a mem size l t (.inr fs.head?)) :
    Swept a mem size h l t (sweep (align4 size) fuel (n + 1) mem' p q) := by
  have hbytes := toNat_align4 hroom
  have hsize := le_blockBytes size
  have hbelow := a.below
  have hfinish : a.finish = a.start.toNat + a.size.toNat := rfl
  by_cases hlink : next mem t = 0
  · have hlink' : next mem' t = 0 := hj.last.trans hlink
    cases hhead : fs.head? with
    | none =>
      rw [hhead] at hserved
      have hbound := hserved.2
      obtain ⟨mem'', htake, hlast⟩ := last_alone (n := n) hj hseg hne hus hfs hq hbytes hroom hfuel
        hlink' (List.head?_eq_none_iff.mp hhead) (by omega)
      exact Or.inr (Or.inl ⟨mem'', t, htake, hlast, hbound⟩)
    | some f =>
      rw [hhead, Served, if_neg (not_not_intro hlink)] at hserved
      obtain ⟨mem'', htake, ⟨l', hblocks, hkeeps⟩, hrun⟩ := last_run (n := n) hj hseg hne hus hfs hq
        hbytes hroom hfuel hlink' hhead
      by_cases hfit : f.toNat + (blockBytes size + 16) ≤ t.toNat
      · rw [if_pos hfit] at htake
        exact Or.inl ⟨mem'', f, htake, hrun hfit⟩
      · rw [if_neg hfit] at htake
        have hle : f.toNat ≤ t.toNat := by
          have hin : f ∈ us ++ fs := List.mem_append_right _ (List.mem_of_mem_head? hhead)
          have := hj.blocks.le_last (List.mem_append_right before hin)
          omega
        have hmarker : a.endMarker < f.toNat + 16 + blockBytes size := by
          rcases hserved with hfit' | hmarker
          · omega
          · exact hmarker
        exact Or.inr
          (Or.inr ⟨mem'', l', f, htake, hblocks, hkeeps, hfind.trans (by rw [hhead]), hle, hfit,
            hmarker⟩)
  · obtain ⟨hleads, hbound⟩ := hserved.linked hlink
    obtain ⟨u, hu, hreach⟩ := hleads.reaches hc
    obtain ⟨path, hpath⟩ := hj.reaches _ u hu hreach
    rw [← hj.last] at hpath
    obtain ⟨mem'', htake, hlast⟩ :=
      last_linked (n := n) hj hseg hne hus hfs hq hbytes hroom hfuel hc
      hlow (fun h => hlink (hj.last.symm.trans h)) hu hpath (by omega)
    exact Or.inr (Or.inl ⟨mem'', _, htake, hlast, hbound⟩)

theorem sweep_spec (hc : Blocks mem h l t) (hlow : 8 ≤ h.toNat)
    (hroom : blockBytes size + 8 < 2 ^ 32) (hfuel : 2 ^ 32 ≤ fuel)
    (hserved : Served a mem size l t (findRun mem (blockBytes size + 16) none l)) :
    Swept a mem size h l t (sweep (align4 size) fuel fuel mem h h) := by
  cases l with
  | nil =>
    obtain rfl : h = t := hc.segment
    obtain ⟨hlink, hbound⟩ := hserved
    have hzero : next mem h = 0 := by
      by_contra hne
      obtain ⟨u, hu, -⟩ := hlink hne
      cases hu
    obtain ⟨n, rfl⟩ := Nat.exists_eq_add_one_of_ne_zero (n := fuel) (by omega)
    refine Or.inr (Or.inl ⟨mem, h, by rw [sweep, if_pos hzero], ⟨[], rfl, ?_, ?_,
      hc.alignedLast, hc.top, Nat.le_of_lt hc.back, KeepsUsed.refl mem []⟩, hbound⟩)
    · exact fun b hb => by cases hb
    · exact fun b hb => by cases hb
  | cons b l =>
    obtain rfl : h = b := hc.segment.1
    have hruns :=
      sweep_runs hc (toNat_align4 hroom) hroom hfuel _ (h :: l) (Nat.le_refl _) [] mem h h
      fuel (Joined.refl hc) hc.segment (List.cons_ne_nil _ _) (fun _ => rfl)
      (by have := hc.length_lt; omega)
    cases hfind : findRun mem (blockBytes size + 16) none (h :: l) with
    | inl f =>
      simp only [hfind] at hruns
      obtain ⟨mem', before, e, behind, hsweep, hj, hfree, hfit⟩ := hruns
      refine Or.inl ⟨mem', f, hsweep, before, e :: behind, hj.blocks, hfree, ?_, hj.keepsUsed⟩
      obtain ⟨m, -, hf⟩ := segment_append.mp hj.blocks.segment
      obtain rfl : m = f := hf.1
      have he : next mem' m = e := hf.2.1
      rw [he]
      exact hfit
    | inr run =>
      simp only [hfind] at hruns
      rw [hfind] at hserved
      obtain ⟨mem', before, us, fs, p, q, n, hsweep, hj, hseg, hne, hus, hfs, hq, rfl⟩ := hruns
      rw [hsweep]
      exact swept_last hc hlow hroom hfuel hj hseg hne hus hfs hq hfind hserved

/-! ### The block that is taken -/

theorem blockBytes_dvd (size : UInt32) : 4 ∣ blockBytes size := Nat.dvd_mul_left _ _

theorem toNat_behind (hbytes : size.toNat = bytes) (htop : x.toNat + bytes + 16 ≤ 2 ^ 32) :
    (x + size + 8).toNat = x.toNat + bytes + 8 := by
  rw [UInt32.toNat_add, UInt32.toNat_add, hbytes]
  show ((x.toNat + bytes) % 2 ^ 32 + 8) % 2 ^ 32 = _
  omega

/-- The block is used, the rest behind it is free, and the other blocks are the same. -/
structure Splits (mem mem' : Words) (x n : UInt32) : Prop where
  next : next mem' x = n
  used : isUsed mem' x = true
  nextRest : PrplHypervisor.Guest.next mem' n = PrplHypervisor.Guest.next mem x
  free : isUsed mem' n = false
  same : ∀ b, b.toNat + 8 ≤ 2 ^ 32 → b.toNat + 8 ≤ x.toNat ∨ n.toNat + 8 ≤ b.toNat →
    SameBlock mem mem' b

theorem split_splits (mem : Words) (hbytes : size.toNat = bytes) (hdvd : 4 ∣ bytes)
    (htop : x.toNat + bytes + 16 ≤ 2 ^ 32) : Splits mem (split mem x size) x (x + size + 8) := by
  have hn := toNat_behind hbytes htop
  have hdef : split mem x size =
      setBlock (setBlock mem x (x + size + 8) (size ||| 1)) (x + size + 8) (next mem x)
        ((blockSize mem x &&& ~~~1) - size - 8) := by
    rw [split]
    simp only [next_setBlock]
  have hx : SameBlock (setBlock mem x (x + size + 8) (size ||| 1)) (split mem x size) x := by
    rw [hdef]
    exact same_of_setBlock (by omega) (by omega) (by omega)
  rw [hdef] at hx ⊢
  refine ⟨hx.next.trans next_setBlock, ?_, next_setBlock, ?_, fun b hb hapart => ?_⟩
  · rw [hx.used, isUsed, blockSize_setBlock]
    exact decide_eq_true (hasBits_or_self size (by decide))
  · apply isUsed_eq_false
    rw [blockSize_setBlock]
    have hmark : (blockSize mem x &&& ~~~1).toNat = (blockSize mem x).toNat / 2 * 2 :=
      toNat_and_not_low (k := 1) rfl
    rw [UInt32.toNat_sub, UInt32.toNat_sub, hmark, hbytes]
    show 2 ∣ (2 ^ 32 - 8 + _) % 2 ^ 32
    have := size.toNat_lt
    omega
  · refine SameBlock.trans (same_of_setBlock (by omega) hb ?_) (same_of_setBlock (by omega) hb ?_)
    · omega
    · omega

/-- The block at `x` up to `n` has been taken. -/
structure Taken (a : HeapArea) (mem₀ mem : Words) (h : UInt32) (l₀ l : List UInt32)
    (t x n : UInt32) : Prop where
  blocks : Blocks mem h l t
  bound : t.toNat ≤ a.finish + 3
  keeps : KeepsUsed mem₀ mem l₀ l
  isBlock : x ∈ l
  used : isUsed mem x = true
  next : next mem x = n
  fresh : ∀ c ∈ l₀, isUsed mem₀ c = true → c ≠ x

theorem TakesRun.taken {mem₀ : Words} {l₀ : List UInt32} (hbytes : size.toNat = bytes)
    (hdvd : 4 ∣ bytes) (hrun : TakesRun mem₀ mem h t l₀ (bytes + 16) x)
    (hbound : t.toNat ≤ a.finish + 3) : (x + size + 8).toNat = x.toNat + bytes + 8 ∧
      x.toNat + bytes + 16 ≤ t.toNat ∧
      ∃ l, Taken a mem₀ (split mem x size) h l₀ l t x (x + size + 8) := by
  obtain ⟨before, behind, hblocks, hfree, hfit, hkeeps⟩ := hrun
  obtain ⟨x', hbefore, hx, hrBefore, hr⟩ := hblocks.split
  obtain rfl : x' = x := hx.1
  have hbehind := hx.2
  have hrBehind : Rising (next mem) UInt32.toNat 8 behind :=
    fun b hb => hr b (List.mem_cons_of_mem _ hb)
  have hle := hbehind.start_le hrBehind
  have htop := hblocks.top
  have hn := toNat_behind hbytes (x := x') (by omega)
  have hsplit := split_splits mem hbytes hdvd (x := x') (by omega)
  have hsameBefore : ∀ b ∈ before, SameBlock mem (split mem x' size) b := fun b hb =>
    hsplit.same b (hblocks.le_top (by simp [hb])) (Or.inl (hbefore.between hrBefore hb).2)
  have hsameBehind : ∀ b ∈ behind, SameBlock mem (split mem x' size) b := by
    intro b hb
    have hlow := (hbehind.between hrBehind hb).1
    exact hsplit.same b (hblocks.le_top (by simp [hb])) (Or.inr (by omega))
  have hsameLast : SameBlock mem (split mem x' size) t :=
    hsplit.same t htop (Or.inr (by omega))
  have hfresh : ∀ c ∈ l₀, isUsed mem₀ c = true → c ≠ x' := by
    rintro c hc hused rfl
    have hused' := (hkeeps c hc hused).2.2
    rw [hfree] at hused'
    cases hused'
  refine ⟨hn, by omega, before ++ x' :: (x' + size + 8) :: behind,
    ⟨⟨⟨?_, ?_, ?_⟩, ?_, hblocks.alignedLast, ?_, htop⟩, hbound, ?_, by simp, hsplit.used,
      hsplit.next, hfresh⟩⟩
  · refine (hbefore.congr fun b hb => (hsameBefore b hb).next).append ⟨rfl, ?_⟩
    rw [hsplit.next]
    refine ⟨rfl, ?_⟩
    rw [hsplit.nextRest]
    exact hbehind.congr fun b hb => (hsameBehind b hb).next
  · refine rising_append.mpr ⟨hrBefore.congr fun b hb => (hsameBefore b hb).next, fun b hb => ?_⟩
    rcases List.mem_cons.mp hb with rfl | hb
    · rw [hsplit.next]
      omega
    · rcases List.mem_cons.mp hb with rfl | hb
      · rw [hsplit.nextRest]
        omega
      · exact hrBehind.congr (fun b hb => (hsameBehind b hb).next) b hb
  · rw [hsameLast.next]
    exact hblocks.back
  · intro b hb
    have haligned := hblocks.aligned x' (by simp)
    simp only [List.mem_append, List.mem_cons] at hb
    rcases hb with hb | rfl | rfl | hb
    · exact hblocks.aligned b (by simp [hb])
    · exact haligned
    · omega
    · exact hblocks.aligned b (by simp [hb])
  · rw [hsameLast.used]
    exact hblocks.last
  · refine hkeeps.mono fun c hin hused => ?_
    simp only [List.mem_append, List.mem_cons] at hin ⊢
    rcases hin with hin | rfl | hin
    · exact ⟨Or.inl hin, hsameBefore c hin⟩
    · rw [hfree] at hused
      cases hused
    · exact ⟨Or.inr (Or.inr (Or.inr hin)), hsameBehind c hin⟩

theorem TakesLast.taken {mem₀ : Words} {l₀ : List UInt32} (hbytes : size.toNat = bytes)
    (hdvd : 4 ∣ bytes) (hlast : TakesLast mem₀ mem h l₀ x)
    (hbound : x.toNat + 8 + bytes ≤ a.finish + 3) :
    (x + size + 8).toNat = x.toNat + bytes + 8 ∧
      ∃ l, Taken a mem₀ (split mem x size) h l₀ l (x + size + 8) x (x + size + 8) := by
  obtain ⟨before, hbefore, hr, haligned, halignedX, hxtop, hback, hkeeps⟩ := hlast
  have hbelow := a.below
  unfold HeapArea.finish at hbound
  have hn := toNat_behind hbytes (x := x) (by omega)
  have hsplit := split_splits mem hbytes hdvd (x := x) (by omega)
  have hlow : ∀ b ∈ before, b.toNat + 8 ≤ x.toNat := fun b hb => (hbefore.between hr hb).2
  have hsame : ∀ b ∈ before, SameBlock mem (split mem x size) b := by
    intro b hb
    have := hlow b hb
    exact hsplit.same b (by omega) (Or.inl this)
  have hfresh : ∀ c ∈ l₀, isUsed mem₀ c = true → c ≠ x := by
    rintro c hc hused rfl
    have := hlow c (hkeeps c hc hused).1
    omega
  refine ⟨hn, before ++ [x], ⟨⟨⟨?_, ?_, ?_⟩, ?_, by omega, hsplit.free, by omega⟩, ?_, ?_, by simp,
    hsplit.used, hsplit.next, hfresh⟩⟩
  · exact (hbefore.congr fun b hb => (hsame b hb).next).append ⟨rfl, hsplit.next⟩
  · refine rising_append.mpr ⟨hr.congr fun b hb => (hsame b hb).next, fun b hb => ?_⟩
    rw [List.mem_singleton.mp hb, hsplit.next]
    omega
  · rw [hsplit.nextRest]
    omega
  · intro b hb
    rcases List.mem_append.mp hb with hb | hb
    · exact haligned b hb
    · rw [List.mem_singleton.mp hb]
      exact halignedX
  · unfold HeapArea.finish
    omega
  · exact hkeeps.mono fun c hin _ => ⟨List.mem_append_left _ hin, hsame c hin⟩

/-! ### The invariant -/

/-- The blocks form a chain, and the live pointers are those of used blocks. -/
structure GuestInv (a : HeapArea) (s : GuestRun) (l : List UInt32) (t : UInt32) : Prop where
  start : s.heap.krnlHeap.toNat = a.start.toNat + 8
  blocks : Blocks s.heap.mem s.heap.krnlHeap l t
  bound : l ≠ [] → t.toNat ≤ a.finish + 3
  live : ∀ b ∈ s.live, ∃ c ∈ l, isUsed s.heap.mem c = true ∧ b.1.toNat = c.toNat + 8 ∧
    b.1.toNat + blockBytes b.2 ≤ (next s.heap.mem c).toNat
  nodup : (s.live.map Prod.fst).Nodup

variable {s : GuestRun}

/-- The live blocks keep their places while used blocks do. -/
theorem GuestInv.keeps (hi : GuestInv a s l t) {l' : List UInt32}
    (hk : KeepsUsed s.heap.mem mem' l l') {b : UInt32 × UInt32} (hb : b ∈ s.live) :
    ∃ c ∈ l', isUsed mem' c = true ∧ b.1.toNat = c.toNat + 8 ∧
      b.1.toNat + blockBytes b.2 ≤ (next mem' c).toNat := by
  obtain ⟨c, hc, hused, hptr, hend⟩ := hi.live b hb
  obtain ⟨hin, hnext, hused'⟩ := hk c hc hused
  exact ⟨c, hin, hused', hptr, by rw [hnext]; exact hend⟩

theorem toNat_ptr (htop : x.toNat + 8 < 2 ^ 32) : (x + 8).toNat = x.toNat + 8 := by
  rw [UInt32.toNat_add]
  show (x.toNat + 8) % 2 ^ 32 = _
  omega

variable {n' : UInt32}

/-- The new block is in the heap and apart from the live ones. -/
theorem Taken.inHeap (hi : GuestInv a s l t) {l' : List UInt32} {t' : UInt32}
    (ht : Taken a s.heap.mem mem' s.heap.krnlHeap l l' t' x n')
    (hn : n'.toNat = x.toNat + blockBytes size + 8)
    (hhigh : x.toNat + 8 + size.toNat ≤ a.finish) : InHeap a s (x + 8) size := by
  have hbelow := a.below
  have hsize := (le_blockBytes size).1
  have hlow := (ht.blocks.segment.between ht.blocks.rising ht.isBlock).1
  have hstart := hi.start
  have hptr : (x + 8).toNat = x.toNat + 8 := toNat_ptr (by unfold HeapArea.finish at hhigh; omega)
  refine ⟨?_, by omega, fun b hb => ?_⟩
  · rw [UInt32.le_iff_toNat_le]
    omega
  · obtain ⟨c, hc, hused, hb', hend⟩ := hi.live b hb
    obtain ⟨hin, hnext, -⟩ := ht.keeps c hc hused
    have hb₂ := (le_blockBytes b.2).1
    rw [← hnext] at hend
    rcases ht.blocks.segment.next_le ht.blocks.rising hin ht.isBlock with heq | hle | hle
    · exact absurd heq (ht.fresh c hc hused)
    · exact Or.inr (by omega)
    · rw [ht.next] at hle
      exact Or.inl (by omega)

theorem Taken.inv (hi : GuestInv a s l t) {l' : List UInt32} {t' krnlFree : UInt32}
    (ht : Taken a s.heap.mem mem' s.heap.krnlHeap l l' t' x n')
    (hn : n'.toNat = x.toNat + blockBytes size + 8) (hptr : (x + 8).toNat = x.toNat + 8) :
    GuestInv a { heap := { s.heap with mem := mem', krnlFree := krnlFree }
                 live := (x + 8, size) :: s.live } l' t' where
  start := hi.start
  blocks := ht.blocks
  bound _ := ht.bound
  live := by
    intro b hb
    rcases List.mem_cons.mp hb with rfl | hb
    · refine ⟨x, ht.isBlock, ht.used, hptr, ?_⟩
      show (x + 8).toNat + blockBytes size ≤ (Guest.next mem' x).toNat
      rw [ht.next, hptr]
      omega
    · exact hi.keeps ht.keeps hb
  nodup := by
    refine List.nodup_cons.mpr ⟨fun hin => ?_, hi.nodup⟩
    obtain ⟨b, hb, heq⟩ := List.mem_map.mp hin
    obtain ⟨c, hc, hused, hb', -⟩ := hi.live b hb
    refine ht.fresh c hc hused (UInt32.toNat_inj.mp ?_)
    have hsame : b.1.toNat = (x + 8).toNat := congrArg UInt32.toNat heq
    omega

/-- A call of `malloc` with an allowed request. -/
theorem GuestInv.malloc (hi : GuestInv a s l t) (hfuel : 2 ^ 32 ≤ fuel)
    (hallowed : Allowed a s.heap size) : ∃ r h', Guest.malloc fuel s.heap size = some (r, h') ∧
      (r = 0 ∨ InHeap a s r size) ∧ (r = 0 → ¬RunFits a s.heap size) ∧
      ∃ l' t', GuestInv a { heap := h', live := if r = 0 then s.live else (r, size) :: s.live }
        l' t' := by
  have hbelow := a.below
  have hstart := hi.start
  have hbytes := toNat_align4 hallowed.1
  have hsize := le_blockBytes size
  -- a block that is taken
  have htake : ∀ mem' x l' t' n', sweep (align4 size) fuel fuel s.heap.mem s.heap.krnlHeap
        s.heap.krnlHeap = some (mem', some x) →
      Taken a s.heap.mem (split mem' x (align4 size)) s.heap.krnlHeap l l' t' x n' →
      n'.toNat = x.toNat + blockBytes size + 8 → x.toNat + 8 + size.toNat ≤ a.finish →
      ∃ r h', Guest.malloc fuel s.heap size = some (r, h') ∧
        (r = 0 ∨ InHeap a s r size) ∧ (r = 0 → ¬RunFits a s.heap size) ∧
        ∃ l' t', GuestInv a { heap := h', live := if r = 0 then s.live else (r, size) :: s.live }
          l' t' := by
    intro mem' x l' t' n' hsweep htaken hn hhigh
    have hptr : (x + 8).toNat = x.toNat + 8 :=
      toNat_ptr (by unfold HeapArea.finish at hhigh; omega)
    have hne : x + 8 ≠ 0 := by
      intro hzero
      rw [hzero, UInt32.toNat_zero] at hptr
      omega
    refine ⟨x + 8, _, by rw [Guest.malloc, hsweep]; rfl, Or.inr (htaken.inHeap hi hn hhigh),
      fun hzero => absurd hzero hne, l', t', ?_⟩
    rw [if_neg hne]
    exact htaken.inv hi hn hptr
  rcases sweep_spec hi.blocks (by omega) hallowed.1 hfuel
      (hallowed.2 l t hi.blocks.toIsChain) with
    ⟨mem', x, hsweep, hrun⟩ | ⟨mem', x, hsweep, hlast, hhigh⟩ |
    ⟨mem', l', q, hsweep, hblocks, hkeeps, hfind, hq, hshort, hmarker⟩
  · have hne : l ≠ [] := by
      rintro rfl
      have hlast : s.heap.krnlHeap = t := hi.blocks.segment
      obtain ⟨before, behind, hblocks, -⟩ := hrun
      have hlength := hblocks.segment.length_le hblocks.rising
      rw [hlast, List.length_append, List.length_cons] at hlength
      omega
    obtain ⟨hn, hfit, l', htaken⟩ := hrun.taken hbytes (blockBytes_dvd size) (hi.bound hne)
    have := hi.bound hne
    exact htake mem' x l' t _ hsweep htaken hn (by omega)
  · obtain ⟨hn, l', htaken⟩ := hlast.taken (a := a) hbytes (blockBytes_dvd size) (by omega)
    exact htake mem' x l' _ _ hsweep htaken hn hhigh
  · refine ⟨0, _, by rw [Guest.malloc, hsweep]; rfl, Or.inl rfl,
      fun _ => not_runFits hi.blocks.toIsChain hfind hq hshort hmarker, l', t, ?_⟩
    rw [if_pos rfl]
    refine ⟨hi.start, hblocks, fun _ => hi.bound ?_, fun b hb => hi.keeps hkeeps hb, hi.nodup⟩
    rintro rfl
    cases hfind

/-- The links, the last block and the marks of the live blocks stay the same. -/
theorem GuestInv.frame (hi : GuestInv a s l t) {s' : GuestRun}
    (hheap : s'.heap.krnlHeap = s.heap.krnlHeap)
    (hlinks : ∀ c ∈ l, next s'.heap.mem c = next s.heap.mem c)
    (hlast : SameBlock s.heap.mem s'.heap.mem t) (hlive : s'.live.Sublist s.live)
    (hused : ∀ b ∈ s'.live, ∀ c ∈ l, b.1.toNat = c.toNat + 8 →
      isUsed s'.heap.mem c = isUsed s.heap.mem c) : GuestInv a s' l t := by
  have hblocks := hi.blocks
  refine ⟨by rw [hheap]; exact hi.start, ⟨⟨?_, ?_, ?_⟩, hblocks.aligned, hblocks.alignedLast, ?_,
    hblocks.top⟩, hi.bound, fun b hb => ?_, hi.nodup.sublist (hlive.map Prod.fst)⟩
  · rw [hheap]
    exact hblocks.segment.congr hlinks
  · exact hblocks.rising.congr hlinks
  · rw [hlast.next]
    exact hblocks.back
  · rw [hlast.used]
    exact hblocks.last
  · obtain ⟨c, hc, hmark, hptr, hend⟩ := hi.live b (hlive.subset hb)
    exact ⟨c, hc, (hused b hb c hc hptr).trans hmark, hptr, by rw [hlinks c hc]; exact hend⟩

/-- A call of `free` for a live pointer. -/
theorem GuestInv.free (hi : GuestInv a s l t) {i : Nat} {b : UInt32 × UInt32}
    (hb : s.live[i]? = some b) :
    GuestInv a { heap := Guest.free s.heap b.1, live := s.live.eraseIdx i } l t := by
  obtain ⟨c, hc, -, hptr, -⟩ := hi.live b (List.mem_of_getElem? hb)
  have hblocks := hi.blocks
  have hctop := hblocks.le_top hc
  have hc' : b.1 - 8 = c := by
    rw [← UInt32.toNat_inj, UInt32.toNat_sub, hptr]
    show (2 ^ 32 - 8 + (c.toNat + 8)) % 2 ^ 32 = _
    omega
  have hword := toNat_add_four hctop
  have hmem : (Guest.free s.heap b.1).mem =
      Function.update s.heap.mem (c + 4) (blockSize s.heap.mem c &&& ~~~1) := by
    rw [Guest.free, hc']
  have hsame : ∀ d, d.toNat + 8 ≤ 2 ^ 32 → c.toNat + 8 ≤ d.toNat ∨ d.toNat + 8 ≤ c.toNat →
      SameBlock s.heap.mem (Guest.free s.heap b.1).mem d := by
    intro d hd hapart
    rw [hmem]
    exact same_of_update hd (by omega)
  have hother : ∀ d ∈ l, d ≠ c → SameBlock s.heap.mem (Guest.free s.heap b.1).mem d := by
    intro d hd hne
    rcases hblocks.segment.apart hblocks.rising hc hd with heq | hapart
    · exact absurd heq.symm hne
    · exact hsame d (hblocks.le_top hd) hapart
  refine hi.frame rfl (fun d hd => ?_) (hsame t hblocks.top (Or.inl (hblocks.le_last hc)))
    (List.eraseIdx_sublist s.live i) fun b' hb' d hd hptr' => ?_
  · by_cases heq : d = c
    · rw [heq, hmem]
      exact Function.update_of_ne (fun heq => by rw [← heq] at hword; omega) ..
    · exact (hother d hd heq).next
  · -- another live pointer is that of another block
    obtain ⟨j, hji, hj⟩ := List.mem_eraseIdx_iff_getElem?.mp hb'
    refine (hother d hd ?_).used
    rintro rfl
    have hptrs : b'.1 = b.1 := UInt32.toNat_inj.mp (hptr'.trans hptr.symm)
    have hj' : (s.live.map Prod.fst)[j]? = some b.1 := by rw [List.getElem?_map, hj, ← hptrs]; rfl
    have hi' : (s.live.map Prod.fst)[i]? = some b.1 := by rw [List.getElem?_map, hb]; rfl
    have hin := (List.getElem?_eq_some_iff.mp hj').1
    exact hji ((List.getElem?_inj hin hi.nodup).mp (hj'.trans hi'.symm))

/-- A store to a live block. -/
theorem GuestInv.store (hi : GuestInv a s l t) {b : UInt32 × UInt32} (hb : b ∈ s.live)
    {offset value : UInt32} (hoffset : offset < b.2) :
    GuestInv a { s with heap := { s.heap with
      mem := Function.update s.heap.mem (b.1 + offset) value } } l t := by
  obtain ⟨c, hc, -, hptr, hend⟩ := hi.live b hb
  have hblocks := hi.blocks
  have hsize := (le_blockBytes b.2).1
  have hoffset' : offset.toNat < b.2.toNat := UInt32.lt_iff_toNat_lt.mp hoffset
  have hnext : (next s.heap.mem c).toNat ≤ t.toNat := by
    obtain ⟨before, behind, rfl⟩ := List.append_of_mem hc
    obtain ⟨m, -, hrest, -, hr⟩ := hblocks.split
    obtain rfl : m = c := hrest.1
    exact hrest.2.start_le fun x hx => hr x (List.mem_cons_of_mem _ hx)
  have htop := hblocks.top
  have hword : (b.1 + offset).toNat = c.toNat + 8 + offset.toNat := by
    rw [UInt32.toNat_add, hptr]
    exact Nat.mod_eq_of_lt (by omega)
  -- the word is behind the header of its block and in front of the next block
  have hsame : ∀ d, d.toNat + 8 ≤ 2 ^ 32 →
      d = c ∨ (next s.heap.mem c).toNat ≤ d.toNat ∨ d.toNat + 8 ≤ c.toNat →
      SameBlock s.heap.mem (Function.update s.heap.mem (b.1 + offset) value) d := by
    intro d hd hplace
    apply same_of_update hd
    rcases hplace with rfl | hbehind | hbefore
    · omega
    · omega
    · omega
  have hin : ∀ d ∈ l,
      SameBlock s.heap.mem (Function.update s.heap.mem (b.1 + offset) value) d := by
    intro d hd
    apply hsame d (hblocks.le_top hd)
    have hup := hblocks.rising d hd
    rcases hblocks.segment.next_le hblocks.rising hd hc with heq | hle | hle
    · exact Or.inl heq
    · exact Or.inr (Or.inr (by omega))
    · exact Or.inr (Or.inl hle)
  exact hi.frame rfl (fun d hd => (hin d hd).next) (hsame t htop (Or.inr (Or.inl hnext)))
    (List.Sublist.refl _) fun _ _ d hd _ => (hin d hd).used

/-! ### The heap after init_mem -/

/-- The marker is over the link of the first block. -/
theorem initMem_spec (a : HeapArea) (mem : Words) :
    (initMem a.start a.size mem).krnlHeap.toNat = a.start.toNat + 8 ∧
      next (initMem a.start a.size mem).mem (initMem a.start a.size mem).krnlHeap = 0 ∧
      isUsed (initMem a.start a.size mem).mem (initMem a.start a.size mem).krnlHeap = false := by
  have hbelow := a.below
  have haligned := a.aligned
  have hsum : (a.start + 8).toNat = a.start.toNat + 8 := by
    rw [UInt32.toNat_add]
    exact Nat.mod_eq_of_lt (by show a.start.toNat + 8 < 2 ^ 32; omega)
  have hheap : (initMem a.start a.size mem).krnlHeap.toNat = a.start.toNat + 8 := by
    have hmask :
        (initMem a.start a.size mem).krnlHeap.toNat = (a.start + 8).toNat / 2 ^ 2 * 2 ^ 2 :=
      toNat_and_not_low (x := a.start + 8) (m := 3) rfl
    omega
  generalize hp : (initMem a.start a.size mem).krnlHeap = p at hheap ⊢
  have hmem : (initMem a.start a.size mem).mem =
      setBlock (setBlock mem p (p + 4 - 8) (align4 ((a.size - 8) &&& 0xFFFFFFFC) - 8 - 8))
        (p + 4 - 8) 0 0 := by
    rw [← hp]
    rfl
  have hmarker : (p + 4 - 8).toNat = p.toNat - 4 := by
    rw [UInt32.toNat_sub, UInt32.toNat_add]
    show (2 ^ 32 - 8 + (p.toNat + 4) % 2 ^ 32) % 2 ^ 32 = _
    omega
  have hover : p + 4 - 8 + 4 = p := by
    rw [← UInt32.toNat_inj, toNat_add_four (by omega), hmarker]
    omega
  have hfour : (p + 4).toNat = p.toNat + 4 := toNat_add_four (by omega)
  refine ⟨hheap, ?_, ?_⟩
  · have hne : p ≠ p + 4 - 8 := fun heq => by
      rw [← heq] at hmarker
      omega
    rw [hmem, next, setBlock, Function.update_of_ne hne, hover, Function.update_self]
  · have hsize : blockSize (initMem a.start a.size mem).mem p =
        align4 ((a.size - 8) &&& 0xFFFFFFFC) - 8 - 8 := by
      have hmarkerNe : p + 4 ≠ p + 4 - 8 := fun heq => by
        rw [← heq] at hmarker
        omega
      have hlinkNe : p + 4 ≠ p := fun heq => by
        rw [heq] at hfour
        omega
      rw [hmem, blockSize, setBlock, Function.update_of_ne hmarkerNe, hover,
        Function.update_of_ne hlinkNe]
      exact blockSize_setBlock
    apply isUsed_eq_false
    rw [hsize, UInt32.toNat_sub, UInt32.toNat_sub, align4, toNat_shiftLeft (k := 2) rfl (by decide)]
    show 2 ∣ (2 ^ 32 - 8 + (2 ^ 32 - 8 + _) % 2 ^ 32) % 2 ^ 32
    omega

theorem guestInv_start (a : HeapArea) (mem : Words) :
    GuestInv a (guestStart a mem) [] (initMem a.start a.size mem).krnlHeap := by
  obtain ⟨hstart, hlink, hfree⟩ := initMem_spec a mem
  have hbelow := a.below
  have haligned := a.aligned
  refine ⟨hstart, ⟨⟨rfl, ?_, ?_⟩, ?_, by omega, hfree, by omega⟩, fun h => absurd rfl h, ?_,
    List.nodup_nil⟩
  · exact fun b hb => by cases hb
  · show (next (initMem a.start a.size mem).mem (initMem a.start a.size mem).krnlHeap).toNat < _
    rw [hlink, UInt32.toNat_zero]
    omega
  · exact fun b hb => by cases hb
  · exact fun b hb => by cases hb

/-! ### Runs -/

/-- A step that is allowed is safe and keeps the invariant. -/
theorem GuestInv.step (hi : GuestInv a s l t) (hfuel : 2 ^ 32 ≤ fuel) {e : GuestEvent}
    (hallowed : AllowedEvent a s e) :
    MallocSafe a fuel s e ∧ ∃ s', guestStep fuel s e = some s' ∧ ∃ l' t', GuestInv a s' l' t' := by
  cases e with
  | malloc size =>
    obtain ⟨r, h', hmalloc, hin, hfits, l', t', hinv⟩ := hi.malloc hfuel hallowed
    exact ⟨⟨r, h', hmalloc, hin, hfits⟩, _, by rw [guestStep, hmalloc]; rfl, l', t', hinv⟩
  | free i =>
    refine ⟨trivial, ?_⟩
    rw [guestStep]
    cases hb : s.live[i]? with
    | none => exact ⟨s, rfl, l, t, hi⟩
    | some b => exact ⟨_, rfl, l, t, hi.free hb⟩
  | store i offset value =>
    refine ⟨trivial, ?_⟩
    rw [guestStep]
    cases hb : s.live[i]? with
    | none => exact ⟨s, rfl, l, t, hi⟩
    | some b =>
      by_cases hword : 4 ∣ offset.toNat ∧ offset < b.2
      · exact ⟨_, if_pos hword, l, t, hi.store (List.mem_of_getElem? hb) hword.2⟩
      · exact ⟨s, if_neg hword, l, t, hi⟩

/-- In a run of allowed requests every call of `malloc` is safe. -/
theorem guestHeap_safe (a : HeapArea) (mem : Words) {fuel : Nat} (hfuel : 2 ^ 32 ≤ fuel)
    (es : List GuestEvent)
    (hallowed : Guarded (guestStep fuel) (AllowedEvent a) (guestStart a mem) es) :
    Guarded (guestStep fuel) (MallocSafe a fuel) (guestStart a mem) es := by
  have hstart : ∃ l t, GuestInv a (guestStart a mem) l t := ⟨[], _, guestInv_start a mem⟩
  refine guarded_of_guarded (I := fun s => ∃ l t, GuestInv a s l t) (fun s e hinv he => ?_) hstart
    hallowed
  obtain ⟨l, t, hi⟩ := hinv
  exact hi.step hfuel he

/-! ### Deciding what is allowed -/

/-- The chain from a block, if it has at most `n` blocks. -/
def chainFrom (mem : Words) : Nat → UInt32 → Option (List UInt32 × UInt32)
  | 0, _ => none
  | n + 1, p =>
    if p.toNat + 8 ≤ (next mem p).toNat then
      (chainFrom mem n (next mem p)).map fun c => (p :: c.1, c.2)
    else if (next mem p).toNat < p.toNat then some ([], p)
    else none

theorem chainFrom_eq_some : chainFrom mem n p = some (l, t) ↔ IsChain mem p l t ∧ l.length < n := by
  induction n generalizing p l with
  | zero => simp [chainFrom]
  | succ n ih =>
    rw [chainFrom]
    by_cases hup : p.toNat + 8 ≤ (next mem p).toNat
    · rw [if_pos hup, Option.map_eq_some_iff]
      constructor
      · rintro ⟨⟨l', t'⟩, hrest, heq⟩
        obtain ⟨rfl, rfl⟩ := Prod.mk.inj heq
        obtain ⟨hc, hlength⟩ := ih.mp hrest
        exact ⟨⟨⟨rfl, hc.segment⟩, List.forall_mem_cons.mpr ⟨hup, hc.rising⟩, hc.back⟩,
          Nat.succ_lt_succ hlength⟩
      · rintro ⟨hc, hlength⟩
        cases l with
        | nil =>
          obtain rfl : p = t := hc.segment
          have := hc.back
          omega
        | cons b l =>
          obtain ⟨rfl, hrest⟩ := hc.segment
          have hr := (List.forall_mem_cons.mp hc.rising).2
          exact ⟨(l, t), ih.mpr ⟨⟨hrest, hr, hc.back⟩, Nat.lt_of_succ_lt_succ hlength⟩, rfl⟩
    · rw [if_neg hup]
      have hnil : IsChain mem p l t → l = [] ∧ t = p := by
        intro hc
        cases l with
        | nil => exact ⟨rfl, hc.segment.symm⟩
        | cons b l =>
          obtain ⟨rfl, -⟩ := hc.segment
          exact absurd (hc.rising p List.mem_cons_self) hup
      constructor
      · intro hback
        rw [Option.ite_none_right_eq_some] at hback
        obtain ⟨rfl, rfl⟩ := Prod.mk.inj (Option.some.inj hback.2)
        exact ⟨⟨rfl, (fun b hb => by cases hb), hback.1⟩, Nat.succ_pos n⟩
      · rintro ⟨hc, -⟩
        obtain ⟨rfl, rfl⟩ := hnil hc
        exact if_pos hc.back

theorem isChain_iff : IsChain mem p l t ↔ chainFrom mem (2 ^ 29) p = some (l, t) := by
  refine ⟨fun hc => chainFrom_eq_some.mpr ⟨hc, ?_⟩, fun h => (chainFrom_eq_some.mp h).1⟩
  have hlength := hc.segment.length_le hc.rising
  have htop := t.toNat_lt
  omega

instance (a : HeapArea) (h : GuestHeap) (size : UInt32) : Decidable (Allowed a h size) :=
  decidable_of_iff (blockBytes size + 8 < 2 ^ 32 ∧ ∀ c ∈ chainFrom h.mem (2 ^ 29) h.krnlHeap,
      Served a h.mem size c.1 c.2 (findRun h.mem (blockBytes size + 16) none c.1)) <| by
    refine and_congr_right fun _ => ?_
    constructor
    · exact fun hall l t hc => hall (l, t) (isChain_iff.mp hc)
    · exact fun hall c hc => hall c.1 c.2 (isChain_iff.mpr hc)

instance (a : HeapArea) (s : GuestRun) : ∀ e, Decidable (AllowedEvent a s e)
  | .malloc size => inferInstanceAs (Decidable (Allowed a s.heap size))
  | .free _ => isTrue trivial
  | .store _ _ _ => isTrue trivial

/-- A heap of 16 KB. -/
def sampleArea : HeapArea where
  start := 0x80003000
  size := 0x4000
  aligned := by decide
  below := by decide

theorem guestHeap_safe_sample :
    Guarded (guestStep (2 ^ 32)) (MallocSafe sampleArea (2 ^ 32)) (guestStart sampleArea fun _ => 0)
      [.malloc 100, .malloc 50, .store 0 4 7, .malloc 20, .free 1, .malloc 24] :=
  guestHeap_safe sampleArea (fun _ => 0) (Nat.le_refl _) _ (by decide +kernel)

/-- A block that is freed again is not found, although the whole heap is free. -/
theorem freed_block_lost :
    ¬Guarded (guestStep (2 ^ 32)) (MallocSafe sampleArea (2 ^ 32))
      (guestStart sampleArea fun _ => 0)
      [.malloc 100, .free 0, .malloc 100] := by
  intro hsafe
  obtain ⟨s, hrun, hmalloc, hchain, hfirst, hlast⟩ :
      ∃ s ∈ run (guestStep (2 ^ 32)) (guestStart sampleArea fun _ => 0) [.malloc 100, .free 0],
        (malloc (2 ^ 32) s.heap 100).map Prod.fst = some 0 ∧
        chainFrom s.heap.mem (2 ^ 29) s.heap.krnlHeap = some ([0x80003008], 0x80003074) ∧
        isUsed s.heap.mem 0x80003008 = false ∧ isUsed s.heap.mem 0x80003074 = false := by
    decide +kernel
  obtain ⟨r, h, hcall, -, hfits⟩ := hsafe.after hrun rfl
  have hzero : r = 0 := by
    rw [hcall] at hmalloc
    exact Option.some.inj hmalloc
  refine hfits hzero ⟨_, _, isChain_iff.mpr hchain, [], 0x80003008, [0x80003074], [], rfl, ?_,
    by decide⟩
  exact List.forall_mem_cons.mpr ⟨hfirst, List.forall_mem_singleton.mpr hlast⟩

/-- With a link back and no used block the sweep does not end. -/
theorem malloc_hangs {s : GuestHeap} (hc : IsChain s.mem s.krnlHeap l t) (hheap : s.krnlHeap ≠ 0)
    (hlink : next s.mem t ∈ l) (hfree : ∀ b ∈ l ++ [t], isUsed s.mem b = false) (fuel : Nat) :
    malloc fuel s size = none := by
  have hstays : ∀ b, b ∈ l ++ [t] → next s.mem b ≠ 0 ∧ next s.mem b ∈ l ++ [t] := by
    intro b hb
    rcases List.mem_append.mp hb with hin | hin
    · exact ⟨next_ne_zero (hc.rising b hin), by simpa using hc.segment.next_mem hin⟩
    · rw [List.mem_singleton.mp hin]
      refine ⟨fun hzero => ?_, List.mem_append_left _ hlink⟩
      have hlow := (hc.segment.between hc.rising hlink).1
      rw [hzero, UInt32.toNat_zero, Nat.le_zero] at hlow
      exact hheap (UInt32.toNat_inj.mp hlow)
  have hstart : s.krnlHeap ∈ l ++ [t] := by
    cases l with
    | nil => cases hlink
    | cons b l => simp [hc.segment.1]
  have hskip : skipFree s.mem fuel s.krnlHeap = none := by
    refine whileLoop_eq_none (P := (· ∈ l ++ [t])) (fun b hb => ?_) hstart fuel
    obtain ⟨hne, hin⟩ := hstays b hb
    exact ⟨by simp [hfree b hb, hne], hin⟩
  cases fuel with
  | zero => rfl
  | succ n =>
    have hused : skipUsed s.mem (n + 1) s.krnlHeap s.krnlHeap = some (s.krnlHeap, s.krnlHeap) := by
      rw [skipUsed, whileLoop, hfree _ hstart, if_neg Bool.false_ne_true]
    have hsweep : sweep (align4 size) (n + 1) (n + 1) s.mem s.krnlHeap s.krnlHeap = none := by
      rw [sweep, if_neg (hstays _ hstart).1, hused]
      show (skipFree s.mem (n + 1) s.krnlHeap).bind _ = none
      rw [hskip]
      rfl
    rw [malloc, hsweep]
    rfl

end PrplHypervisor.Guest
