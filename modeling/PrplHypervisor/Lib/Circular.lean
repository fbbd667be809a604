import Mathlib.Data.List.Rotate
import Mathlib.Order.Interval.Set.Basic
import Mathlib.Data.List.Perm.Subperm
import Mathlib.Tactic.Tauto

/-! Circular linked lists.  `LinkRing next l` says that `next` leads from each element of `l` to the
one behind it and from the last one to the first.  A ring whose elements increase but for one place
has one gap for every new element, and the element is linked in behind the one before the gap. -/

namespace Lib.Circular

variable {α : Type*} {next next' : α → α} {a b c x : α} {l l' t s : List α}

/-- Following `next` from `a` passes the elements of the list and then reaches `b`. -/
def LinkPath (next : α → α) : α → List α → α → Prop
  | a, [], b => next a = b
  | a, c :: l, b => next a = c ∧ LinkPath next c l b

/-- The elements of the list form a circle under `next`. -/
def LinkRing (next : α → α) : List α → Prop
  | [] => False
  | a :: l => LinkPath next a l a

theorem path_append :
    LinkPath next a (l ++ c :: t) b ↔ LinkPath next a l c ∧ LinkPath next c t b := by
  induction l generalizing a with
  | nil => exact Iff.rfl
  | cons d l ih => simp only [List.cons_append, LinkPath, ih, and_assoc]

theorem LinkPath.congr (h : LinkPath next a l b) (hnext : ∀ x ∈ a :: l, next' x = next x) :
    LinkPath next' a l b := by
  induction l generalizing a with
  | nil => exact (hnext a List.mem_cons_self).trans h
  | cons c l ih =>
    exact ⟨(hnext a List.mem_cons_self).trans h.1,
      ih h.2 fun x hx => hnext x (List.mem_cons_of_mem _ hx)⟩

theorem LinkPath.start (h : LinkPath next c l b) (hstart : next' a = next c)
    (hnext : ∀ x ∈ l, next' x = next x) : LinkPath next' a l b := by
  cases l with
  | nil => exact hstart.trans h
  | cons d l => exact ⟨hstart.trans h.1, h.2.congr hnext⟩

theorem LinkPath.mem_next (h : LinkPath next a l b) (hx : x ∈ a :: l) : next x ∈ b :: l := by
  induction l generalizing a with
  | nil =>
    obtain rfl := List.mem_singleton.mp hx
    exact h ▸ List.mem_cons_self
  | cons c l ih =>
    rcases List.mem_cons.mp hx with rfl | hx
    · exact h.1 ▸ List.mem_cons_of_mem _ List.mem_cons_self
    · rcases List.mem_cons.mp (ih h.2 hx) with heq | hmem
      · exact heq ▸ List.mem_cons_self
      · exact List.mem_cons_of_mem _ (List.mem_cons_of_mem _ hmem)

theorem LinkPath.exists_iterate (h : LinkPath next a l b) (hx : x ∈ a :: l) :
    ∃ k, next^[k] a = x := by
  induction l generalizing a with
  | nil =>
    obtain rfl := List.mem_singleton.mp hx
    exact ⟨0, rfl⟩
  | cons c l ih =>
    rcases List.mem_cons.mp hx with rfl | hx
    · exact ⟨0, rfl⟩
    · obtain ⟨k, hk⟩ := ih h.2 hx
      exact ⟨k + 1, by rw [Function.iterate_succ_apply, h.1, hk]⟩

/-- Two lists that are rotations of each other are the two orders of two parts. -/
theorem isRotated_parts (h : s ~r l) : ∃ lo hi, s = lo ++ hi ∧ l = hi ++ lo := by
  obtain ⟨k, hk, rfl⟩ := List.isRotated_iff_mod.mp h
  exact ⟨s.take k, s.drop k, (List.take_append_drop k s).symm, List.rotate_eq_drop_append_take hk⟩

theorem LinkRing.isRotated (h : LinkRing next s) (hr : s ~r l) : LinkRing next l := by
  obtain ⟨lo, hi, rfl, rfl⟩ := isRotated_parts hr
  cases lo with
  | nil => simpa using h
  | cons a lo =>
    cases hi with
    | nil => simpa using h
    | cons c hi =>
      obtain ⟨hlo, hhi⟩ := path_append.mp h
      exact path_append.mpr ⟨hhi, hlo⟩

theorem isRotated_cons_of_mem (h : a ∈ l) : ∃ t, l ~r a :: t := by
  obtain ⟨pre, post, rfl⟩ := List.append_of_mem h
  exact ⟨post ++ pre, List.isRotated_append⟩

/-- The elements of a ring are those that can be reached from any of them. -/
theorem LinkRing.mem_iff (h : LinkRing next l) (ha : a ∈ l) : b ∈ l ↔ ∃ k, next^[k] a = b := by
  obtain ⟨t, ht⟩ := isRotated_cons_of_mem ha
  have hpath : LinkPath next a t a := h.isRotated ht
  constructor
  · exact fun hb => hpath.exists_iterate (ht.mem_iff.mp hb)
  · rintro ⟨k, rfl⟩
    rw [ht.mem_iff]
    induction k with
    | zero => exact List.mem_cons_self
    | succ k ih =>
      rw [Function.iterate_succ_apply']
      exact hpath.mem_next ih

theorem isRotated_filter (p : α → Bool) (h : s ~r l) : s.filter p ~r l.filter p := by
  obtain ⟨lo, hi, rfl, rfl⟩ := isRotated_parts h
  rw [List.filter_append, List.filter_append]
  exact List.isRotated_append

variable [LinearOrder α]

/-- In an increasing ring, `x` belongs behind `a`, whose successor is `b`: between the two, or at
the place where the ring starts over. -/
def Between (a b x : α) : Prop := (a < x ∧ x < b) ∨ (b ≤ a ∧ (a < x ∨ x < b))

/-- The list increases but for one place. -/
def Increasing (l : List α) : Prop := ∃ s, s.Pairwise (· < ·) ∧ s ~r l

theorem Increasing.nodup (h : Increasing l) : l.Nodup := by
  obtain ⟨s, hs, hr⟩ := h
  exact hr.nodup_iff.mp (hs.imp ne_of_lt)

theorem Increasing.isRotated (h : Increasing l) (hr : l ~r l') : Increasing l' := by
  obtain ⟨s, hs, hsl⟩ := h
  exact ⟨s, hs, hsl.trans hr⟩

theorem Increasing.filter (h : Increasing l) (p : α → Bool) : Increasing (l.filter p) := by
  obtain ⟨s, hs, hr⟩ := h
  exact ⟨s.filter p, hs.filter p, isRotated_filter p hr⟩

theorem Increasing.remove (h : Increasing (a :: b :: t)) : Increasing (a :: t) := by
  have hnodup := h.nodup
  have hne : a ≠ b := fun heq => (List.nodup_cons.mp hnodup).1 (heq ▸ List.mem_cons_self)
  have hb : b ∉ t := (List.nodup_cons.mp (List.nodup_cons.mp hnodup).2).1
  have hfilter := h.filter fun x => x ≠ b
  have htail : t.filter (fun x => decide (x ≠ b)) = t :=
    List.filter_eq_self.mpr fun x hx => decide_eq_true fun heq => hb (heq ▸ hx)
  rwa [List.filter_cons_of_pos (by simpa using hne), List.filter_cons_of_neg (by simp), htail]
    at hfilter

/-- The increasing order of a ring, seen from one of its elements. -/
theorem Increasing.parts (h : Increasing (a :: t)) :
    ∃ lo hi, (lo ++ a :: hi).Pairwise (· < ·) ∧ t = hi ++ lo := by
  obtain ⟨s, hs, hr⟩ := h
  obtain ⟨lo, hi, rfl, hsplit⟩ := isRotated_parts hr
  cases hi with
  | nil =>
    obtain rfl : a :: t = lo := hsplit
    exact ⟨[], t, by simpa using hs, by simp⟩
  | cons d hi =>
    obtain ⟨rfl, rfl⟩ := List.cons.inj hsplit
    exact ⟨lo, hi, hs, rfl⟩

/-- No element of the ring belongs behind `a`. -/
theorem Increasing.not_between (h : Increasing (a :: t)) (hring : LinkRing next (a :: t))
    (hc : c ∈ a :: t) : ¬Between a (next a) c := by
  obtain ⟨lo, hi, hs, rfl⟩ := h.parts
  obtain ⟨hlo, hhi, hcross⟩ := List.pairwise_append.mp hs
  have hloa : ∀ d ∈ lo, d < a := fun d hd => hcross d hd a List.mem_cons_self
  have hle : ∀ {d l}, (d :: l : List α).Pairwise (· < ·) → ∀ e ∈ d :: l, d ≤ e := by
    intro d l hdl e he
    rcases List.mem_cons.mp he with rfl | he
    · exact le_refl e
    · exact ((List.pairwise_cons.mp hdl).1 e he).le
  cases hi with
  | nil =>
    -- `a` is the largest element, and the next one the smallest
    have hca : c ≤ a := by
      rcases List.mem_cons.mp hc with rfl | hc
      · exact le_refl c
      · exact (hloa c hc).le
    have hnext : next a ≤ a ∧ next a ≤ c := by
      cases lo with
      | nil =>
        have hself : next a = a := hring
        rw [List.mem_singleton.mp hc, hself]
        exact ⟨le_refl a, le_refl a⟩
      | cons d lo =>
        have hd : next a = d := hring.1
        have hda : d < a := hloa d List.mem_cons_self
        rw [hd]
        refine ⟨hda.le, ?_⟩
        rcases List.mem_cons.mp hc with rfl | hc
        · exact hda.le
        · exact hle hlo c hc
    rintro (⟨hac, -⟩ | ⟨-, hac | hcn⟩)
    · exact absurd hac (not_lt.mpr hca)
    · exact absurd hac (not_lt.mpr hca)
    · exact absurd hcn (not_lt.mpr hnext.2)
  | cons n hi =>
    obtain ⟨han, hn⟩ := List.pairwise_cons.mp hhi
    have hnext : next a = n := hring.1
    rw [hnext]
    rintro (⟨hac, hcn⟩ | ⟨hna, -⟩)
    · rcases List.mem_cons.mp hc with rfl | hc
      · exact lt_irrefl c hac
      · rcases List.mem_append.mp hc with hc | hc
        · exact absurd hcn (not_lt.mpr (hle hn c hc))
        · exact absurd hac (not_lt.mpr (hloa c hc).le)
    · exact absurd hna (not_le.mpr (han n List.mem_cons_self))

/-- The elements below one that belongs behind `a` are not above `a`. -/
theorem Increasing.le_of_lt (h : Increasing (a :: t)) (hring : LinkRing next (a :: t))
    (hx : Between a (next a) x) (hc : c ∈ a :: t) (hcx : c < x) : c ≤ a := by
  by_contra hac
  apply h.not_between hring hc
  rcases hx with ⟨-, hxn⟩ | ⟨hna, -⟩
  · exact Or.inl ⟨not_le.mp hac, hcx.trans hxn⟩
  · exact Or.inr ⟨hna, Or.inl (not_le.mp hac)⟩

/-- Those above it are not below the next one. -/
theorem Increasing.next_le_of_lt (h : Increasing (a :: t)) (hring : LinkRing next (a :: t))
    (hx : Between a (next a) x) (hc : c ∈ a :: t) (hxc : x < c) : next a ≤ c := by
  by_contra hcn
  apply h.not_between hring hc
  rcases hx with ⟨hax, -⟩ | ⟨hna, -⟩
  · exact Or.inl ⟨hax.trans hxc, not_le.mp hcn⟩
  · exact Or.inr ⟨hna, Or.inr (not_le.mp hcn)⟩

/-- A new element goes behind the element before its gap. -/
theorem Increasing.insert (h : Increasing (a :: t)) (hx : Between a ((t ++ [a]).head (by simp)) x) :
    Increasing (a :: x :: t) := by
  obtain ⟨lo, hi, hs, rfl⟩ := h.parts
  obtain ⟨hlo, hhi, hcross⟩ := List.pairwise_append.mp hs
  obtain ⟨ha, hhi⟩ := List.pairwise_cons.mp hhi
  have hloa : ∀ d ∈ lo, d < a := fun d hd => hcross d hd a List.mem_cons_self
  cases hi with
  | cons n hi =>
    have han : a < n := ha n List.mem_cons_self
    rcases hx with ⟨hax, hxn⟩ | ⟨hna, _⟩
    · refine ⟨lo ++ a :: x :: n :: hi, ?_, List.isRotated_append⟩
      have hnhi := List.pairwise_cons.mp hhi
      have hxhi : ∀ d ∈ n :: hi, x < d := by
        intro d hd
        rcases List.mem_cons.mp hd with rfl | hd
        · exact hxn
        · exact hxn.trans (hnhi.1 d hd)
      rw [List.pairwise_append]
      refine ⟨hlo, List.pairwise_cons.mpr ⟨?_, List.pairwise_cons.mpr ⟨hxhi, hhi⟩⟩, ?_⟩
      · intro d hd
        rcases List.mem_cons.mp hd with rfl | hd
        · exact hax
        · exact hax.trans (hxhi d hd)
      · intro d hd e he
        rcases List.mem_cons.mp he with rfl | he
        · exact hloa d hd
        · rcases List.mem_cons.mp he with rfl | he
          · exact (hloa d hd).trans hax
          · exact ((hloa d hd).trans hax).trans (hxhi e he)
    · exact absurd hna (not_le.mpr han)
  | nil =>
    -- `a` is the largest element, so the new one goes behind it or before all others
    have hmin : ∀ d ∈ lo ++ [a], (lo ++ [a]).head (by simp) ≤ d := by
      intro d hd
      cases lo with
      | nil => exact (List.mem_singleton.mp hd) ▸ le_refl _
      | cons e lo =>
        rcases List.mem_cons.mp hd with rfl | hd
        · exact le_refl _
        · exact (List.rel_of_pairwise_cons hs hd).le
    have hxa : a < x ∨ x < (lo ++ [a]).head (by simp) := by
      rcases hx with ⟨hax, _⟩ | ⟨_, hor⟩
      · exact Or.inl hax
      · exact hor
    rcases hxa with hax | hxlo
    · refine ⟨lo ++ [a, x], ?_, List.isRotated_append⟩
      rw [List.pairwise_append]
      refine ⟨hlo, by simpa using hax, ?_⟩
      intro d hd e he
      simp only [List.mem_cons, List.not_mem_nil, or_false] at he
      rcases he with rfl | rfl
      · exact hloa d hd
      · exact (hloa d hd).trans hax
    · refine ⟨x :: (lo ++ [a]), ?_, ?_⟩
      · exact List.pairwise_cons.mpr ⟨fun d hd => hxlo.trans_le (hmin d hd), hs⟩
      · have hrot : (x :: lo) ++ [a] ~r [a] ++ (x :: lo) := List.isRotated_append
        simpa using hrot

/-- Behind the elements above `x` comes the place where the ring starts over. -/
theorem exists_wrap (hpath : LinkPath next a l b) (hs : (a :: l).Pairwise (· < ·)) (hb : b ≤ a)
    (hx : a < x ∨ x < b) (hl : ∀ c ∈ l, a < x → x ≠ c) :
    ∃ c ∈ a :: l, Between c (next c) x := by
  induction l generalizing a with
  | nil => exact ⟨a, List.mem_cons_self, Or.inr ⟨hpath.symm ▸ hb, hpath.symm ▸ hx⟩⟩
  | cons d l ih =>
    obtain ⟨hda, hs'⟩ := List.pairwise_cons.mp hs
    have had : a < d := hda d List.mem_cons_self
    have hrest : (d < x ∨ x < b) →
        ∃ c ∈ a :: d :: l, Between c (next c) x := by
      intro h
      obtain ⟨c, hc, hbetween⟩ := ih hpath.2 hs' (hb.trans had.le) h
        fun c hc hdx => hl c (List.mem_cons_of_mem _ hc) (had.trans hdx)
      exact ⟨c, List.mem_cons_of_mem _ hc, hbetween⟩
    rcases hx with hax | hxb
    · rcases lt_trichotomy x d with hxd | heq | hdx
      · exact ⟨a, List.mem_cons_self, Or.inl ⟨hax, hpath.1.symm ▸ hxd⟩⟩
      · exact absurd heq (hl d List.mem_cons_self hax)
      · exact hrest (Or.inl hdx)
    · exact hrest (Or.inr hxb)

/-- Every element that is not in an increasing ring has a gap in it. -/
theorem Increasing.exists_between (h : Increasing l) (hring : LinkRing next l) (hx : x ∉ l) :
    ∃ a ∈ l, Between a (next a) x := by
  obtain ⟨s, hs, hr⟩ := h
  have hring' : LinkRing next s := hring.isRotated hr.symm
  have hx' : x ∉ s := fun hmem => hx (hr.mem_iff.mp hmem)
  cases s with
  | nil => exact absurd hring' id
  | cons a t =>
    have hne : x ≠ a := fun heq => hx' (heq ▸ List.mem_cons_self)
    obtain ⟨c, hc, hbetween⟩ := exists_wrap hring' hs (le_refl a) (lt_or_gt_of_ne hne.symm)
      fun c hc _ heq => hx' (heq ▸ List.mem_cons_of_mem _ hc)
    exact ⟨c, hr.mem_iff.mp hc, hbetween⟩

end Lib.Circular
