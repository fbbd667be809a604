import Mathlib.Data.List.Basic
import Mathlib.Data.List.TakeDrop

/-! Segments of a linked list, and the loop that follows one.  `Segment next a l b` says that `next`
leads from `a` past the elements of `l` to `b`.  A loop is given a number of passes, and has no
result when they do not suffice. -/

namespace Lib.LinkedList

variable {α : Type*} {next next' : α → α} {a b b' c x : α} {l l' : List α}

/-- `while (cond) body`, with at most `n` passes. -/
def whileLoop (cond : α → Bool) (body : α → α) : Nat → α → Option α
  | 0, _ => none
  | n + 1, s => if cond s then whileLoop cond body n (body s) else some s

/-- Following `next` from `a` passes the elements of the list, and is then at `b`. -/
def Segment (next : α → α) : α → List α → α → Prop
  | a, [], b => a = b
  | a, c :: l, b => a = c ∧ Segment next (next a) l b

@[simp] theorem segment_nil : Segment next a [] b ↔ a = b := Iff.rfl

theorem segment_cons : Segment next a (c :: l) b ↔ a = c ∧ Segment next (next a) l b := Iff.rfl

theorem segment_append :
    Segment next a (l ++ l') b ↔ ∃ m, Segment next a l m ∧ Segment next m l' b := by
  induction l generalizing a with
  | nil => exact ⟨fun h => ⟨a, rfl, h⟩, fun ⟨m, hm, h⟩ => hm ▸ h⟩
  | cons c l ih => simp only [List.cons_append, segment_cons, ih, and_assoc, exists_and_left]

theorem Segment.append {m : α} (h : Segment next a l m) (h' : Segment next m l' b) :
    Segment next a (l ++ l') b :=
  segment_append.mpr ⟨m, h, h'⟩

theorem Segment.next_mem (h : Segment next a l b) (hx : x ∈ l) : next x ∈ l ∨ next x = b := by
  induction l generalizing a with
  | nil => cases hx
  | cons c l ih =>
    obtain ⟨rfl, hrest⟩ := h
    rcases List.mem_cons.mp hx with rfl | hin
    · cases l with
      | nil => exact Or.inr hrest
      | cons d l => exact Or.inl (by rw [hrest.1]; simp)
    · exact (ih hrest hin).imp (List.mem_cons_of_mem _) id

/-- A segment is that of any links that agree on its elements. -/
theorem Segment.congr (h : Segment next a l b) (hnext : ∀ x ∈ l, next' x = next x) :
    Segment next' a l b := by
  induction l generalizing a with
  | nil => exact h
  | cons c l ih =>
    obtain ⟨rfl, hrest⟩ := h
    refine ⟨rfl, ?_⟩
    rw [hnext a List.mem_cons_self]
    exact ih hrest fun x hx => hnext x (List.mem_cons_of_mem _ hx)

/-- There is one segment of elements with a property up to one without it. -/
theorem Segment.unique {p : α → Prop} (h : Segment next a l b) (h' : Segment next a l' b')
    (hl : ∀ x ∈ l, p x) (hl' : ∀ x ∈ l', p x) (hb : ¬p b) (hb' : ¬p b') : l = l' ∧ b = b' := by
  induction l generalizing a l' with
  | nil =>
    obtain rfl := h
    cases l' with
    | nil => exact ⟨rfl, h'⟩
    | cons c l' =>
      obtain ⟨rfl, -⟩ := h'
      exact absurd (hl' a List.mem_cons_self) hb
  | cons c l ih =>
    obtain ⟨rfl, hrest⟩ := h
    cases l' with
    | nil =>
      obtain rfl := h'
      exact absurd (hl a List.mem_cons_self) hb'
    | cons d l' =>
      obtain ⟨rfl, hrest'⟩ := h'
      obtain ⟨rfl, hend⟩ := ih hrest hrest' (fun x hx => hl x (List.mem_cons_of_mem _ hx))
        fun x hx => hl' x (List.mem_cons_of_mem _ hx)
      exact ⟨rfl, hend⟩

theorem whileLoop_segment {cond : α → Bool} (h : Segment next a l b) (hl : ∀ x ∈ l, cond x)
    (hb : cond b = false) {n : Nat} (hn : l.length < n) : whileLoop cond next n a = some b := by
  induction l generalizing a n with
  | nil =>
    obtain rfl := h
    obtain ⟨n, rfl⟩ := Nat.exists_eq_add_one_of_ne_zero (Nat.ne_of_gt hn)
    rw [whileLoop, hb, if_neg Bool.false_ne_true]
  | cons c l ih =>
    obtain ⟨rfl, hrest⟩ := h
    obtain ⟨n, rfl⟩ := Nat.exists_eq_add_one_of_ne_zero (Nat.ne_of_gt (Nat.zero_lt_of_lt hn))
    rw [whileLoop, hl a List.mem_cons_self, if_pos rfl]
    exact ih hrest (fun x hx => hl x (List.mem_cons_of_mem _ hx)) (Nat.lt_of_succ_lt_succ hn)

/-- A loop whose condition holds in `k` passes, and not in the next. -/
theorem whileLoop_iterate {cond : α → Bool} {body : α → α} {k n : Nat}
    (hcond : ∀ i ≤ k, cond (body^[i] a) = decide (i < k)) (hn : k < n) :
    whileLoop cond body n a = some (body^[k] a) := by
  induction k generalizing a n with
  | zero =>
    obtain ⟨n, rfl⟩ := Nat.exists_eq_add_one_of_ne_zero (Nat.ne_of_gt hn)
    have h0 : cond a = false := hcond 0 (Nat.le_refl 0)
    rw [whileLoop, h0, if_neg Bool.false_ne_true, Function.iterate_zero_apply]
  | succ k ih =>
    obtain ⟨n, rfl⟩ := Nat.exists_eq_add_one_of_ne_zero (Nat.ne_of_gt (Nat.zero_lt_of_lt hn))
    have h0 : cond a = true := hcond 0 (Nat.zero_le _)
    rw [whileLoop, h0, if_pos rfl, Function.iterate_succ_apply]
    refine ih (fun i hi => ?_) (Nat.lt_of_succ_lt_succ hn)
    rw [← Function.iterate_succ_apply, hcond (i + 1) (Nat.succ_le_succ hi)]
    exact decide_eq_decide.mpr Nat.succ_lt_succ_iff

/-- A loop that stays where its condition holds does not end. -/
theorem whileLoop_eq_none {cond : α → Bool} {body : α → α} {P : α → Prop}
    (hstays : ∀ x, P x → cond x = true ∧ P (body x)) (ha : P a) (n : Nat) :
    whileLoop cond body n a = none := by
  induction n generalizing a with
  | zero => rfl
  | succ n ih =>
    rw [whileLoop, (hstays a ha).1, if_pos rfl]
    exact ih (hstays a ha).2

/-! ### Links that go up -/

/-- Each element of the list is at least `gap` below the one that it links to. -/
def Rising (next : α → α) (addr : α → Nat) (gap : Nat) (l : List α) : Prop :=
  ∀ x ∈ l, addr x + gap ≤ addr (next x)

variable {addr : α → Nat} {gap : Nat}

theorem Rising.congr (h : Rising next addr gap l) (hnext : ∀ x ∈ l, next' x = next x) :
    Rising next' addr gap l := by
  intro x hx
  rw [hnext x hx]
  exact h x hx

theorem rising_append :
    Rising next addr gap (l ++ l') ↔ Rising next addr gap l ∧ Rising next addr gap l' :=
  List.forall_mem_append

theorem Segment.length_le (h : Segment next a l b) (hr : Rising next addr gap l) :
    addr a + gap * l.length ≤ addr b := by
  induction l generalizing a with
  | nil =>
    obtain rfl := h
    exact Nat.le_refl _
  | cons c l ih =>
    obtain ⟨rfl, hrest⟩ := h
    have hfirst := hr a List.mem_cons_self
    have htail := ih hrest fun x hx => hr x (List.mem_cons_of_mem _ hx)
    rw [List.length_cons, Nat.mul_succ]
    omega

theorem Segment.start_le (h : Segment next a l b) (hr : Rising next addr gap l) :
    addr a ≤ addr b :=
  Nat.le_of_add_right_le (h.length_le hr)

/-- The elements of a segment lie between its ends. -/
theorem Segment.between (h : Segment next a l b) (hr : Rising next addr gap l) (hx : x ∈ l) :
    addr a ≤ addr x ∧ addr x + gap ≤ addr b := by
  obtain ⟨l₁, l₂, rfl⟩ := List.append_of_mem hx
  obtain ⟨m, hfirst, rfl, hrest⟩ := segment_append.mp h
  obtain ⟨hr₁, hr₂⟩ := rising_append.mp hr
  have hup := hr₂ m List.mem_cons_self
  have hend := hrest.start_le fun y hy => hr₂ y (List.mem_cons_of_mem _ hy)
  exact ⟨hfirst.start_le hr₁, Nat.le_trans hup hend⟩

theorem Segment.pairwise (h : Segment next a l b) (hr : Rising next addr gap l) :
    l.Pairwise fun x y => addr x ≤ addr y := by
  induction l generalizing a with
  | nil => exact List.Pairwise.nil
  | cons c l ih =>
    obtain ⟨rfl, hrest⟩ := h
    have hr' : Rising next addr gap l := fun x hx => hr x (List.mem_cons_of_mem _ hx)
    have hup := hr a List.mem_cons_self
    refine List.pairwise_cons.mpr ⟨fun y hy => ?_, ih hrest hr'⟩
    have hlow := (hrest.between hr' hy).1
    omega

/-- Of two elements one links to the other or to one in front of it. -/
theorem Segment.next_le (h : Segment next a l b) (hr : Rising next addr gap l) (hx : x ∈ l)
    (hc : c ∈ l) : x = c ∨ addr (next x) ≤ addr c ∨ addr (next c) ≤ addr x := by
  obtain ⟨l₁, l₂, rfl⟩ := List.append_of_mem hx
  obtain ⟨m, hfirst, rfl, hrest⟩ := segment_append.mp h
  obtain ⟨hr₁, hr₂⟩ := rising_append.mp hr
  rcases List.mem_append.mp hc with hc | hc
  · obtain ⟨k₁, k₂, rfl⟩ := List.append_of_mem hc
    obtain ⟨d, -, rfl, hlast⟩ := segment_append.mp hfirst
    have hr₁' := (rising_append.mp hr₁).2
    exact Or.inr (Or.inr (hlast.start_le fun y hy => hr₁' y (List.mem_cons_of_mem _ hy)))
  · rcases List.mem_cons.mp hc with rfl | hc
    · exact Or.inl rfl
    · exact Or.inr (Or.inl
        (hrest.between (fun y hy => hr₂ y (List.mem_cons_of_mem _ hy)) hc).1)

/-- Two elements are the same or `gap` apart. -/
theorem Segment.apart (h : Segment next a l b) (hr : Rising next addr gap l) (hx : x ∈ l)
    (hc : c ∈ l) : x = c ∨ addr x + gap ≤ addr c ∨ addr c + gap ≤ addr x := by
  rcases h.next_le hr hx hc with heq | hle | hle
  · exact Or.inl heq
  · exact Or.inr (Or.inl (Nat.le_trans (hr x hx) hle))
  · exact Or.inr (Or.inr (Nat.le_trans (hr c hc) hle))

end Lib.LinkedList
