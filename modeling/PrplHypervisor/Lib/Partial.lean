import Mathlib.Data.List.Forall2
import Mathlib.Data.List.Induction

/-! Computations that may fail, over lists: what their success says about each element. -/

namespace Lib.Partial

universe u v

variable {ε : Type u} {α β σ : Type v}

theorem bind_ok {x : Except ε α} {f : α → Except ε β} {b : β} :
    (x >>= f) = .ok b ↔ ∃ a, x = .ok a ∧ f a = .ok b := by
  cases x with
  | error e =>
    constructor
    · intro h
      cases h
    · rintro ⟨a, ha, _⟩
      cases ha
  | ok a =>
    constructor
    · exact fun h => ⟨a, rfl, h⟩
    · rintro ⟨_, ha, h⟩
      cases ha
      exact h

theorem map_ok {x : Except ε α} {f : α → β} {b : β} (h : f <$> x = .ok b) :
    ∃ a, x = .ok a ∧ f a = b := by
  cases x with
  | error e => cases h
  | ok a =>
    cases h
    exact ⟨a, rfl, rfl⟩

theorem ok_of_toOption {x : Except ε α} {a : α} (h : x.toOption = some a) : x = .ok a := by
  cases x with
  | error e => cases h
  | ok b =>
    cases h
    rfl

theorem mapM_ok {f : α → Except ε β} {l : List α} {l' : List β} (h : l.mapM f = .ok l') :
    List.Forall₂ (fun a b => f a = .ok b) l l' := by
  induction l generalizing l' with
  | nil =>
    rw [List.mapM_nil] at h
    cases h
    exact .nil
  | cons a l ih =>
    rw [List.mapM_cons] at h
    obtain ⟨b, hb, h⟩ := bind_ok.mp h
    obtain ⟨m, hm, h⟩ := bind_ok.mp h
    cases h
    exact .cons hb (ih hm)

theorem mapM_eq_ok {f : α → Except ε α} {l : List α} (h : ∀ a ∈ l, f a = .ok a) :
    l.mapM f = .ok l := by
  induction l with
  | nil => rfl
  | cons a l ih =>
    rw [List.mapM_cons, h a List.mem_cons_self, ih fun b hb => h b (List.mem_cons_of_mem a hb)]
    rfl

theorem mapM_range_eq_ok {f : Nat → Except ε α} {l : List α}
    (h : ∀ i (hi : i < l.length), f i = .ok l[i]) : (List.range l.length).mapM f = .ok l := by
  induction l using List.reverseRecOn with
  | nil => rfl
  | append_singleton l a ih =>
    have hinit : ∀ i (hi : i < l.length), f i = .ok l[i] := by
      intro i hi
      rw [h i (by simp; omega), List.getElem_append_left hi]
    have hlast : f l.length = .ok a := by
      rw [h l.length (by simp), List.getElem_concat_length rfl]
    rw [List.length_append, List.length_singleton, List.range_succ, List.mapM_append, ih hinit,
      List.mapM_cons, hlast]
    rfl

theorem mapM_some {f : α → Option β} {l : List α} {l' : List β} (h : l.mapM f = some l') :
    List.Forall₂ (fun a b => f a = some b) l l' := by
  induction l generalizing l' with
  | nil =>
    rw [List.mapM_nil] at h
    cases h
    exact .nil
  | cons a l ih =>
    rw [List.mapM_cons] at h
    obtain ⟨b, hb, h⟩ := Option.bind_eq_some_iff.mp h
    obtain ⟨m, hm, h⟩ := Option.bind_eq_some_iff.mp h
    cases h
    exact .cons hb (ih hm)

/-- A property of the elements taken so far and the state, kept by every step that succeeds, holds
at the end of a fold that succeeds. -/
theorem foldlM_ok {P : List α → σ → Prop} {f : σ → α → Except ε σ} {s t : σ} {l : List α}
    (hs : P [] s) (hstep : ∀ l a s t, P l s → f s a = .ok t → P (l ++ [a]) t)
    (h : l.foldlM f s = .ok t) : P l t := by
  induction l using List.reverseRecOn generalizing t with
  | nil =>
    rw [List.foldlM_nil] at h
    cases h
    exact hs
  | append_singleton l a ih =>
    rw [List.foldlM_append] at h
    obtain ⟨u, hu, h⟩ := bind_ok.mp h
    rw [List.foldlM_cons] at h
    obtain ⟨v, hv, h⟩ := bind_ok.mp h
    cases h
    exact hstep l a u t (ih hu) hv

/-- A property of the elements of two lists at each index and of the elements before it, when an
element is appended to both. -/
theorem forall_prefix_concat₂ {Q : List α → α → β → Prop} {l : List α} {m : List β}
    (hlength : l.length = m.length) (a : α) (b : β) :
    (∀ (i : Nat) (c : α) (d : β), (l ++ [a])[i]? = some c → (m ++ [b])[i]? = some d →
        Q ((l ++ [a]).take i) c d) ↔
      (∀ (i : Nat) (c : α) (d : β), l[i]? = some c → m[i]? = some d → Q (l.take i) c d) ∧
        Q l a b := by
  constructor
  · intro h
    refine ⟨fun i c d hc hd => ?_, ?_⟩
    · obtain ⟨hlt, -⟩ := List.getElem?_eq_some_iff.mp hc
      have hinit := h i c d (by rw [List.getElem?_append_left hlt, hc])
        (by rw [List.getElem?_append_left (hlength ▸ hlt), hd])
      rwa [List.take_append_of_le_length (Nat.le_of_lt hlt)] at hinit
    · have hlast := h l.length a b List.getElem?_concat_length
        (by rw [hlength, List.getElem?_concat_length])
      rwa [List.take_left] at hlast
  · rintro ⟨hinit, hlast⟩ i c d hc hd
    by_cases hi : i < l.length
    · rw [List.getElem?_append_left hi] at hc
      rw [List.getElem?_append_left (hlength ▸ hi)] at hd
      rw [List.take_append_of_le_length (Nat.le_of_lt hi)]
      exact hinit i c d hc hd
    · rw [List.getElem?_append_right (Nat.le_of_not_lt hi), List.getElem?_singleton] at hc
      rw [List.getElem?_append_right (hlength ▸ Nat.le_of_not_lt hi), List.getElem?_singleton] at hd
      split_ifs at hc hd with hzero
      cases hc
      cases hd
      obtain rfl : i = l.length := by omega
      rwa [List.take_left]

theorem forall_prefix_concat {Q : List α → α → Prop} (l : List α) (a : α) :
    (∀ (i : Nat) (b : α), (l ++ [a])[i]? = some b → Q ((l ++ [a]).take i) b) ↔
      (∀ (i : Nat) (b : α), l[i]? = some b → Q (l.take i) b) ∧ Q l a := by
  have hself : ∀ m : List α, (∀ (i : Nat) (b : α), m[i]? = some b → Q (m.take i) b) ↔
      ∀ (i : Nat) (b c : α), m[i]? = some b → m[i]? = some c → Q (m.take i) b :=
    fun m => ⟨fun h i b _ hb _ => h i b hb, fun h i b hb => h i b b hb hb⟩
  rw [hself, hself]
  exact forall_prefix_concat₂ (Q := fun before b _ => Q before b) rfl a a

/-- Two lists that agree element by element, when an element is appended to each. -/
theorem forall₂_concat_iff {R : α → β → Prop} {l : List α} {m : List β} {a : α} {b : β} :
    List.Forall₂ R (l ++ [a]) (m ++ [b]) ↔ List.Forall₂ R l m ∧ R a b := by
  rw [← List.forall₂_reverse_iff, List.reverse_concat, List.reverse_concat, List.forall₂_cons,
    List.forall₂_reverse_iff, and_comm]

/-- A property of the elements taken so far and the state, kept by every step, holds at the end of a
fold. -/
theorem foldl_prefix {P : List α → σ → Prop} {f : σ → α → σ} {s : σ} {l : List α} (hs : P [] s)
    (hstep : ∀ pre a s, pre ++ [a] <+: l → P pre s → P (pre ++ [a]) (f s a)) :
    P l (l.foldl f s) := by
  induction l using List.reverseRecOn with
  | nil => exact hs
  | append_singleton l a ih =>
    rw [List.foldl_append]
    refine hstep l a _ (List.prefix_refl _) (ih fun pre b t hpre => hstep pre b t ?_)
    exact hpre.trans (List.prefix_append l [a])

/-! ### Related lists, place by place -/

variable {R : α → β → Prop} {l : List α} {l' : List β} {m : Nat}

theorem exists_right (h : List.Forall₂ R l l') {a : α} (ha : l[m]? = some a) :
    ∃ b, l'[m]? = some b ∧ R a b := by
  obtain ⟨hlt, rfl⟩ := List.getElem?_eq_some_iff.mp ha
  have hlt' : m < l'.length := h.length_eq ▸ hlt
  exact ⟨_, List.getElem?_eq_getElem hlt', h.get hlt hlt'⟩

theorem exists_left (h : List.Forall₂ R l l') {b : β} (hb : l'[m]? = some b) :
    ∃ a, l[m]? = some a ∧ R a b := by
  obtain ⟨hlt, rfl⟩ := List.getElem?_eq_some_iff.mp hb
  have hlt' : m < l.length := h.length_eq ▸ hlt
  exact ⟨_, List.getElem?_eq_getElem hlt', h.get hlt' hlt⟩

end Lib.Partial
