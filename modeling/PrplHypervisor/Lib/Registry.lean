import Mathlib.Data.List.Nodup
import Mathlib.Logic.Function.Basic

/-! Tables in which entries are registered under keys.  A key that is taken stays with its first
entry, and a group of entries is given up at its first taken key. -/

namespace Lib.Registry

variable {κ β : Type*} [DecidableEq κ]

/-- Register the entries of a group one after the other, up to the first one whose key is taken. -/
def enter (t : κ → Option β) : List (κ × β) → κ → Option β
  | [] => t
  | (k, b) :: l =>
    match t k with
    | some _ => t
    | none => enter (Function.update t k (some b)) l

theorem lookup_of_key_notMem {k : κ} {l : List (κ × β)} (h : k ∉ l.map Prod.fst) :
    l.lookup k = none := by
  rw [List.lookup_eq_none_iff]
  intro x hx
  exact bne_iff_ne.mpr fun heq => h (List.mem_map.mpr ⟨x, hx, heq.symm⟩)

theorem lookup_of_key_mem {k : κ} {l : List (κ × β)} (h : k ∈ l.map Prod.fst) :
    l.lookup k ≠ none := by
  obtain ⟨x, hx, rfl⟩ := List.mem_map.mp h
  intro hnone
  simpa using List.lookup_eq_none_iff.mp hnone x hx

/-- A group whose keys are free is registered as a whole. -/
theorem enter_of_free {t : κ → Option β} {l : List (κ × β)} (hnodup : (l.map Prod.fst).Nodup)
    (hfree : ∀ x ∈ l, t x.1 = none) (k : κ) : enter t l k = (t k).or (l.lookup k) := by
  induction l generalizing t with
  | nil => simp [enter]
  | cons x l ih =>
    obtain ⟨k', b⟩ := x
    obtain ⟨hx, hl⟩ := List.nodup_cons.mp hnodup
    have hnone : t k' = none := hfree (k', b) List.mem_cons_self
    simp only [enter, hnone]
    rw [ih hl, List.lookup_cons]
    · by_cases hk : k = k'
      · subst hk
        simp [hnone]
      · rw [Function.update_of_ne hk, beq_false_of_ne hk]
    · intro y hy
      have hne : y.1 ≠ k' := fun heq => hx (List.mem_map.mpr ⟨y, hy, heq⟩)
      rw [Function.update_of_ne hne]
      exact hfree y (List.mem_cons_of_mem _ hy)

/-- A group whose first key is taken leaves the table as it is. -/
theorem enter_of_taken {t : κ → Option β} {k : κ} {b : β} {l : List (κ × β)} (h : t k ≠ none) :
    enter t ((k, b) :: l) = t := by
  obtain ⟨b', hb'⟩ := Option.ne_none_iff_exists'.mp h
  simp only [enter, hb']

/-- Groups of entries under the keys of their members: two groups have the same keys or none in
common. -/
structure Groups {κ β : Type*} (groups : List (List (κ × β))) : Prop where
  nodup : ∀ g ∈ groups, (g.map Prod.fst).Nodup
  apart : ∀ g ∈ groups, ∀ g' ∈ groups,
    g.map Prod.fst = g'.map Prod.fst ∨ ∀ k ∈ g.map Prod.fst, k ∉ g'.map Prod.fst

theorem Groups.tail {κ β : Type*} {g : List (κ × β)} {groups : List (List (κ × β))}
    (h : Groups (g :: groups)) : Groups groups where
  nodup := fun g' hg' => h.nodup g' (List.mem_cons_of_mem _ hg')
  apart := fun g₁ h₁ g₂ h₂ =>
    h.apart g₁ (List.mem_cons_of_mem _ h₁) g₂ (List.mem_cons_of_mem _ h₂)

/-- The keys of each group are all taken or all free. -/
def Whole (t : κ → Option β) (groups : List (List (κ × β))) : Prop :=
  ∀ g ∈ groups, (∀ k ∈ g.map Prod.fst, t k ≠ none) ∨ ∀ k ∈ g.map Prod.fst, t k = none

/-- A key has the entry of the first group with that key. -/
theorem foldl_enter {groups : List (List (κ × β))} {t : κ → Option β} (h : Groups groups)
    (hwhole : Whole t groups) (k : κ) :
    groups.foldl enter t k = (t k).or (groups.flatten.lookup k) := by
  induction groups generalizing t with
  | nil => simp
  | cons g groups ih =>
    rw [List.foldl_cons, List.flatten_cons, List.lookup_append]
    rcases hwhole g List.mem_cons_self with htaken | hfree
    · have hsame : enter t g = t := by
        cases g with
        | nil => rfl
        | cons x l => exact enter_of_taken (htaken x.1 List.mem_cons_self)
      rw [hsame, ih h.tail fun g' hg' => hwhole g' (List.mem_cons_of_mem _ hg')]
      by_cases hk : k ∈ g.map Prod.fst
      · obtain ⟨b, hb⟩ := Option.ne_none_iff_exists'.mp (htaken k hk)
        simp [hb]
      · rw [lookup_of_key_notMem hk, Option.none_or]
    · have henter := enter_of_free (t := t) (h.nodup g List.mem_cons_self)
        fun x hx => hfree x.1 (List.mem_map_of_mem hx)
      rw [ih h.tail, henter k, Option.or_assoc]
      intro g' hg'
      rcases h.apart g List.mem_cons_self g' (List.mem_cons_of_mem _ hg') with hsame | hapart
      · left
        intro k' hk'
        rw [← hsame] at hk'
        rw [henter, hfree k' hk', Option.none_or]
        exact lookup_of_key_mem hk'
      · have hkeep : ∀ k' ∈ g'.map Prod.fst, enter t g k' = t k' := by
          intro k' hk'
          rw [henter, lookup_of_key_notMem fun hmem => hapart k' hmem hk', Option.or_none]
        rcases hwhole g' (List.mem_cons_of_mem _ hg') with htaken' | hfree'
        · exact Or.inl fun k' hk' => hkeep k' hk' ▸ htaken' k' hk'
        · exact Or.inr fun k' hk' => hkeep k' hk' ▸ hfree' k' hk'

end Lib.Registry
