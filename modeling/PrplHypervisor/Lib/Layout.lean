import Mathlib.Algebra.Order.Group.Nat
import Mathlib.Data.Nat.ModEq

/-! Areas that are placed one behind the other, each at the next address with the alignment it asks
for.  Placed areas are in order and do not overlap, and the space that they take is bounded. -/

namespace Lib.Layout

/-- The least multiple of `n` that is not below `a`. -/
def alignUp (n a : Nat) : Nat := (a + (n - 1)) / n * n

variable {n m a b : Nat}

theorem dvd_alignUp (n a : Nat) : n ∣ alignUp n a := Nat.dvd_mul_left _ _

theorem le_alignUp (hn : 0 < n) (a : Nat) : a ≤ alignUp n a := by
  have hdiv := Nat.div_add_mod (a + (n - 1)) n
  have hmod := Nat.mod_lt (a + (n - 1)) hn
  rw [Nat.mul_comm] at hdiv
  unfold alignUp
  omega

theorem alignUp_le (h : a ≤ b) (hb : n ∣ b) : alignUp n a ≤ b := by
  obtain ⟨q, rfl⟩ := hb
  rcases Nat.eq_zero_or_pos n with rfl | hn
  · simp [alignUp]
  · have hq : (a + (n - 1)) / n ≤ q := by
      rw [← Nat.lt_succ_iff, Nat.div_lt_iff_lt_mul hn, Nat.succ_mul, Nat.mul_comm q n]
      omega
    calc alignUp n a ≤ q * n := Nat.mul_le_mul_right n hq
      _ = n * q := Nat.mul_comm q n

theorem alignUp_of_dvd (hn : 0 < n) (h : n ∣ a) : alignUp n a = a :=
  Nat.le_antisymm (alignUp_le (le_refl a) h) (le_alignUp hn a)

theorem alignUp_of_not_dvd (hn : 0 < n) (h : ¬n ∣ a) : alignUp n a = (a + n) / n * n := by
  have hmod : 0 < a % n := Nat.pos_of_ne_zero fun hzero => h (Nat.dvd_of_mod_eq_zero hzero)
  have hlt := Nat.mod_lt a hn
  have hdiv := Nat.div_add_mod a n
  have hup : (a + (n - 1)) / n = a / n + 1 := by
    rw [show a + (n - 1) = (a % n - 1) + n * (a / n + 1) by rw [Nat.mul_succ]; omega,
      Nat.add_mul_div_left _ _ hn, Nat.div_eq_of_lt (by omega), Nat.zero_add]
  rw [alignUp, hup, Nat.add_div_right a hn]

/-- An area to place: the alignment of its start, and its size. -/
structure Request where
  page : Nat
  size : Nat

/-- The address behind the areas `l` when they are placed from `base` on. -/
def finish (base : Nat) : List Request → Nat
  | [] => base
  | r :: l => finish (alignUp r.page base + r.size) l

/-- The start of the area `r` that is placed behind the areas `l`. -/
def start (base : Nat) (l : List Request) (r : Request) : Nat := alignUp r.page (finish base l)

theorem finish_append (base : Nat) (l : List Request) (r : Request) :
    finish base (l ++ [r]) = start base l r + r.size := by
  induction l generalizing base with
  | nil => rfl
  | cons s l ih => exact ih (alignUp s.page base + s.size)

theorem le_finish {l : List Request} (hl : ∀ r ∈ l, 0 < r.page) (base : Nat) :
    base ≤ finish base l := by
  induction l generalizing base with
  | nil => exact le_refl _
  | cons r l ih =>
    have hup := le_alignUp (hl r List.mem_cons_self) base
    have hrest := ih (fun s hs => hl s (List.mem_cons_of_mem r hs)) (alignUp r.page base + r.size)
    simp only [finish]
    omega

theorem finish_append_le {l l' : List Request} (hl : ∀ r ∈ l', 0 < r.page) (base : Nat) :
    finish base l ≤ finish base (l ++ l') := by
  induction l generalizing base with
  | nil => exact le_finish hl base
  | cons r l ih => exact ih (alignUp r.page base + r.size)

/-- An area ends before the start of each area that is placed later. -/
theorem start_add_size_le {l l' : List Request} {r s : Request} (hl : ∀ t ∈ l', 0 < t.page)
    (hs : 0 < s.page) (base : Nat) :
    start base l r + r.size ≤ start base (l ++ r :: l') s := by
  have happend : l ++ r :: l' = l ++ [r] ++ l' := by simp
  calc start base l r + r.size = finish base (l ++ [r]) := (finish_append base l r).symm
    _ ≤ finish base (l ++ [r] ++ l') := finish_append_le hl base
    _ = finish base (l ++ r :: l') := by rw [happend]
    _ ≤ start base (l ++ r :: l') s := le_alignUp hs _

/-- Alignments that divide `n` and sizes up to a multiple of `n` leave no more than one gap. -/
theorem alignUp_finish_le (hn : 0 < n) (hm : n ∣ m) {l : List Request}
    (hl : ∀ r ∈ l, r.page ∣ n ∧ r.size ≤ m) (base : Nat) :
    alignUp n (finish base l) ≤ alignUp n base + l.length * m := by
  induction l generalizing base with
  | nil => simp [finish]
  | cons r l ih =>
    obtain ⟨hpage, hsize⟩ := hl r List.mem_cons_self
    have hup : alignUp r.page base ≤ alignUp n base :=
      alignUp_le (le_alignUp hn base) (hpage.trans (dvd_alignUp n base))
    have hnext : alignUp n (alignUp r.page base + r.size) ≤ alignUp n base + m :=
      alignUp_le (Nat.add_le_add hup hsize) ((Nat.dvd_add_right (dvd_alignUp n base)).mpr hm)
    have hrest := ih (fun s hs => hl s (List.mem_cons_of_mem r hs)) (alignUp r.page base + r.size)
    rw [List.length_cons, Nat.succ_mul]
    simp only [finish]
    omega

/-- The space that is taken, from the first address on. -/
theorem finish_le (hn : 0 < n) (hm : n ∣ m) {l : List Request}
    (hl : ∀ r ∈ l, r.page ∣ n ∧ r.size ≤ m) (base : Nat) :
    finish base l ≤ alignUp n base + l.length * m :=
  (le_alignUp hn _).trans (alignUp_finish_le hn hm hl base)

/-- Between two multiples of `d` there is room for `d`. -/
theorem add_le_of_dvd {d a n : Nat} (ha : d ∣ a) (hn : d ∣ n) (h : a < n) : a + d ≤ n := by
  obtain ⟨q, rfl⟩ := ha
  obtain ⟨r, rfl⟩ := hn
  have hlt : q < r := Nat.lt_of_mul_lt_mul_left h
  calc d * q + d = d * (q + 1) := (Nat.mul_succ d q).symm
    _ ≤ d * r := Nat.mul_le_mul_left d hlt

/-- Two areas that are not empty are apart when no address of the first one is in the second one. -/
theorem apart_of_forall {a n b m : Nat} (hn : 0 < n) (hm : 0 < m)
    (h : ∀ k < n, ¬(b ≤ a + k ∧ a + k < b + m)) : a + n ≤ b ∨ b + m ≤ a := by
  by_contra hmeet
  by_cases hstart : b ≤ a
  · exact h 0 hn (by omega)
  · exact h (b - a) (by omega) (by omega)

end Lib.Layout
