import PrplHypervisor.Lib.Ring

/-! The kernel's queue of pointers (`sys/lib/queue.c`): a ring of `size` slots that keeps at most
`size - 1` elements, so that `head = tail` only when it is empty.  `Keeps` relates a queue to the
list of its pointers, oldest first, and `Holds` to the list of its elements when none is `NULL`. -/

namespace PrplHypervisor.Kernel

open Lib.Ring

variable {α : Type}

/-- `struct queue_t`.  The fields are `int32_t`; a queue is as large as the memory that its data was
allocated from, far below the range of the type.  A pointer is an `Option`, `none` for `NULL`. -/
structure Queue (α : Type) where
  size : Int
  elem : Int
  head : Int
  tail : Int
  data : Int → Option α

/-- `queue_create`, with both allocations successful; `fresh` is what the new array contains. -/
def queueCreate (size : Int) (fresh : Int → Option α) : Queue α :=
  { size := size + 1, elem := 0, head := 0, tail := 0, data := fresh }

def queueCount (q : Queue α) : Int := q.elem

/-- `queue_addtail`: 0, or -1 when the queue is full. -/
def queueAddtail (q : Queue α) (ptr : Option α) : Int × Queue α :=
  if q.size = 0 then (-1, q)
  else
    let next := (q.tail + 1).tmod q.size
    if next = q.head then (-1, q)
    else (0, { q with
      data := Function.update q.data q.tail ptr, tail := next, elem := q.elem + 1 })

/-- `queue_remhead`: the element, or `NULL` when the queue is empty. -/
def queueRemhead (q : Queue α) : Option α × Queue α :=
  if q.size = 0 then (none, q)
  else if q.head = q.tail then (none, q)
  else (q.data q.head, { q with head := (q.head + 1).tmod q.size, elem := q.elem - 1 })

/-- `queue_get`: the element `elem` places behind the head, or `NULL`. -/
def queueGet (q : Queue α) (elem : Int) : Option α :=
  if q.size = 0 ∨ q.elem ≤ elem ∨ q.head = q.tail then none
  else q.data ((q.head + elem).tmod q.size)

/-- `queue_remtail`: what it takes for the last element, or `NULL` when the queue is empty.  The
slot that it reads is the one behind the last element. -/
def queueRemtail (q : Queue α) : Option α × Queue α :=
  if q.size = 0 then (none, q)
  else if q.head = q.tail then (none, q)
  else (q.data q.tail, { q with tail := (q.tail - 1).tmod q.size, elem := q.elem - 1 })

/-- `queue_set`: 0, or -1 past the end. -/
def queueSet (q : Queue α) (elem : Int) (ptr : Option α) : Int × Queue α :=
  if q.size = 0 ∨ q.elem ≤ elem ∨ q.head = q.tail then (-1, q)
  else (0, { q with data := Function.update q.data ((q.head + elem).tmod q.size) ptr })

/-- `queue_swap`: 0, or -1 when one of the places is past the end. -/
def queueSwap (q : Queue α) (elem1 elem2 : Int) : Int × Queue α :=
  if q.size = 0 ∨ q.elem ≤ elem1 ∨ q.elem ≤ elem2 ∨ q.head = q.tail then (-1, q)
  else
    let i := (q.head + elem1).tmod q.size
    let j := (q.head + elem2).tmod q.size
    let t := q.data i
    let data := Function.update q.data i (q.data j)
    (0, { q with data := Function.update data j t })

/-- The queue `q`, created for `n` elements, keeps the pointers of `l`, oldest first. -/
structure Queue.Keeps (q : Queue α) (n : Nat) (l : List (Option α)) : Prop where
  size : q.size = n + 1
  elem : q.elem = l.length
  fits : l.length ≤ n
  slots : ∃ h : Nat, h ≤ n ∧ q.head = h ∧ q.tail = ((h + l.length) % (n + 1) : Nat) ∧
    window (fun i => q.data i) h l.length (n + 1) = l

/-- The queue `q`, created for `n` elements, holds the elements of `l`, oldest first. -/
structure Queue.Holds (q : Queue α) (n : Nat) (l : List α) : Prop where
  size : q.size = n + 1
  elem : q.elem = l.length
  fits : l.length ≤ n
  slots : ∃ h : Nat, h ≤ n ∧ q.head = h ∧ q.tail = ((h + l.length) % (n + 1) : Nat) ∧
    window (fun i => q.data i) h l.length (n + 1) = l.map some

theorem Queue.holds_iff {q : Queue α} {n : Nat} {l : List α} :
    q.Holds n l ↔ q.Keeps n (l.map some) := by
  constructor
  · rintro ⟨hsize, helem, hfits, hslots⟩
    exact ⟨hsize, by simpa using helem, by simpa using hfits, by simpa using hslots⟩
  · rintro ⟨hsize, helem, hfits, hslots⟩
    exact ⟨hsize, by simpa using helem, by simpa using hfits, by simpa using hslots⟩

/-- The next slot of a ring, as C computes it. -/
theorem tmod_next (i m : Nat) : ((i : Int) + 1).tmod (m + 1) = ((i + 1) % (m + 1) : Nat) := by
  rw [Int.tmod_eq_emod_of_nonneg (by omega)]
  norm_cast

/-- In a ring of `n + 1` slots, the slot `k` places behind the first of at most `n` elements is not
the first one. -/
theorem slot_ne_head {i k n : Nat} (hi : i ≤ n) (hk : 0 < k) (hn : k ≤ n) :
    (i + k) % (n + 1) ≠ i := by
  have hslot : (i + 0) % (n + 1) ≠ (i + k) % (n + 1) := slot_ne hk (Nat.lt_succ_of_le hn)
  rw [Nat.add_zero, Nat.mod_eq_of_lt (Nat.lt_succ_of_le hi)] at hslot
  exact hslot.symm

theorem queueAddtail_next {q : Queue α} (hsize : q.size ≠ 0)
    (hnext : (q.tail + 1).tmod q.size ≠ q.head) (ptr : Option α) :
    queueAddtail q ptr = (0, { q with
      data := Function.update q.data q.tail ptr, tail := (q.tail + 1).tmod q.size,
      elem := q.elem + 1 }) := by
  simp [queueAddtail, hsize, hnext]

theorem queueRemhead_next {q : Queue α} (hsize : q.size ≠ 0) (hne : q.head ≠ q.tail) :
    queueRemhead q =
      (q.data q.head, { q with head := (q.head + 1).tmod q.size, elem := q.elem - 1 }) := by
  simp [queueRemhead, hsize, hne]

theorem queueCreate_keeps (n : Nat) (fresh : Int → Option α) :
    (queueCreate n fresh).Keeps n [] :=
  ⟨rfl, rfl, Nat.zero_le _, 0, Nat.zero_le _, rfl, by simp [queueCreate], rfl⟩

theorem queueCreate_holds (n : Nat) (fresh : Int → Option α) :
    (queueCreate n fresh).Holds n [] := Queue.holds_iff.mpr (queueCreate_keeps n fresh)

namespace Queue.Keeps

variable {q : Queue α} {n : Nat} {l : List (Option α)} {x : Option α}

theorem addtail (h : q.Keeps n l) (room : l.length < n) (x : Option α) :
    ∃ q', queueAddtail q x = (0, q') ∧ q'.Keeps n (l ++ [x]) := by
  obtain ⟨hsize, helem, hfits, i, hi, hhead, htail, hwin⟩ := h
  have hnext : (q.tail + 1).tmod q.size = ((i + (l.length + 1)) % (n + 1) : Nat) := by
    rw [htail, hsize, tmod_next, tail_slot_succ]
  have hne : (q.tail + 1).tmod q.size ≠ q.head := by
    rw [hnext, hhead]
    exact_mod_cast slot_ne_head hi (Nat.succ_pos l.length) room
  refine ⟨_, queueAddtail_next (by omega) hne x, hsize, by simp [helem],
    by simpa [Nat.succ_le_iff] using room, i, hi, hhead, by simpa using hnext, ?_⟩
  rw [List.length_append, List.length_singleton]
  conv_rhs => rw [← hwin]
  rw [← window_push (by omega)]
  refine window_congr fun k _ => ?_
  simp only [htail, Function.update_apply]
  norm_cast

theorem addtail_full (h : q.Keeps n l) (full : l.length = n) (x : Option α) :
    queueAddtail q x = (-1, q) := by
  obtain ⟨hsize, helem, hfits, i, hi, hhead, htail, hwin⟩ := h
  have hnext : (q.tail + 1).tmod q.size = q.head := by
    rw [htail, hsize, tmod_next, tail_slot_succ, full, hhead, Nat.add_mod_right,
      Nat.mod_eq_of_lt (Nat.lt_succ_of_le hi)]
  simp [queueAddtail, hnext]

theorem head_eq_tail_iff (h : q.Keeps n l) : q.head = q.tail ↔ l = [] := by
  obtain ⟨hsize, helem, hfits, i, hi, hhead, htail, hwin⟩ := h
  constructor
  · intro heq
    by_contra hl
    rw [hhead, htail] at heq
    exact slot_ne_head hi (List.length_pos_iff.mpr hl) hfits (by exact_mod_cast heq.symm)
  · rintro rfl
    rw [hhead, htail, List.length_nil, Nat.add_zero, Nat.mod_eq_of_lt (Nat.lt_succ_of_le hi)]

theorem remhead (h : q.Keeps n (x :: l)) :
    ∃ q', queueRemhead q = (x, q') ∧ q'.Keeps n l := by
  have hne : q.head ≠ q.tail := h.head_eq_tail_iff.not.mpr (List.cons_ne_nil x l)
  obtain ⟨hsize, helem, hfits, i, hi, hhead, htail, hwin⟩ := h
  simp only [List.length_cons] at helem hfits htail hwin
  rw [window_succ (Nat.lt_succ_of_le hi)] at hwin
  obtain ⟨hx, hrest⟩ := List.cons.inj hwin
  have hnext : (q.head + 1).tmod q.size = ((i + 1) % (n + 1) : Nat) := by
    rw [hhead, hsize, tmod_next]
  have hrem := queueRemhead_next (by omega) hne
  rw [hhead, hx, ← hhead] at hrem
  refine ⟨_, hrem, hsize, by simp [helem], by omega, (i + 1) % (n + 1),
    Nat.le_of_lt_succ (Nat.mod_lt _ (Nat.succ_pos n)), hnext, ?_, hrest⟩
  simp only [htail, head_slot_succ]

theorem remhead_nil (h : q.Keeps n []) : queueRemhead q = (none, q) := by
  simp [queueRemhead, h.head_eq_tail_iff.mpr rfl]

/-- The slot of the `k`-th element. -/
theorem slot (h : q.Keeps n l) {k : Nat} (hk : k < l.length) :
    ∃ i ≤ n, (q.head + k).tmod q.size = ((i + k) % (n + 1) : Nat) ∧ q.head = i ∧
      q.data ((i + k) % (n + 1) : Nat) = l.getD k none := by
  obtain ⟨hsize, helem, hfits, i, hi, hhead, htail, hwin⟩ := h
  refine ⟨i, hi, ?_, hhead, ?_⟩
  · rw [hhead, hsize, Int.tmod_eq_emod_of_nonneg (by omega)]
    norm_cast
  · have hget := congrArg (·[k]?) hwin
    simp only [getElem?_window hk] at hget
    rw [List.getD_eq_getElem?_getD, ← hget]
    rfl

/-- A call at a place of the list goes on to the slot. -/
theorem not_past (h : q.Keeps n l) {k : Nat} (hk : k < l.length) :
    ¬(q.size = 0 ∨ q.elem ≤ k ∨ q.head = q.tail) := by
  have hne := h.head_eq_tail_iff.not.mpr (List.ne_nil_of_length_pos (Nat.zero_lt_of_lt hk))
  have hsize := h.size
  have helem := h.elem
  omega

theorem past (h : q.Keeps n l) {k : Nat} (hk : l.length ≤ k) :
    q.size = 0 ∨ q.elem ≤ k ∨ q.head = q.tail := by
  have helem := h.elem
  omega

/-- `queue_get` reads the list, and returns `NULL` past its end. -/
theorem get (h : q.Keeps n l) (k : Nat) : queueGet q k = l.getD k none := by
  by_cases hk : k < l.length
  · obtain ⟨i, _, hslot, _, hread⟩ := h.slot hk
    rw [queueGet, if_neg (h.not_past hk), hslot, hread]
  · rw [queueGet, if_pos (h.past (not_lt.mp hk)), List.getD_eq_getElem?_getD,
      List.getElem?_eq_none (not_lt.mp hk), Option.getD_none]

theorem update_slot (data : Int → Option α) (m : Nat) (ptr : Option α) :
    (fun i : Nat => Function.update data m ptr i) =
      Function.update (fun i : Nat => data i) m ptr := by
  funext i
  simp only [Function.update_apply, Int.natCast_inj]

theorem setSlot (h : q.Keeps n l) {k : Nat} (hk : k < l.length) (ptr : Option α) :
    Queue.Keeps { q with data := Function.update q.data ((q.head + k).tmod q.size) ptr } n
      (l.set k ptr) := by
  obtain ⟨i, hi, hslot, hhead, _⟩ := h.slot hk
  obtain ⟨hsize, helem, hfits, j, hj, hhead', htail, hwin⟩ := h
  obtain rfl : i = j := by
    rw [hhead] at hhead'
    exact_mod_cast hhead'
  refine ⟨hsize, by simpa using helem, by simpa using hfits, i, hi, hhead, by simpa using htail, ?_⟩
  simp only [hslot, update_slot, List.length_set]
  rw [window_set hk (Nat.le_succ_of_le hfits), hwin]

theorem set (h : q.Keeps n l) {k : Nat} (hk : k < l.length) (ptr : Option α) :
    ∃ q', queueSet q k ptr = (0, q') ∧ q'.Keeps n (l.set k ptr) :=
  ⟨_, if_neg (h.not_past hk), h.setSlot hk ptr⟩

theorem set_past (h : q.Keeps n l) {k : Nat} (hk : l.length ≤ k) (ptr : Option α) :
    queueSet q k ptr = (-1, q) := if_pos (h.past hk)

theorem swap (h : q.Keeps n l) {i j : Nat} (hi : i < l.length) (hj : j < l.length) :
    ∃ q', queueSwap q i j = (0, q') ∧
      q'.Keeps n ((l.set i (l.getD j none)).set j (l.getD i none)) := by
  obtain ⟨_, _, hslot_i, _, hread_i⟩ := h.slot hi
  obtain ⟨_, _, hslot_j, _, hread_j⟩ := h.slot hj
  have hdone := (h.setSlot hi (l.getD j none)).setSlot (k := j) (by simpa using hj) (l.getD i none)
  have hnot : ¬(q.size = 0 ∨ q.elem ≤ i ∨ q.elem ≤ j ∨ q.head = q.tail) := by
    have h1 := h.not_past hi
    have h2 := h.not_past hj
    tauto
  refine ⟨_, if_neg hnot, ?_⟩
  simp only [hslot_i, hslot_j, hread_i, hread_j] at hdone ⊢
  exact hdone

theorem swap_past (h : q.Keeps n l) {i j : Nat} (hpast : l.length ≤ i ∨ l.length ≤ j) :
    queueSwap q i j = (-1, q) := by
  refine if_pos ?_
  rcases hpast with hi | hj
  · have := h.past hi
    tauto
  · have := h.past hj
    tauto

/-- The last element is in the slot in front of the tail, when the tail is not back at slot 0. -/
theorem last (h : q.Keeps n (l ++ [x])) (htail : q.tail ≠ 0) :
    q.data (q.tail - 1) = x ∧
      Queue.Keeps { q with tail := (q.tail - 1).tmod q.size, elem := q.elem - 1 } n l := by
  obtain ⟨hsize, helem, hfits, i, hi, hhead, htail', hwin⟩ := h
  simp only [List.length_append, List.length_singleton] at helem hfits htail' hwin
  have hprev : q.tail - 1 = ((i + l.length) % (n + 1) : Nat) := by
    have hlt : (i + l.length) % (n + 1) < n + 1 := Nat.mod_lt _ (Nat.succ_pos n)
    rw [← tail_slot_succ] at htail'
    have hnext : (i + l.length) % (n + 1) + 1 < n + 1 := by
      by_contra hge
      rw [show (i + l.length) % (n + 1) + 1 = n + 1 by omega, Nat.mod_self] at htail'
      exact htail htail'
    rw [Nat.mod_eq_of_lt hnext] at htail'
    omega
  rw [window_append_last] at hwin
  obtain ⟨hrest, hx⟩ := List.append_inj' hwin rfl
  have hread : q.data (q.tail - 1) = x := by
    rw [hprev]
    exact List.singleton_inj.mp hx
  refine ⟨hread, hsize, by simp only [helem]; omega, by omega, i, hi, hhead, ?_, hrest⟩
  show (q.tail - 1).tmod q.size = _
  rw [hprev, hsize, Int.tmod_eq_emod_of_nonneg (by omega)]
  norm_cast
  rw [Nat.mod_mod]

theorem remtail_nil (h : q.Keeps n []) : queueRemtail q = (none, q) := by
  simp [queueRemtail, h.head_eq_tail_iff.mpr rfl]

theorem remtail_eq (h : q.Keeps n l) (hl : l ≠ []) : queueRemtail q =
    (q.data q.tail, { q with tail := (q.tail - 1).tmod q.size, elem := q.elem - 1 }) := by
  have hne := h.head_eq_tail_iff.not.mpr hl
  have hsize := h.size
  rw [queueRemtail, if_neg (by omega), if_neg hne]

/-- Both indexes are slots of the ring. -/
theorem inBounds (h : q.Keeps n l) :
    (0 ≤ q.head ∧ q.head < q.size) ∧ 0 ≤ q.tail ∧ q.tail < q.size := by
  obtain ⟨hsize, helem, hfits, i, hi, hhead, htail, hwin⟩ := h
  have hlt : (i + l.length) % (n + 1) < n + 1 := Nat.mod_lt _ (Nat.succ_pos n)
  omega

end Queue.Keeps

namespace Queue.Holds

variable {q : Queue α} {n : Nat} {l : List α}

theorem count (h : q.Holds n l) : queueCount q = l.length := h.elem

theorem addtail (h : q.Holds n l) (room : l.length < n) (x : α) :
    ∃ q', queueAddtail q (some x) = (0, q') ∧ q'.Holds n (l ++ [x]) := by
  obtain ⟨q', hadd, hq'⟩ := (holds_iff.mp h).addtail (by simpa using room) (some x)
  exact ⟨q', hadd, holds_iff.mpr (by simpa using hq')⟩

theorem remhead {x : α} (h : q.Holds n (x :: l)) :
    ∃ q', queueRemhead q = (some x, q') ∧ q'.Holds n l := by
  obtain ⟨q', hrem, hq'⟩ := (holds_iff.mp h).remhead
  exact ⟨q', hrem, holds_iff.mpr hq'⟩

theorem get (h : q.Holds n l) (k : Nat) : queueGet q k = l[k]? := by
  rw [(holds_iff.mp h).get, List.getD_eq_getElem?_getD, List.getElem?_map]
  cases l[k]? <;> rfl

end Queue.Holds

end PrplHypervisor.Kernel
