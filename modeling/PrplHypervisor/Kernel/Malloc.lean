import Mathlib.Data.Set.Lattice
import Mathlib.Order.CompletePartialOrder
import PrplHypervisor.Lib.Circular
import PrplHypervisor.Lib.Runs

/-! The heap (`sys/lib/malloc.c`).  The free blocks form a circular list in the order of their
addresses, with `freep` at one of them.  `malloc` takes the first block behind `freep` that is large
enough, whole or its upper end; `free` links a block in between its neighbours and joins it to those
it touches.  The list cannot be empty: `malloc` leaves the only free block on it when it takes all
of that block, and `free` leaves it there when it joins it to the block in front. -/

namespace PrplHypervisor.Kernel

open Lib.Circular Lib.Runs

/-- `union header`, at a distance from the start of the heap that is counted in headers.  A size is
at most that of the heap, far below the range of the type. -/
structure MemHeader where
  ptr : Nat
  size : Nat
  deriving DecidableEq, Repr

/-- The memory of the heap and the static variables of the allocator. -/
structure Heap where
  mem : Nat → MemHeader
  freep : Option Nat
  sfreep : Option Nat
  sfree : MemHeader

/-- The number of units of `size` bytes with a header, in 32-bit arithmetic. -/
def nunits (size : UInt32) : UInt32 := (size + 8 - 1) / 8 + 1

def heapInit (len : UInt32) (h : Heap) : Heap :=
  match h.freep with
  | none =>
    let p : MemHeader := { ptr := 0, size := (nunits len - 1).toNat }
    { mem := Function.update h.mem 0 p, freep := some 0, sfreep := some 0, sfree := p }
  | some _ =>
    match h.sfreep with
    | none => h
    | some freep => { h with freep := some freep, mem := Function.update h.mem freep h.sfree }

/-- The memory with the link of the block at `b` set. -/
def setLink (mem : Nat → MemHeader) (b ptr : Nat) : Nat → MemHeader :=
  Function.update mem b { mem b with ptr := ptr }

/-- The loop of `malloc`, behind `prevp` and with at most `n` iterations: a block of at least
`nunits` units with the one before it, or `none` when it is back at `freep`. -/
def mallocLoop (mem : Nat → MemHeader) (freep nunits : Nat) :
    Nat → Nat → Option (Option (Nat × Nat))
  | 0, _ => none
  | n + 1, prevp =>
    let p := (mem prevp).ptr
    if nunits ≤ (mem p).size then some (some (prevp, p))
    else if p = freep then some none
    else mallocLoop mem freep nunits n p

/-- More iterations than a round of the list can take. -/
def Heap.rounds (h : Heap) : Nat := h.sfree.size + 2

/-- `malloc`: the block, whose pointer is one unit behind, or `NULL`. -/
def malloc (h : Heap) (size : UInt32) : Option (Option Nat × Heap) :=
  let nunits := (nunits size).toNat
  match h.freep with
  | none => some (none, h)
  | some freep =>
    match mallocLoop h.mem freep nunits h.rounds freep with
    | none => none
    | some none => some (none, h)
    | some (some (prevp, p)) =>
      if (h.mem p).size = nunits then
        -- `p` stays on the list when it is the only block, its own `prevp`
        some (some (p + 1), { h with
          mem := setLink h.mem prevp (h.mem p).ptr, freep := some prevp })
      else
        let size := (h.mem p).size - nunits
        let mem := Function.update h.mem p { h.mem p with size := size }
        some (some (p + size + 1), { h with
          mem := Function.update mem (p + size) { mem (p + size) with size := nunits }
          freep := some prevp })

/-- The loop of `free`, from `p` and with at most `n` iterations: the block behind which `bp`
belongs. -/
def freeLoop (mem : Nat → MemHeader) (bp : Nat) : Nat → Nat → Option Nat
  | 0, _ => none
  | n + 1, p =>
    let next := (mem p).ptr
    if p < bp ∧ bp < next then some p
    -- the end of the heap, where the list goes back to its start
    else if next ≤ p ∧ (p < bp ∨ bp < next) then some p
    else freeLoop mem bp n next

/-- The first half of what `free` does behind `p`: `bp` takes the link of `p`, with the block there
when it ends at it. -/
def joinUpper (mem : Nat → MemHeader) (p bp : Nat) : Nat → MemHeader :=
  let next := (mem p).ptr
  if bp + (mem bp).size = next then
    -- when `p` is alone on the list, `next` is `p`, and it stays there
    Function.update mem bp { ptr := (mem next).ptr, size := (mem bp).size + (mem next).size }
  else setLink mem bp next

/-- The second half: `p` links to `bp`, or is joined to it. -/
def joinLower (mem : Nat → MemHeader) (p bp : Nat) : Nat → MemHeader :=
  if p + (mem p).size = bp then
    Function.update mem p { ptr := (mem bp).ptr, size := (mem p).size + (mem bp).size }
  else setLink mem p bp

def free (h : Heap) (ptr : Nat) : Option Heap :=
  let bp := ptr - 1
  match h.freep with
  | none => none
  | some freep =>
    match freeLoop h.mem bp h.rounds freep with
    | none => none
    | some p => some { h with mem := joinLower (joinUpper h.mem p bp) p bp, freep := some p }

/-! ### Blocks -/

/-- The units of the block at `b`. -/
def units (mem : Nat → MemHeader) (b : Nat) : Set Nat := Set.Ico b (b + (mem b).size)

/-- One of two blocks ends before the other one starts. -/
def Apart (mem : Nat → MemHeader) (a b : Nat) : Prop :=
  a + (mem a).size ≤ b ∨ b + (mem b).size ≤ a

theorem Apart.disjoint {mem : Nat → MemHeader} {a b : Nat} (h : Apart mem a b) :
    Disjoint (units mem a) (units mem b) := by
  rw [Set.disjoint_left]
  rintro x ⟨ha, hax⟩ ⟨hb, hbx⟩
  rcases h with h | h
  · omega
  · omega

/-- Blocks are apart when one of them is apart from the others, and those are. -/
theorem apart_of_others {mem : Nat → MemHeader} {l : List Nat} {p : Nat}
    (hp : ∀ b ∈ l, b ≠ p → Apart mem p b)
    (hrest : ∀ a ∈ l, ∀ b ∈ l, a ≠ p → b ≠ p → a ≠ b → Apart mem a b) :
    ∀ a ∈ l, ∀ b ∈ l, a ≠ b → Apart mem a b := by
  intro a ha b hb hne
  by_cases hap : a = p
  · subst hap
    exact hp b hb hne.symm
  by_cases hbp : b = p
  · subst hbp
    exact (hp a ha hap).symm
  exact hrest a ha b hb hap hbp hne

/-- The link of a block. -/
def link (mem : Nat → MemHeader) (b : Nat) : Nat := (mem b).ptr

@[simp] theorem setLink_size (mem : Nat → MemHeader) (b ptr c : Nat) :
    (setLink mem b ptr c).size = (mem c).size := by
  rw [setLink, Function.update_apply]
  split_ifs with heq
  · rw [heq]
  · rfl

@[simp] theorem link_setLink (mem : Nat → MemHeader) (b ptr c : Nat) :
    link (setLink mem b ptr) c = if c = b then ptr else link mem c := by
  rw [link, setLink, Function.update_apply]
  split_ifs <;> rfl

/-- The heap of `total` units with the live blocks `live` and the circular list `ring` of free
blocks, from `freep` on. -/
structure HeapOk (total : Nat) (h : Heap) (live ring : List Nat) : Prop where
  freep : h.freep = ring.head?
  linked : LinkRing (link h.mem) ring
  increasing : Increasing ring
  nodup : live.Nodup
  notFree : ∀ b ∈ live, b ∉ ring
  apart : ∀ a ∈ ring ++ live, ∀ b ∈ ring ++ live, a ≠ b → Apart h.mem a b
  within : ∀ b ∈ ring ++ live, b + (h.mem b).size ≤ total
  positive : ∀ b ∈ live, 1 ≤ (h.mem b).size
  sfreep : h.sfreep = some 0
  sfree : h.sfree = { ptr := 0, size := total }

variable {total : Nat} {h : Heap} {live ring : List Nat}

theorem nunits_pos (size : UInt32) : 1 ≤ (nunits size).toNat := by
  have hlt : ((size + 8 - 1) / 8).toNat + 1 < 2 ^ 32 := by
    have hsum := (size + 8 - 1).toNat_lt
    rw [UInt32.toNat_div, show (8 : UInt32).toNat = 8 from rfl]
    omega
  rw [nunits, UInt32.toNat_add, UInt32.toNat_one, Nat.mod_eq_of_lt hlt]
  omega

theorem HeapOk.length_lt (hok : HeapOk total h live ring) : ring.length < h.rounds := by
  have hsub : ring ⊆ List.range (total + 1) := by
    intro b hb
    have := hok.within b (List.mem_append_left _ hb)
    exact List.mem_range.mpr (by omega)
  have hle := (hok.increasing.nodup.subperm hsub).length_le
  rw [List.length_range] at hle
  rw [Heap.rounds, hok.sfree]
  exact Nat.lt_succ_of_le hle

/-- Behind the block at `a`, the one at `p` is the first of at least `n` units. -/
def FirstFit (mem : Nat → MemHeader) (n a p : Nat) : Prop :=
  ∃ l, LinkPath (link mem) a l p ∧ (∀ b ∈ l, (mem b).size < n) ∧ n ≤ (mem p).size

/-- The loop of `malloc` goes along the list and finds the first block that is large enough, with
the one before it, or returns to `freep` when none is. -/
theorem mallocLoop_spec {mem : Nat → MemHeader} {freep n : Nat} (l : List Nat) :
    ∀ (k prevp : Nat), LinkPath (link mem) prevp l freep → freep ∉ l → l.length < k →
      (mallocLoop mem freep n k prevp = some none ∧ ∀ b ∈ l ++ [freep], (mem b).size < n) ∨
        ∃ q ∈ prevp :: l, mallocLoop mem freep n k prevp = some (some (q, link mem q)) ∧
          FirstFit mem n prevp (link mem q) := by
  induction l with
  | nil =>
    intro k prevp hpath _ hk
    obtain ⟨k, rfl⟩ : ∃ j, k = j + 1 := ⟨k - 1, by simp only [List.length_nil] at hk; omega⟩
    have hp : (mem prevp).ptr = freep := hpath
    rw [mallocLoop]
    by_cases hfits : n ≤ (mem (mem prevp).ptr).size
    · exact Or.inr ⟨prevp, List.mem_cons_self, if_pos hfits, [], rfl, by simp, hfits⟩
    · refine Or.inl ⟨by rw [if_neg hfits, if_pos hp], fun b hb => ?_⟩
      obtain rfl := List.mem_singleton.mp hb
      exact hp ▸ not_le.mp hfits
  | cons c l ih =>
    intro k prevp hpath hfreep hk
    obtain ⟨k, rfl⟩ : ∃ j, k = j + 1 := ⟨k - 1, by omega⟩
    have hp : (mem prevp).ptr = c := hpath.1
    rw [mallocLoop]
    by_cases hfits : n ≤ (mem (mem prevp).ptr).size
    · exact Or.inr ⟨prevp, List.mem_cons_self, if_pos hfits, [], rfl, by simp, hfits⟩
    · have hback : (mem prevp).ptr ≠ freep := fun heq => hfreep (heq ▸ hp ▸ List.mem_cons_self)
      have hsmall : (mem c).size < n := hp ▸ not_le.mp hfits
      rw [if_neg hfits, if_neg hback, hp]
      have hfreep' : freep ∉ l := fun hmem => hfreep (List.mem_cons_of_mem _ hmem)
      rcases ih k c hpath.2 hfreep' (Nat.lt_of_succ_lt_succ hk) with
        ⟨hnone, hall⟩ | ⟨q, hq, hsome, l', hpath', hl', hsize⟩
      · exact Or.inl ⟨hnone, List.forall_mem_cons.mpr ⟨hsmall, hall⟩⟩
      · exact Or.inr ⟨q, List.mem_cons_of_mem _ hq, hsome, c :: l', ⟨hp, hpath'⟩,
          List.forall_mem_cons.mpr ⟨hsmall, hl'⟩, hsize⟩

/-- The loop of `free` stops at the first block behind which `bp` belongs. -/
theorem freeLoop_spec {mem : Nat → MemHeader} {bp b : Nat} (l : List Nat) :
    ∀ (k p : Nat), LinkPath (link mem) p l b → l.length < k →
      (∃ a ∈ p :: l, Between a (link mem a) bp) →
      ∃ a ∈ p :: l, freeLoop mem bp k p = some a ∧ Between a (link mem a) bp := by
  induction l with
  | nil =>
    intro k p hpath hk hex
    obtain ⟨k, rfl⟩ : ∃ j, k = j + 1 := ⟨k - 1, by simp only [List.length_nil] at hk; omega⟩
    obtain ⟨a, ha, hbetween⟩ := hex
    obtain rfl := List.mem_singleton.mp ha
    refine ⟨a, ha, ?_, hbetween⟩
    rw [freeLoop]
    rcases hbetween with h | h
    · exact if_pos h
    · simp only [link] at h
      simp only [if_pos h, ite_self]
  | cons c l ih =>
    intro k p hpath hk hex
    obtain ⟨k, rfl⟩ : ∃ j, k = j + 1 := ⟨k - 1, by omega⟩
    by_cases hbetween : Between p (link mem p) bp
    · refine ⟨p, List.mem_cons_self, ?_, hbetween⟩
      rw [freeLoop]
      rcases hbetween with h | h
      · exact if_pos h
      · simp only [link] at h
        simp only [if_pos h, ite_self]
    · have hrest : ∃ a ∈ c :: l, Between a (link mem a) bp := by
        obtain ⟨a, ha, hab⟩ := hex
        rcases List.mem_cons.mp ha with rfl | ha
        · exact absurd hab hbetween
        · exact ⟨a, ha, hab⟩
      obtain ⟨a, ha, hloop, hab⟩ := ih k c hpath.2 (Nat.lt_of_succ_lt_succ hk) hrest
      refine ⟨a, List.mem_cons_of_mem _ ha, ?_, hab⟩
      have hp : (mem p).ptr = c := hpath.1
      simp only [Between, link, not_or] at hbetween
      rw [freeLoop, if_neg hbetween.1, if_neg hbetween.2, hp, hloop]

/-! ### Changes of the list -/

theorem HeapOk.rotate (hok : HeapOk total h live ring) {ring' : List Nat} (hr : ring ~r ring') :
    HeapOk total { h with freep := ring'.head? } live ring' := by
  have hmem : ∀ b, b ∈ ring' ++ live ↔ b ∈ ring ++ live := by
    intro b
    rw [List.mem_append, List.mem_append, hr.mem_iff]
  constructor
  · rfl
  · exact hok.linked.isRotated hr
  · exact hok.increasing.isRotated hr
  · exact hok.nodup
  · exact fun b hb hmem => hok.notFree b hb (hr.mem_iff.mpr hmem)
  · exact fun a ha b hb => hok.apart a ((hmem a).mp ha) b ((hmem b).mp hb)
  · exact fun b hb => hok.within b ((hmem b).mp hb)
  · exact hok.positive
  · exact hok.sfreep
  · exact hok.sfree

theorem HeapOk.take {q p : Nat} {t : List Nat} (hok : HeapOk total h live (q :: p :: t))
    (hpos : 1 ≤ (h.mem p).size) :
    HeapOk total { h with mem := setLink h.mem q (h.mem p).ptr } (p :: live) (q :: t) := by
  have hnodup := List.nodup_cons.mp hok.increasing.nodup
  have hq : q ∉ t := fun hmem => hnodup.1 (List.mem_cons_of_mem _ hmem)
  have hqp : p ≠ q := fun heq => hnodup.1 (heq ▸ List.mem_cons_self)
  have hpt : p ∉ t := (List.nodup_cons.mp hnodup.2).1
  have hmem_iff : ∀ b, b ∈ (q :: t) ++ (p :: live) → b ∈ (q :: p :: t) ++ live := by
    intro b hb
    simp only [List.mem_append, List.mem_cons] at hb ⊢
    tauto
  constructor
  · exact hok.freep
  · refine LinkPath.start (c := p) hok.linked.2 ?_ fun x hx => ?_
    · rw [link_setLink, if_pos rfl, link]
    · have hxq : x ≠ q := fun heq => hq (heq ▸ hx)
      rw [link_setLink, if_neg hxq]
  · exact hok.increasing.remove
  · exact List.nodup_cons.mpr ⟨fun hl => hok.notFree p hl (by simp), hok.nodup⟩
  · intro b hb
    rcases List.mem_cons.mp hb with rfl | hb
    · simp [hqp, hpt]
    · have hnot := hok.notFree b hb
      simp only [List.mem_cons, not_or] at hnot ⊢
      exact ⟨hnot.1, hnot.2.2⟩
  · intro a ha b hb hne
    simpa only [Apart, setLink_size] using hok.apart a (hmem_iff a ha) b (hmem_iff b hb) hne
  · intro b hb
    rw [setLink_size]
    exact hok.within b (hmem_iff b hb)
  · intro b hb
    rw [setLink_size]
    rcases List.mem_cons.mp hb with rfl | hb
    · exact hpos
    · exact hok.positive b hb
  · exact hok.sfreep
  · exact hok.sfree

/-- No block starts inside another one. -/
theorem HeapOk.ne_offset {p offset : Nat} (hok : HeapOk total h live ring) (hp : p ∈ ring ++ live)
    (hpos : 1 ≤ offset) (hlt : offset < (h.mem p).size) : ∀ b ∈ ring ++ live, b ≠ p + offset := by
  rintro b hb rfl
  have := hok.apart p hp _ hb (by omega)
  simp only [Apart] at this
  omega

theorem HeapOk.ne_inside {p n : Nat} (hok : HeapOk total h live ring) (hp : p ∈ ring ++ live)
    (hn : 1 ≤ n) (hlt : n < (h.mem p).size) :
    ∀ b ∈ ring ++ live, b ≠ p + ((h.mem p).size - n) :=
  hok.ne_offset hp (by omega) (by omega)

section

variable {mem mem' : Nat → MemHeader} {p u n : Nat}
  (hmem : mem' = Function.update mem p { mem p with size := (mem p).size - n })

include hmem

/-- Cutting `n` units off the block at `p`, as a block at `u`, leaves the links as they are. -/
theorem link_cut (b : Nat) :
    link (Function.update mem' u { mem' u with size := n }) b = link mem b := by
  have hlower : link mem' b = link mem b := by
    rw [link, hmem, Function.update_apply]
    split_ifs with hbp
    · rw [hbp]
      rfl
    · rfl
  rw [link, Function.update_apply]
  split_ifs with hbu
  · rw [← hlower, hbu]
    rfl
  · exact hlower

theorem size_cut (b : Nat) :
    (Function.update mem' u { mem' u with size := n } b).size =
      if b = u then n else if b = p then (mem p).size - n else (mem b).size := by
  simp only [hmem, Function.update_apply]
  split_ifs <;> rfl

end

/-- The block at `p` stays on the list with its lower units, and the upper `n` are a live block. -/
theorem HeapOk.split {p n : Nat} (hok : HeapOk total h live ring) (hp : p ∈ ring) (hn : 1 ≤ n)
    (hlt : n < (h.mem p).size) {mem : Nat → MemHeader}
    (hmem : mem = Function.update h.mem p { h.mem p with size := (h.mem p).size - n }) :
    HeapOk total { h with
      mem := Function.update mem (p + ((h.mem p).size - n))
        { mem (p + ((h.mem p).size - n)) with size := n } }
      ((p + ((h.mem p).size - n)) :: live) ring := by
  set u := p + ((h.mem p).size - n) with hu
  set mem' := Function.update mem u { mem u with size := n } with hmem'
  have hup : u ≠ p := by omega
  have hsize : ∀ b, b ≠ p → b ≠ u → (mem' b).size = (h.mem b).size := by
    intro b hbp hbu
    rw [hmem', size_cut hmem, if_neg hbu, if_neg hbp]
  have hsize_p : (mem' p).size = (h.mem p).size - n := by
    rw [hmem', size_cut hmem, if_neg hup.symm, if_pos rfl]
  have hsize_u : (mem' u).size = n := by rw [hmem', size_cut hmem, if_pos rfl]
  have hpin : p ∈ ring ++ live := List.mem_append_left _ hp
  have hfresh : ∀ b ∈ ring ++ live, b ≠ u := hok.ne_inside hpin hn hlt
  have hold : ∀ b ∈ ring ++ (u :: live), b = u ∨ b ∈ ring ++ live := by
    intro b hb
    simp only [List.mem_append, List.mem_cons] at hb ⊢
    tauto
  have hbounds : ∀ b ∈ ring ++ live, b ≠ p → Apart mem' p b ∧ Apart mem' u b := by
    intro b hb hbp
    have := hok.apart p hpin b hb hbp.symm
    simp only [Apart, hsize_p, hsize_u, hsize b hbp (hfresh b hb)] at this ⊢
    omega
  constructor
  · exact hok.freep
  · rw [hmem', funext (link_cut hmem)]
    exact hok.linked
  · exact hok.increasing
  · exact List.nodup_cons.mpr ⟨fun hl => hfresh u (List.mem_append_right _ hl) rfl, hok.nodup⟩
  · intro b hb hr
    rcases List.mem_cons.mp hb with rfl | hb
    · exact hfresh u (List.mem_append_left _ hr) rfl
    · exact hok.notFree b hb hr
  · have hpu : Apart mem' p u := by
      simp only [Apart, hsize_p, hsize_u]
      omega
    have hrest : ∀ a ∈ ring ++ live, ∀ b ∈ ring ++ live, a ≠ b → Apart mem' a b :=
      apart_of_others (fun b hb hbp => (hbounds b hb hbp).1) fun a ha b hb hap hbp hne => by
        have := hok.apart a ha b hb hne
        simpa only [Apart, hsize a hap (hfresh a ha), hsize b hbp (hfresh b hb)] using this
    refine apart_of_others (p := u) (fun b hb hbu => ?_) fun a ha b hb hau hbu => ?_
    · by_cases hbp : b = p
      · exact hbp ▸ hpu.symm
      · exact (hbounds b ((hold b hb).resolve_left hbu) hbp).2
    · exact hrest a ((hold a ha).resolve_left hau) b ((hold b hb).resolve_left hbu)
  · have hwithin := hok.within p hpin
    intro b hb
    rcases hold b hb with rfl | hb
    · rw [hsize_u]
      omega
    · by_cases hbp : b = p
      · subst hbp
        rw [hsize_p]
        omega
      · rw [hsize b hbp (hfresh b hb)]
        exact hok.within b hb
  · intro b hb
    rcases List.mem_cons.mp hb with rfl | hb
    · rw [hsize_u]
      exact hn
    · have hbp : b ≠ p := fun heq => hok.notFree b hb (heq ▸ hp)
      rw [hsize b hbp (hfresh b (List.mem_append_right _ hb))]
      exact hok.positive b hb
  · exact hok.sfreep
  · exact hok.sfree

theorem HeapOk.linkIn {a bp : Nat} {t : List Nat} (hok : HeapOk total h live (a :: t))
    (hbp : bp ∈ live) (hbetween : Between a (link h.mem a) bp) :
    HeapOk total { h with mem := setLink (setLink h.mem bp (link h.mem a)) a bp }
      (live.erase bp) (a :: bp :: t) := by
  have hfree := hok.notFree bp hbp
  have hne : bp ≠ a := fun heq => hfree (heq ▸ List.mem_cons_self)
  have hbpt : bp ∉ t := fun hmem => hfree (List.mem_cons_of_mem _ hmem)
  have hat : a ∉ t := (List.nodup_cons.mp hok.increasing.nodup).1
  have hpath : LinkPath (link h.mem) a t a := hok.linked
  have hmem_iff : ∀ b, b ∈ (a :: bp :: t) ++ live.erase bp → b ∈ (a :: t) ++ live := by
    intro b hb
    simp only [List.mem_append, List.mem_cons] at hb ⊢
    rcases hb with (rfl | rfl | hb) | hb
    · exact Or.inl (Or.inl rfl)
    · exact Or.inr hbp
    · exact Or.inl (Or.inr hb)
    · exact Or.inr (List.mem_of_mem_erase hb)
  constructor
  · exact hok.freep
  · refine ⟨by rw [link_setLink, if_pos rfl], hpath.start ?_ fun x hx => ?_⟩
    · rw [link_setLink, if_neg hne, link_setLink, if_pos rfl]
    · have hxa : x ≠ a := fun heq => hat (heq ▸ hx)
      have hxbp : x ≠ bp := fun heq => hbpt (heq ▸ hx)
      rw [link_setLink, if_neg hxa, link_setLink, if_neg hxbp]
  · apply hok.increasing.insert
    cases t with
    | nil =>
      have hnext : link h.mem a = a := hpath
      rwa [hnext] at hbetween
    | cons c t =>
      have hnext : link h.mem a = c := hpath.1
      rwa [hnext] at hbetween
  · exact hok.nodup.erase bp
  · intro b hb
    have hb' := (hok.nodup.mem_erase_iff).mp hb
    have hnot := hok.notFree b hb'.2
    simp only [List.mem_cons, not_or] at hnot ⊢
    exact ⟨hnot.1, hb'.1, hnot.2⟩
  · intro x hx y hy hxy
    simpa only [Apart, setLink_size] using hok.apart x (hmem_iff x hx) y (hmem_iff y hy) hxy
  · intro b hb
    rw [setLink_size, setLink_size]
    exact hok.within b (hmem_iff b hb)
  · intro b hb
    rw [setLink_size, setLink_size]
    exact hok.positive b (List.mem_of_mem_erase hb)
  · exact hok.sfreep
  · exact hok.sfree

theorem HeapOk.join {x y : Nat} {t : List Nat} (hok : HeapOk total h live (x :: y :: t))
    (htouch : x + (h.mem x).size = y) :
    HeapOk total { h with
      mem := Function.update h.mem x
        { ptr := (h.mem y).ptr, size := (h.mem x).size + (h.mem y).size } }
      live (x :: t) := by
  have hnodup := List.nodup_cons.mp hok.increasing.nodup
  have hxt : x ∉ t := fun hmem => hnodup.1 (List.mem_cons_of_mem _ hmem)
  have hyt : y ∉ t := (List.nodup_cons.mp hnodup.2).1
  set mem := Function.update h.mem x
    { ptr := (h.mem y).ptr, size := (h.mem x).size + (h.mem y).size } with hmem
  have hsize : ∀ b, b ≠ x → (mem b).size = (h.mem b).size := by
    intro b hb
    simp [hmem, hb]
  have hsize_x : (mem x).size = (h.mem x).size + (h.mem y).size := by simp [hmem]
  have hin : ∀ b ∈ (x :: t) ++ live, b ∈ (x :: y :: t) ++ live ∧ b ≠ y := by
    intro b hb
    have hxy : x ≠ y := fun heq => hnodup.1 (heq ▸ List.mem_cons_self)
    simp only [List.mem_append, List.mem_cons] at hb ⊢
    rcases hb with (rfl | hb) | hb
    · exact ⟨Or.inl (Or.inl rfl), hxy⟩
    · exact ⟨Or.inl (Or.inr (Or.inr hb)), fun heq => hyt (heq ▸ hb)⟩
    · exact ⟨Or.inr hb, fun heq => hok.notFree b hb (heq ▸ by simp)⟩
  have hbounds : ∀ b ∈ (x :: t) ++ live, b ≠ x → Apart mem x b := by
    intro b hb hbx
    obtain ⟨hmem_b, hby⟩ := hin b hb
    have h1 := hok.apart x (by simp) b hmem_b hbx.symm
    have h2 := hok.apart y (by simp) b hmem_b hby.symm
    simp only [Apart, hsize_x, hsize b hbx] at h1 h2 ⊢
    omega
  constructor
  · exact hok.freep
  · refine LinkPath.start (c := y) hok.linked.2 ?_ fun z hz => ?_
    · simp [link, hmem]
    · simp [link, hmem, show z ≠ x from fun heq => hxt (heq ▸ hz)]
  · exact hok.increasing.remove
  · exact hok.nodup
  · exact fun b hb hr => hok.notFree b hb (by
      rcases List.mem_cons.mp hr with rfl | hr
      · exact List.mem_cons_self
      · exact List.mem_cons_of_mem _ (List.mem_cons_of_mem _ hr))
  · refine apart_of_others hbounds fun a ha b hb hax hbx hne => ?_
    have := hok.apart a (hin a ha).1 b (hin b hb).1 hne
    simpa only [Apart, hsize a hax, hsize b hbx] using this
  · intro b hb
    by_cases hbx : b = x
    · have := hok.within y (by simp)
      subst hbx
      rw [hsize_x]
      omega
    · rw [hsize b hbx]
      exact hok.within b (hin b hb).1
  · intro b hb
    have hbx : b ≠ x := fun heq => hok.notFree b hb (heq ▸ List.mem_cons_self)
    rw [hsize b hbx]
    exact hok.positive b hb
  · exact hok.sfreep
  · exact hok.sfree

/-! ### The two operations -/

/-- `malloc` would take all of the only free block. -/
def TakesOnlyBlock (h : Heap) (size : UInt32) : Prop :=
  ∃ f ∈ h.freep, link h.mem f = f ∧ (h.mem f).size = (nunits size).toNat

instance (h : Heap) (size : UInt32) : Decidable (TakesOnlyBlock h size) :=
  inferInstanceAs (Decidable (∃ _ ∈ _, _))

/-- `free` would join the block at `bp` to the only free block, behind it. -/
def MeetsOnlyBlock (h : Heap) (bp : Nat) : Prop :=
  ∃ f ∈ h.freep, link h.mem f = f ∧ bp + (h.mem bp).size = f

instance (h : Heap) (bp : Nat) : Decidable (MeetsOnlyBlock h bp) :=
  inferInstanceAs (Decidable (∃ _ ∈ _, _))

theorem HeapOk.cases (hok : HeapOk total h live ring) :
    ∃ f t, ring = f :: t ∧ h.freep = some f ∧ LinkPath (link h.mem) f t f := by
  cases ring with
  | nil => exact absurd hok.linked id
  | cons f t => exact ⟨f, t, rfl, hok.freep, hok.linked⟩

/-- How `malloc` returns: with `NULL` when no free block is large enough, and otherwise with a block
from the first one that is. -/
theorem HeapOk.malloc_cases (hok : HeapOk total h live ring) (size : UInt32) :
    (malloc h size = some (none, h) ∧ ∀ b ∈ ring, (h.mem b).size < (nunits size).toNat) ∨
    ∃ f ∈ h.freep, ∃ q t p, ring ~r q :: t ∧ link h.mem q = p ∧
      FirstFit h.mem (nunits size).toNat f p ∧
      malloc h size = some (
        if (h.mem p).size = (nunits size).toNat then
          (some (p + 1), { h with mem := setLink h.mem q (h.mem p).ptr, freep := some q })
        else
          let u := p + ((h.mem p).size - (nunits size).toNat)
          let mem := Function.update h.mem p
            { h.mem p with size := (h.mem p).size - (nunits size).toNat }
          (some (u + 1), { h with
            mem := Function.update mem u { mem u with size := (nunits size).toNat }
            freep := some q })) := by
  obtain ⟨f, t, rfl, hfreep, hpath⟩ := hok.cases
  have hf : f ∉ t := (List.nodup_cons.mp hok.increasing.nodup).1
  have hrounds : t.length < h.rounds := Nat.lt_of_succ_lt hok.length_lt
  rcases mallocLoop_spec (n := (nunits size).toNat) t h.rounds f hpath hf hrounds with
    ⟨hloop, hall⟩ | ⟨q, hq, hloop, hfirst⟩
  · refine Or.inl ⟨by simp only [Kernel.malloc, hfreep, hloop], fun b hb => hall b ?_⟩
    rcases List.mem_cons.mp hb with rfl | hb
    · simp
    · exact List.mem_append_left _ hb
  · obtain ⟨t', hr⟩ := isRotated_cons_of_mem hq
    refine Or.inr ⟨f, hfreep, q, t', _, hr, rfl, hfirst, ?_⟩
    simp only [Kernel.malloc, hfreep, hloop]
    split_ifs <;> rfl

/-- A property of well-formed heaps that does not depend on where the list starts. -/
structure HeapInvariant (total : Nat) (P : Heap → List Nat → List Nat → Prop) : Prop where
  ok {h : Heap} {live ring : List Nat} : P h live ring → HeapOk total h live ring
  rotate {h : Heap} {live ring ring' : List Nat} : P h live ring → ring ~r ring' →
    P { h with freep := ring'.head? } live ring'

/-- The changes of `malloc` keep the property. -/
structure MallocInvariant (total : Nat) (P : Heap → List Nat → List Nat → Prop) : Prop
    extends HeapInvariant total P where
  take {h : Heap} {live t : List Nat} {q p : Nat} : P h live (q :: p :: t) → 1 ≤ (h.mem p).size →
    P { h with mem := setLink h.mem q (h.mem p).ptr } (p :: live) (q :: t)
  split {h : Heap} {live ring : List Nat} {p n : Nat} : P h live ring → p ∈ ring → 1 ≤ n →
    n < (h.mem p).size → ∀ {mem : Nat → MemHeader},
    mem = Function.update h.mem p { h.mem p with size := (h.mem p).size - n } →
    P { h with
        mem := Function.update mem (p + ((h.mem p).size - n))
          { mem (p + ((h.mem p).size - n)) with size := n } }
      ((p + ((h.mem p).size - n)) :: live) ring

/-- The changes of `free` keep the property. -/
structure FreeInvariant (total : Nat) (P : Heap → List Nat → List Nat → Prop) : Prop
    extends HeapInvariant total P where
  linkIn {h : Heap} {live t : List Nat} {a bp : Nat} : P h live (a :: t) → bp ∈ live →
    Between a (link h.mem a) bp →
    P { h with mem := setLink (setLink h.mem bp (link h.mem a)) a bp }
      (live.erase bp) (a :: bp :: t)
  join {h : Heap} {live t : List Nat} {x y : Nat} : P h live (x :: y :: t) →
    x + (h.mem x).size = y →
    P { h with
        mem := Function.update h.mem x
          { ptr := (h.mem y).ptr, size := (h.mem x).size + (h.mem y).size } } live (x :: t)

theorem HeapOk.invariant (total : Nat) : HeapInvariant total (HeapOk total) where
  ok := id
  rotate hok hr := hok.rotate hr

theorem HeapOk.mallocInvariant (total : Nat) : MallocInvariant total (HeapOk total) where
  toHeapInvariant := HeapOk.invariant total
  take := HeapOk.take
  split := HeapOk.split

theorem HeapOk.freeInvariant (total : Nat) : FreeInvariant total (HeapOk total) where
  toHeapInvariant := HeapOk.invariant total
  linkIn := HeapOk.linkIn
  join := HeapOk.join

section

variable {P : Heap → List Nat → List Nat → Prop}

theorem MallocInvariant.malloc (I : MallocInvariant total P) (hP : P h live ring) {size : UInt32}
    (hnot : ¬TakesOnlyBlock h size) :
    ∃ r h', Kernel.malloc h size = some (r, h') ∧
      ∃ ring', P h' (r.elim live fun ptr => (ptr - 1) :: live) ring' := by
  have hok := I.ok hP
  rcases hok.malloc_cases size with ⟨hcall, _⟩ | ⟨f, hf, q, t, p, hr, hp, ⟨l, _, _, hfits⟩, hcall⟩
  · exact ⟨none, h, hcall, ring, hP⟩
  have hP' := I.rotate hP hr
  have hpath : LinkPath (link h.mem) q t q := (I.ok hP').linked
  by_cases hexact : (h.mem p).size = (nunits size).toNat
  · rw [if_pos hexact] at hcall
    refine ⟨_, _, hcall, q :: t.tail, ?_⟩
    cases t with
    | nil =>
      -- the block found is the only one
      have hpq : p = q := hp.symm.trans hpath
      have hfq : f = q := by
        have hring : ring = [q] := List.isRotated_singleton_iff.mp hr
        have hhead : h.freep = some q := by rw [hok.freep, hring]; rfl
        exact Option.some.inj (hf.symm.trans hhead)
      exact absurd ⟨f, hf, hfq ▸ hp.trans hpq, hfq ▸ hpq ▸ hexact⟩ hnot
    | cons c t =>
      obtain rfl : c = p := hpath.1.symm.trans hp
      exact I.take hP' (hexact ▸ nunits_pos size)
  · rw [if_neg hexact] at hcall
    have hlt : (nunits size).toNat < (h.mem p).size := Nat.lt_of_le_of_ne hfits (Ne.symm hexact)
    have hmem : p ∈ q :: t := hp ▸ hpath.mem_next List.mem_cons_self
    exact ⟨_, _, hcall, q :: t, I.split hP' hmem (nunits_pos size) hlt rfl⟩

/-- The first half of `free` and the link of `a` to the block do the same as linking the block in
and joining it to the one behind it. -/
theorem setLink_joinUpper {mem : Nat → MemHeader} {a bp : Nat} (hne : bp ≠ a)
    (htouch : bp + (mem bp).size = link mem a) :
    setLink (joinUpper mem a bp) a bp =
      Function.update (setLink (setLink mem bp (link mem a)) a bp) bp
        { ptr := (mem (link mem a)).ptr, size := (mem bp).size + (mem (link mem a)).size } := by
  have hupper : joinUpper mem a bp = Function.update mem bp
      { ptr := (mem (link mem a)).ptr, size := (mem bp).size + (mem (link mem a)).size } :=
    if_pos htouch
  rw [hupper]
  funext b
  by_cases hba : b = a
  · subst hba
    simp [setLink, hne.symm]
  · by_cases hbbp : b = bp
    · subst hbbp
      simp [setLink, hba]
    · simp [setLink, hba, hbbp]

/-- The block is on the list, joined to the one behind it when it touches it. -/
theorem FreeInvariant.freeUpper (I : FreeInvariant total P) {a bp : Nat} {t : List Nat}
    (hP : P h live (a :: t))
    (hbp : bp ∈ live) (hbetween : Between a (link h.mem a) bp)
    (hnot : t = [] → bp + (h.mem bp).size ≠ a) :
    P { h with mem := setLink (joinUpper h.mem a bp) a bp } (live.erase bp)
      (a :: bp :: if bp + (h.mem bp).size = link h.mem a then t.tail else t) := by
  have hok := I.ok hP
  have hfree := hok.notFree bp hbp
  have hne : bp ≠ a := fun heq => hfree (heq ▸ List.mem_cons_self)
  have hlinked := I.linkIn hP hbp hbetween
  by_cases htouch : bp + (h.mem bp).size = link h.mem a
  · rw [if_pos htouch]
    cases t with
    | nil =>
      have hself : link h.mem a = a := hok.linked
      exact absurd (htouch.trans hself) (hnot rfl)
    | cons q t =>
      have hq : link h.mem a = q := hok.linked.1
      have hqa : q ≠ a := fun heq =>
        (List.nodup_cons.mp hok.increasing.nodup).1 (heq ▸ List.mem_cons_self)
      have hqbp : q ≠ bp := fun heq => hfree (heq ▸ by simp)
      -- seen from the block, the one behind it is joined to it
      have hturn : a :: bp :: q :: t ~r bp :: q :: (t ++ [a]) := ⟨1, by simp⟩
      have hturned := I.rotate hlinked hturn
      have hjoin := I.join hturned (by simpa [hq] using htouch)
      have hback : bp :: (t ++ [a]) ~r a :: bp :: t := by
        have hrot : (bp :: t) ++ [a] ~r [a] ++ (bp :: t) := List.isRotated_append
        simpa using hrot
      have hfinal := I.rotate hjoin hback
      have hq_same : setLink (setLink h.mem bp q) a bp q = h.mem q := by
        simp [setLink, hqa, hqbp]
      simp only [setLink_size, hq, hq_same] at hfinal
      rw [setLink_joinUpper hne htouch, hq]
      have hfreep : h.freep = some a := hok.freep
      simpa only [List.head?_cons, List.tail_cons, ← hfreep] using hfinal
  · rw [if_neg htouch]
    have hupper : joinUpper h.mem a bp = setLink h.mem bp (link h.mem a) := if_neg htouch
    rw [hupper]
    exact hlinked

/-- The block goes behind the free block `a`, with the blocks that it touches joined to it. -/
theorem FreeInvariant.free (I : FreeInvariant total P) {bp : Nat} (hP : P h live ring)
    (hbp : bp ∈ live)
    (hnot : ¬MeetsOnlyBlock h bp) :
    ∃ a t, ring ~r a :: t ∧ Between a (link h.mem a) bp ∧ ∃ h', Kernel.free h (bp + 1) = some h' ∧
      h'.mem = joinLower (joinUpper h.mem a bp) a bp ∧
      P h' (live.erase bp) ((if a + (h.mem a).size = bp then [a] else [a, bp]) ++
        if bp + (h.mem bp).size = link h.mem a then t.tail else t) := by
  have hok := I.ok hP
  obtain ⟨f, t₀, rfl, hfreep, hpath⟩ := hok.cases
  have hrounds : t₀.length < h.rounds := Nat.lt_of_succ_lt hok.length_lt
  obtain ⟨a, ha, hloop, hbetween⟩ := freeLoop_spec t₀ h.rounds f hpath hrounds
    (hok.increasing.exists_between hok.linked (hok.notFree bp hbp))
  obtain ⟨t, hr⟩ := isRotated_cons_of_mem ha
  have hP' := I.rotate hP hr
  have hne : bp ≠ a := fun heq => hok.notFree bp hbp (heq ▸ ha)
  refine ⟨a, t, hr, hbetween, _,
    by simp only [Kernel.free, hfreep, Nat.add_sub_cancel, hloop]; rfl, rfl, ?_⟩
  have hjoined := I.freeUpper hP' hbp hbetween (by
    rintro rfl htouch
    have hself : link h.mem a = a := (I.ok hP').linked
    have hfa : f = a := by
      have hmem : f ∈ [a] := hr.mem_iff.mp List.mem_cons_self
      simpa using hmem
    exact hnot ⟨f, hfreep, hfa ▸ hself, hfa ▸ htouch⟩)
  have hsize : (joinUpper h.mem a bp a).size = (h.mem a).size := by
    simp only [joinUpper]
    split_ifs
    · rw [Function.update_of_ne hne.symm]
    · rw [setLink_size]
  by_cases hlower : a + (h.mem a).size = bp
  · have hjoin := I.join hjoined (by simp only [setLink_size, hsize]; exact hlower)
    have hupdate : ∀ m : MemHeader,
        Function.update (setLink (joinUpper h.mem a bp) a bp) a m =
          Function.update (joinUpper h.mem a bp) a m := fun m => Function.update_idem _ _ _
    have hbp_same : setLink (joinUpper h.mem a bp) a bp bp = joinUpper h.mem a bp bp := by
      simp [setLink, hne]
    rw [joinLower, if_pos (hsize ▸ hlower), if_pos hlower]
    simp only [hupdate, hbp_same, setLink_size] at hjoin
    exact hjoin
  · rw [joinLower, if_neg (hsize ▸ hlower), if_neg hlower]
    exact hjoined

end

/-! ### Runs -/

/-- The heap with the blocks that were allocated and not freed. -/
structure HeapRun where
  heap : Heap
  live : List Nat

/-- A call of `malloc`, of `free` for one of the live blocks, a write by the owner of a live block
behind its header, or a call of `HeapInit`, which gives up all blocks. -/
inductive HeapEvent
  | malloc (size : UInt32)
  | free (i : Nat)
  | write (i offset : Nat) (value : MemHeader)
  | init (len : UInt32)
  deriving DecidableEq, Repr

def heapStep (s : HeapRun) : HeapEvent → Option HeapRun
  | .malloc size =>
    (malloc s.heap size).map fun r =>
      { heap := r.2, live := r.1.elim s.live fun ptr => (ptr - 1) :: s.live }
  | .free i =>
    match s.live[i]? with
    | none => some s
    | some bp => (free s.heap (bp + 1)).map fun h => { heap := h, live := s.live.erase bp }
  | .write i offset value =>
    match s.live[i]? with
    | none => some s
    | some bp =>
      if 1 ≤ offset ∧ offset < (s.heap.mem bp).size then
        some { s with heap := { s.heap with
          mem := Function.update s.heap.mem (bp + offset) value } }
      else some s
  | .init len => some { heap := heapInit len s.heap, live := [] }

/-- The condition on a step: the list keeps a block of its own. -/
def KeepsFreeBlock (s : HeapRun) : HeapEvent → Prop
  | .malloc size => ¬TakesOnlyBlock s.heap size
  | .free i => ∀ bp ∈ s.live[i]?, ¬MeetsOnlyBlock s.heap bp
  | _ => True

instance (s : HeapRun) : (e : HeapEvent) → Decidable (KeepsFreeBlock s e)
  | .malloc _ => inferInstanceAs (Decidable (¬_))
  | .free _ => inferInstanceAs (Decidable (∀ _ ∈ _, ¬_))
  | .write .. | .init _ => isTrue trivial

/-- The heap is one free block. -/
theorem HeapOk.fresh (hfreep : h.freep = some 0) (hmem : h.mem 0 = { ptr := 0, size := total })
    (hsfreep : h.sfreep = some 0) (hsfree : h.sfree = { ptr := 0, size := total }) :
    HeapOk total h [] [0] := by
  constructor
  · exact hfreep
  · simp [LinkRing, LinkPath, link, hmem]
  · exact ⟨[0], List.pairwise_singleton _ _, List.IsRotated.refl _⟩
  · exact List.nodup_nil
  · simp
  · simp
  · simp [hmem]
  · simp
  · exact hsfreep
  · exact hsfree

theorem heapInit_first (len : UInt32) (h : Heap) (hfirst : h.freep = none) :
    HeapOk (nunits len - 1).toNat (heapInit len h) [] [0] := by
  have hinit : heapInit len h = {
      mem := Function.update h.mem 0 ⟨0, (nunits len - 1).toNat⟩
      freep := some 0
      sfreep := some 0
      sfree := ⟨0, (nunits len - 1).toNat⟩ } := by
    simp only [heapInit, hfirst]
  rw [hinit]
  exact HeapOk.fresh rfl (Function.update_self 0 _ h.mem) rfl rfl

theorem HeapOk.init (hok : HeapOk total h live ring) (len : UInt32) :
    HeapOk total (heapInit len h) [] [0] := by
  obtain ⟨f, t, rfl, hfreep, hpath⟩ := hok.cases
  have hinit : heapInit len h = { h with
      freep := some 0, mem := Function.update h.mem 0 ⟨0, total⟩ } := by
    simp only [heapInit, hfreep, hok.sfreep, hok.sfree]
  rw [hinit]
  exact HeapOk.fresh rfl (Function.update_self 0 _ h.mem) hok.sfreep hok.sfree

theorem HeapOk.write {bp offset : Nat} (hok : HeapOk total h live ring) (hbp : bp ∈ live)
    (hpos : 1 ≤ offset) (hlt : offset < (h.mem bp).size) (value : MemHeader) :
    HeapOk total { h with mem := Function.update h.mem (bp + offset) value } live ring := by
  have hsame : ∀ b ∈ ring ++ live, Function.update h.mem (bp + offset) value b = h.mem b :=
    fun b hb => Function.update_of_ne
      (hok.ne_offset (List.mem_append_right _ hbp) hpos hlt b hb) _ _
  obtain ⟨f, t, rfl, hfreep, hpath⟩ := hok.cases
  constructor
  · exact hok.freep
  · refine hpath.congr fun x hx => ?_
    exact congrArg MemHeader.ptr (hsame x (List.mem_append_left _ hx))
  · exact hok.increasing
  · exact hok.nodup
  · exact hok.notFree
  · intro a ha b hb hne
    simpa only [Apart, hsame a ha, hsame b hb] using hok.apart a ha b hb hne
  · intro b hb
    simpa only [hsame b hb] using hok.within b hb
  · intro b hb
    simpa only [hsame b (List.mem_append_right _ hb)] using hok.positive b hb
  · exact hok.sfreep
  · exact hok.sfree

theorem HeapOk.step {s : HeapRun} (hok : HeapOk total s.heap s.live ring) (e : HeapEvent)
    (hkeeps : KeepsFreeBlock s e) :
    ∃ t, heapStep s e = some t ∧ ∃ ring', HeapOk total t.heap t.live ring' := by
  cases e with
  | malloc size =>
    obtain ⟨r, h', hcall, ring', hok'⟩ := (HeapOk.mallocInvariant total).malloc hok hkeeps
    exact ⟨_, by rw [heapStep, hcall]; rfl, ring', hok'⟩
  | free i =>
    cases hi : s.live[i]? with
    | none => exact ⟨s, by simp only [heapStep, hi], ring, hok⟩
    | some bp =>
      obtain ⟨_, _, _, _, h', hcall, _, hok'⟩ :=
        (HeapOk.freeInvariant total).free hok (List.mem_of_getElem? hi) (hkeeps bp hi)
      exact ⟨⟨h', s.live.erase bp⟩, by simp only [heapStep, hi, hcall, Option.map_some], _, hok'⟩
  | write i offset value =>
    cases hi : s.live[i]? with
    | none => exact ⟨s, by simp only [heapStep, hi], ring, hok⟩
    | some bp =>
      by_cases hin : 1 ≤ offset ∧ offset < (s.heap.mem bp).size
      · exact ⟨_, by simp only [heapStep, hi, if_pos hin]; rfl, ring,
          hok.write (List.mem_of_getElem? hi) hin.1 hin.2 value⟩
      · exact ⟨s, by simp only [heapStep, hi, if_neg hin], ring, hok⟩
  | init len => exact ⟨_, rfl, [0], hok.init len⟩

/-- The blocks that can be reached from `freep`. -/
def Reachable (h : Heap) (b : Nat) : Prop := ∃ f ∈ h.freep, ∃ k, (link h.mem)^[k] f = b

/-- Live blocks overlap neither each other nor a block that can be reached from `freep`, and those
blocks form one circle in the order of their addresses, without overlaps. -/
structure HeapSafe (s : HeapRun) : Prop where
  nodup : s.live.Nodup
  live : ∀ a ∈ s.live, ∀ b ∈ s.live, a ≠ b →
    Disjoint (units s.heap.mem a) (units s.heap.mem b)
  free : ∀ a ∈ s.live, ∀ b, Reachable s.heap b →
    Disjoint (units s.heap.mem a) (units s.heap.mem b)
  list : ∃ blocks : List Nat, blocks.Pairwise (· < ·) ∧ LinkRing (link s.heap.mem) blocks ∧
    (∀ b, Reachable s.heap b ↔ b ∈ blocks) ∧
    blocks.Pairwise fun a b => Disjoint (units s.heap.mem a) (units s.heap.mem b)

theorem HeapOk.reachable_iff (hok : HeapOk total h live ring) (b : Nat) :
    Reachable h b ↔ b ∈ ring := by
  obtain ⟨f, t, rfl, hfreep, hpath⟩ := hok.cases
  rw [hok.linked.mem_iff List.mem_cons_self]
  constructor
  · rintro ⟨f', hf', hk⟩
    rw [hfreep] at hf'
    obtain rfl := Option.some.inj hf'
    exact hk
  · exact fun hk => ⟨f, hfreep, hk⟩

theorem HeapOk.safe {s : HeapRun} (hok : HeapOk total s.heap s.live ring) : HeapSafe s := by
  have hreach := hok.reachable_iff
  constructor
  · exact hok.nodup
  · intro a ha b hb hne
    exact (hok.apart a (List.mem_append_right _ ha) b (List.mem_append_right _ hb) hne).disjoint
  · intro a ha b hb
    have hmem := (hreach b).mp hb
    have hne : a ≠ b := fun heq => hok.notFree a ha (heq ▸ hmem)
    exact (hok.apart a (List.mem_append_right _ ha) b (List.mem_append_left _ hmem) hne).disjoint
  · obtain ⟨blocks, hs, hr⟩ := hok.increasing
    refine ⟨blocks, hs, hok.linked.isRotated hr.symm, fun b => (hreach b).trans hr.mem_iff.symm, ?_⟩
    refine (hs.imp_of_mem ?_)
    intro a b ha hb hlt
    have hin : ∀ c ∈ blocks, c ∈ ring ++ s.live := fun c hc =>
      List.mem_append_left _ (hr.mem_iff.mp hc)
    exact (hok.apart a (hin a ha) b (hin b hb) (ne_of_lt hlt)).disjoint

/-- From the first `HeapInit` on, a run in which no call takes all of the only free block or joins a
block to it from below is defined and leaves the heap safe. -/
theorem heap_safe (len : UInt32) (h : Heap) (hfirst : h.freep = none) (es : List HeapEvent)
    (hkeeps : Guarded heapStep KeepsFreeBlock ⟨heapInit len h, []⟩ es) :
    ∃ s, run heapStep ⟨heapInit len h, []⟩ es = some s ∧ HeapSafe s := by
  obtain ⟨s, hrun, ring, hok⟩ := run_guarded
    (P := fun s => ∃ ring, HeapOk (nunits len - 1).toNat s.heap s.live ring)
    (fun s e ⟨ring, hok⟩ he => hok.step e he) ⟨[0], heapInit_first len h hfirst⟩ hkeeps
  exact ⟨s, hrun, hok.safe⟩

/-- Memory that is all zero, before the first call of `HeapInit`. -/
def Heap.cleared : Heap where
  mem := fun _ => { ptr := 0, size := 0 }
  freep := none
  sfreep := none
  sfree := { ptr := 0, size := 0 }

theorem heap_safe_cleared :
    ∃ s, run heapStep ⟨heapInit 1024 .cleared, []⟩
        [.malloc 100, .malloc 24, .free 1, .malloc 40, .write 0 1 ⟨7, 7⟩, .free 0] = some s ∧
      HeapSafe s :=
  heap_safe 1024 .cleared rfl _ (by decide +kernel)

/-- A heap of 16 units: a request for 120 bytes takes all of it and leaves it on the list, so the
next request gets the same block. -/
theorem malloc_twice :
    ∃ s, run heapStep ⟨heapInit 128 .cleared, []⟩ [.malloc 120, .malloc 120] = some s ∧
      s.live = [0, 0] ∧ Reachable s.heap 0 ∧ ¬HeapSafe s := by
  have hrun : ∃ s, run heapStep ⟨heapInit 128 .cleared, []⟩ [.malloc 120, .malloc 120] = some s ∧
      s.live = [0, 0] ∧ s.heap.freep = some 0 := ⟨_, rfl, rfl, rfl⟩
  obtain ⟨s, hs, hlive, hfreep⟩ := hrun
  refine ⟨s, hs, hlive, ⟨0, hfreep, 0, rfl⟩, fun hsafe => ?_⟩
  have hnodup := hsafe.nodup
  rw [hlive] at hnodup
  exact absurd hnodup (by decide)

end PrplHypervisor.Kernel
