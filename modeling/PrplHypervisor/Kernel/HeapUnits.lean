import PrplHypervisor.Kernel.Malloc
import PrplHypervisor.Lib.Tiling

/-! What becomes of the units of the heap.  The free and the live blocks have all of them, and no
free block ends where another one starts, so that the free list is a single block when no block is
live. -/

namespace PrplHypervisor.Kernel

open Lib.Circular Lib.Runs Lib.Tiling

/-- The number of units of the blocks of a list. -/
def weight (mem : Nat → MemHeader) (l : List Nat) : Nat := (l.map fun b => (mem b).size).sum

variable {mem mem' : Nat → MemHeader} {l l' : List Nat}

@[simp] theorem weight_nil : weight mem [] = 0 := rfl

@[simp] theorem weight_cons (b : Nat) :
    weight mem (b :: l) = (mem b).size + weight mem l := by
  simp [weight]

theorem weight_congr (h : ∀ b ∈ l, (mem' b).size = (mem b).size) :
    weight mem' l = weight mem l := by
  rw [weight, weight, List.map_congr_left h]

theorem weight_perm (h : l.Perm l') : weight mem l = weight mem l' := (h.map _).sum_eq

@[simp] theorem weight_setLink (b ptr : Nat) : weight (setLink mem b ptr) l = weight mem l :=
  weight_congr fun c _ => setLink_size mem b ptr c

theorem weight_update (b : Nat) (m : MemHeader) (hb : b ∉ l) :
    weight (Function.update mem b m) l = weight mem l :=
  weight_congr fun c hc => by rw [Function.update_of_ne (ne_of_mem_of_not_mem hc hb)]

/-- The blocks of a heap of `total` units have all of them, and each free block has at least one. -/
structure HeapUnits (total : Nat) (h : Heap) (live ring : List Nat) : Prop
    extends HeapOk total h live ring where
  units : weight h.mem ring + weight h.mem live = total
  freePos : total = 0 ∨ ∀ b ∈ ring, 1 ≤ (h.mem b).size

variable {total : Nat} {h : Heap} {live ring t : List Nat} {a p q bp n : Nat}

theorem HeapUnits.rotate (hok : HeapUnits total h live ring) {ring' : List Nat}
    (hr : ring ~r ring') :
    HeapUnits total { h with freep := ring'.head? } live ring' where
  toHeapOk := hok.toHeapOk.rotate hr
  units := weight_perm hr.perm ▸ hok.units
  freePos := hok.freePos.imp_right fun hfree b hb => hfree b (hr.mem_iff.mpr hb)

theorem HeapUnits.take (hok : HeapUnits total h live (q :: p :: t)) (hpos : 1 ≤ (h.mem p).size) :
    HeapUnits total { h with mem := setLink h.mem q (h.mem p).ptr } (p :: live) (q :: t) where
  toHeapOk := hok.toHeapOk.take hpos
  units := by
    have hunits := hok.units
    simp only [weight_cons, weight_setLink, setLink_size] at hunits ⊢
    omega
  freePos := hok.freePos.imp_right fun hfree b hb => by
    rw [setLink_size]
    rcases List.mem_cons.mp hb with rfl | hb
    · exact hfree b List.mem_cons_self
    · exact hfree b (List.mem_cons_of_mem _ (List.mem_cons_of_mem _ hb))

theorem HeapUnits.split (hok : HeapUnits total h live ring) (hp : p ∈ ring) (hn : 1 ≤ n)
    (hlt : n < (h.mem p).size) {mem : Nat → MemHeader}
    (hmem : mem = Function.update h.mem p { h.mem p with size := (h.mem p).size - n }) :
    HeapUnits total { h with
      mem := Function.update mem (p + ((h.mem p).size - n))
        { mem (p + ((h.mem p).size - n)) with size := n } }
      ((p + ((h.mem p).size - n)) :: live) ring := by
  have hfresh := hok.ne_inside (List.mem_append_left _ hp) hn hlt
  have hring : p + ((h.mem p).size - n) ∉ ring :=
    fun hmem => hfresh _ (List.mem_append_left _ hmem) rfl
  have hlive : p + ((h.mem p).size - n) ∉ live :=
    fun hmem => hfresh _ (List.mem_append_right _ hmem) rfl
  have hp_live : p ∉ live := fun hmem => hok.notFree p hmem hp
  refine ⟨hok.toHeapOk.split hp hn hlt hmem, ?_, ?_⟩
  · have hperm := List.perm_cons_erase hp
    have herase : p ∉ ring.erase p := fun hmem =>
      (hok.increasing.nodup.mem_erase_iff.mp hmem).1 rfl
    have hunits := hok.units
    rw [weight_perm hperm, weight_cons] at hunits
    simp only [weight_cons, weight_update _ _ hring, weight_update _ _ hlive,
      Function.update_self]
    rw [hmem, weight_update _ _ hp_live, weight_perm hperm, weight_cons, weight_update _ _ herase,
      Function.update_self]
    simp only
    omega
  · refine hok.freePos.imp_right fun hfree b hb => ?_
    have hbu : b ≠ p + ((h.mem p).size - n) := fun heq => hring (heq ▸ hb)
    rw [size_cut hmem, if_neg hbu]
    split
    · omega
    · exact hfree b hb

theorem HeapUnits.linkIn (hok : HeapUnits total h live (a :: t)) (hbp : bp ∈ live)
    (hbetween : Between a (link h.mem a) bp) :
    HeapUnits total { h with mem := setLink (setLink h.mem bp (link h.mem a)) a bp }
      (live.erase bp) (a :: bp :: t) where
  toHeapOk := hok.toHeapOk.linkIn hbp hbetween
  units := by
    have hunits := hok.units
    rw [weight_perm (List.perm_cons_erase hbp)] at hunits
    simp only [weight_cons, weight_setLink, setLink_size] at hunits ⊢
    omega
  freePos := hok.freePos.imp_right fun hfree b hb => by
    rw [setLink_size, setLink_size]
    rcases List.mem_cons.mp hb with rfl | hb
    · exact hfree b List.mem_cons_self
    · rcases List.mem_cons.mp hb with rfl | hb
      · exact hok.positive b hbp
      · exact hfree b (List.mem_cons_of_mem _ hb)

theorem HeapUnits.join {x y : Nat} (hok : HeapUnits total h live (x :: y :: t))
    (htouch : x + (h.mem x).size = y) :
    HeapUnits total { h with
      mem := Function.update h.mem x
        { ptr := (h.mem y).ptr, size := (h.mem x).size + (h.mem y).size } } live (x :: t) := by
  have hx : x ∉ t := fun hmem =>
    (List.nodup_cons.mp hok.increasing.nodup).1 (List.mem_cons_of_mem _ hmem)
  have hx_live : x ∉ live := fun hmem => hok.notFree x hmem List.mem_cons_self
  refine ⟨hok.toHeapOk.join htouch, ?_, ?_⟩
  · have hunits := hok.units
    simp only [weight_cons, weight_update _ _ hx, weight_update _ _ hx_live,
      Function.update_self] at hunits ⊢
    omega
  · refine hok.freePos.imp_right fun hfree b hb => ?_
    have hfree_x := hfree x List.mem_cons_self
    rcases List.mem_cons.mp hb with rfl | hb
    · simp only [Function.update_self]
      omega
    · simp only [Function.update_of_ne (ne_of_mem_of_not_mem hb hx)]
      exact hfree b (List.mem_cons_of_mem _ (List.mem_cons_of_mem _ hb))

theorem HeapUnits.freeInvariant (total : Nat) : FreeInvariant total (HeapUnits total) where
  ok hok := hok.toHeapOk
  rotate hok hr := hok.rotate hr
  linkIn := HeapUnits.linkIn
  join := HeapUnits.join

/-- Besides, no free block ends where another one starts. -/
structure HeapTiled (total : Nat) (h : Heap) (live ring : List Nat) : Prop
    extends HeapUnits total h live ring where
  separate : ∀ x ∈ ring, ∀ y ∈ ring, x + (h.mem x).size = y → x = y

theorem HeapTiled.rotate (hok : HeapTiled total h live ring) {ring' : List Nat}
    (hr : ring ~r ring') :
    HeapTiled total { h with freep := ring'.head? } live ring' where
  toHeapUnits := hok.toHeapUnits.rotate hr
  separate x hx y hy := hok.separate x (hr.mem_iff.mpr hx) y (hr.mem_iff.mpr hy)

theorem HeapTiled.take (hok : HeapTiled total h live (q :: p :: t)) (hpos : 1 ≤ (h.mem p).size) :
    HeapTiled total { h with mem := setLink h.mem q (h.mem p).ptr } (p :: live) (q :: t) where
  toHeapUnits := hok.toHeapUnits.take hpos
  separate x hx y hy := by
    have hin : ∀ b ∈ q :: t, b ∈ q :: p :: t := by
      intro b hb
      simp only [List.mem_cons] at hb ⊢
      tauto
    rw [setLink_size]
    exact hok.separate x (hin x hx) y (hin y hy)

theorem HeapTiled.split (hok : HeapTiled total h live ring) (hp : p ∈ ring) (hn : 1 ≤ n)
    (hlt : n < (h.mem p).size) {mem : Nat → MemHeader}
    (hmem : mem = Function.update h.mem p { h.mem p with size := (h.mem p).size - n }) :
    HeapTiled total { h with
      mem := Function.update mem (p + ((h.mem p).size - n))
        { mem (p + ((h.mem p).size - n)) with size := n } }
      ((p + ((h.mem p).size - n)) :: live) ring := by
  have hfresh := hok.ne_inside (List.mem_append_left _ hp) hn hlt
  refine ⟨hok.toHeapUnits.split hp hn hlt hmem, fun x hx y hy hend => ?_⟩
  rw [size_cut hmem, if_neg (hfresh x (List.mem_append_left _ hx))] at hend
  by_cases hxp : x = p
  · rw [if_pos hxp, hxp] at hend
    exact absurd hend.symm (hfresh y (List.mem_append_left _ hy))
  · rw [if_neg hxp] at hend
    exact hok.separate x hx y hy hend

theorem HeapTiled.mallocInvariant (total : Nat) : MallocInvariant total (HeapTiled total) where
  ok hok := hok.toHeapOk
  rotate hok hr := hok.rotate hr
  take := HeapTiled.take
  split := HeapTiled.split

/-- The sizes after `free` has put `bp` behind `a`. -/
theorem joined_size {mem : Nat → MemHeader} (hne : bp ≠ a) (b : Nat) :
    (joinLower (joinUpper mem a bp) a bp b).size =
      let size := (mem bp).size +
        if bp + (mem bp).size = link mem a then (mem (link mem a)).size else 0
      if b = bp then size
      else if b = a then (mem a).size + if a + (mem a).size = bp then size else 0
      else (mem b).size := by
  have hupper : ∀ c, (joinUpper mem a bp c).size = if c = bp then (mem bp).size +
      if bp + (mem bp).size = link mem a then (mem (link mem a)).size else 0 else (mem c).size := by
    intro c
    have hdef : joinUpper mem a bp = if bp + (mem bp).size = link mem a then
        Function.update mem bp ⟨(mem (link mem a)).ptr, (mem bp).size + (mem (link mem a)).size⟩
      else setLink mem bp (link mem a) := rfl
    rw [hdef]
    by_cases htouch : bp + (mem bp).size = link mem a
    · rw [if_pos htouch, if_pos htouch, Function.update_apply]
      split_ifs <;> rfl
    · rw [if_neg htouch, if_neg htouch, setLink_size, Nat.add_zero]
      split_ifs with hc
      · rw [hc]
      · rfl
  have hupper_a := hupper a
  rw [if_neg hne.symm] at hupper_a
  simp only [joinLower, hupper_a]
  by_cases htouch : a + (mem a).size = bp
  · rw [if_pos htouch, if_pos htouch, Function.update_apply]
    by_cases hba : b = a
    · rw [if_pos hba, if_neg (hba ▸ hne.symm), if_pos hba, hupper bp, if_pos rfl]
    · rw [if_neg hba, hupper b, if_neg hba]
  · rw [if_neg htouch, if_neg htouch, setLink_size, hupper b, Nat.add_zero]
    by_cases hbbp : b = bp
    · rw [if_pos hbbp, if_pos hbbp]
    · rw [if_neg hbbp, if_neg hbbp]
      by_cases hba : b = a
      · rw [if_pos hba, hba]
      · rw [if_neg hba]

/-- A free block after `free` ends where `bp` did, when it was not joined to the next one, or where
a free block did, other than `a` when that one was joined to `bp`. -/
theorem joined_end (hok : HeapOk total h live (a :: t)) (hbp : bp ∈ live) {x : Nat}
    (hx : x ∈ (if a + (h.mem a).size = bp then [a] else [a, bp]) ++
      if bp + (h.mem bp).size = link h.mem a then t.tail else t) :
    (∃ z ∈ a :: t, x + (joinLower (joinUpper h.mem a bp) a bp x).size = z + (h.mem z).size ∧
      (z = a → a + (h.mem a).size ≠ bp)) ∨
    (x + (joinLower (joinUpper h.mem a bp) a bp x).size = bp + (h.mem bp).size ∧
      bp + (h.mem bp).size ≠ link h.mem a) := by
  have hfree := hok.notFree bp hbp
  have hne : bp ≠ a := fun heq => hfree (heq ▸ List.mem_cons_self)
  have hpath : LinkPath (link h.mem) a t a := hok.linked
  have hnext : link h.mem a ∈ a :: t := hpath.mem_next List.mem_cons_self
  have hcases : x = a ∨ (x = bp ∧ a + (h.mem a).size ≠ bp) ∨ x ∈ t := by
    rcases List.mem_append.mp hx with hx | hx
    · split_ifs at hx with hlower
      · exact Or.inl (List.mem_singleton.mp hx)
      · simp only [List.mem_cons, List.not_mem_nil, or_false] at hx
        tauto
    · split_ifs at hx
      · exact Or.inr (Or.inr (List.mem_of_mem_tail hx))
      · exact Or.inr (Or.inr hx)
  have hpos := hok.positive bp hbp
  rw [joined_size hne]
  rcases hcases with rfl | ⟨rfl, hlower⟩ | hxt
  · by_cases hlower : x + (h.mem x).size = bp
    · by_cases hupper : bp + (h.mem bp).size = link h.mem x
      · refine Or.inl ⟨link h.mem x, hnext, ?_, fun hself => ?_⟩
        · simp only [if_neg hne.symm, if_pos hlower, if_pos hupper, if_true]
          omega
        · omega
      · refine Or.inr ⟨?_, hupper⟩
        simp only [if_neg hne.symm, if_pos hlower, if_neg hupper, if_true]
        omega
    · refine Or.inl ⟨x, List.mem_cons_self, ?_, fun _ => hlower⟩
      simp only [if_neg hne.symm, if_neg hlower, if_true]
      omega
  · by_cases hupper : x + (h.mem x).size = link h.mem a
    · refine Or.inl ⟨link h.mem a, hnext, ?_, fun _ => hlower⟩
      simp only [if_pos hupper, if_true]
      omega
    · refine Or.inr ⟨?_, hupper⟩
      simp only [if_neg hupper, if_true]
      omega
  · have hxa : x ≠ a := ne_of_mem_of_not_mem hxt (List.nodup_cons.mp hok.increasing.nodup).1
    have hxbp : x ≠ bp := ne_of_mem_of_not_mem (List.mem_cons_of_mem a hxt) hfree
    refine Or.inl ⟨x, List.mem_cons_of_mem a hxt, ?_, fun heq => absurd heq hxa⟩
    simp only [if_neg hxbp, if_neg hxa]

/-- Behind a free block that ends where `bp` starts, `bp` is put. -/
theorem eq_of_end_eq (hok : HeapOk total h live (a :: t))
    (hbetween : Between a (link h.mem a) bp) {z : Nat} (hz : z ∈ a :: t)
    (hpos : 1 ≤ (h.mem z).size) (hend : z + (h.mem z).size = bp) : z = a := by
  have hring := hok.linked
  have hle := hok.increasing.le_of_lt hring hbetween hz (by omega)
  by_contra hne
  have hapart := hok.apart z (List.mem_append_left _ hz) a (by simp) hne
  simp only [Apart] at hapart
  apply hok.increasing.not_between hring hz
  rcases hbetween with ⟨hlt, -⟩ | ⟨hwrap, hor⟩
  · omega
  · exact Or.inr ⟨hwrap, by omega⟩

/-- A free block that starts where `bp` ends is the next one. -/
theorem eq_next_of_start_eq (hok : HeapOk total h live (a :: t)) (hbp : bp ∈ live)
    (hbetween : Between a (link h.mem a) bp) {y : Nat} (hy : y ∈ a :: t)
    (hend : bp + (h.mem bp).size = y) : y = link h.mem a := by
  have hring := hok.linked
  have hpath : LinkPath (link h.mem) a t a := hring
  have hpos := hok.positive bp hbp
  have hle := hok.increasing.next_le_of_lt hring hbetween hy (by omega)
  by_contra hne
  have hnext : link h.mem a ∈ a :: t := hpath.mem_next List.mem_cons_self
  have hnot : link h.mem a ≠ bp := ne_of_mem_of_not_mem hnext (hok.notFree bp hbp)
  have hapart := hok.apart _ (List.mem_append_left _ hnext) bp (List.mem_append_right _ hbp) hnot
  simp only [Apart] at hapart
  apply hok.increasing.not_between hring hy
  rcases hbetween with ⟨-, hlt⟩ | ⟨hwrap, hor⟩
  · omega
  · exact Or.inr ⟨hwrap, by omega⟩

theorem HeapTiled.free (hok : HeapTiled total h live ring) (hbp : bp ∈ live)
    (hnot : ¬MeetsOnlyBlock h bp) :
    ∃ h', Kernel.free h (bp + 1) = some h' ∧ ∃ ring', HeapTiled total h' (live.erase bp) ring' := by
  obtain ⟨a, t, hr, hbetween, h', hcall, hmem, hunits⟩ :=
    (HeapUnits.freeInvariant total).free hok.toHeapUnits hbp hnot
  have hturned := hok.rotate hr
  refine ⟨h', hcall, _, hunits, fun x hx y hy hend => ?_⟩
  have hpos_bp := hok.positive bp hbp
  have hwithin := hok.within bp (List.mem_append_right _ hbp)
  have hfree : ∀ b ∈ a :: t, 1 ≤ (h.mem b).size :=
    hturned.freePos.resolve_left (by omega)
  have hpath : LinkPath (link h.mem) a t a := hturned.linked
  -- the block that starts there is an old one, or the one that is freed
  have hy_cases : y ∈ a :: t ∨ (y = bp ∧ a + (h.mem a).size ≠ bp) := by
    rcases List.mem_append.mp hy with hy | hy
    · split_ifs at hy with hlower
      · exact Or.inl (List.mem_singleton.mp hy ▸ List.mem_cons_self)
      · simp only [List.mem_cons, List.not_mem_nil, or_false] at hy ⊢
        tauto
    · split_ifs at hy
      · exact Or.inl (List.mem_cons_of_mem a (List.mem_of_mem_tail hy))
      · exact Or.inl (List.mem_cons_of_mem a hy)
  exfalso
  rw [hmem] at hend
  rcases joined_end hturned.toHeapOk hbp hx with ⟨z, hz, heq, hza⟩ | ⟨heq, hupper⟩
  · have heq' : z + (h.mem z).size = y := heq.symm.trans hend
    have hpos := hfree z hz
    rcases hy_cases with hy | ⟨rfl, hlower⟩
    · have hzy := hturned.separate z hz y hy heq'
      omega
    · have hz_eq := eq_of_end_eq hturned.toHeapOk hbetween hz hpos heq'
      subst hz_eq
      exact hlower heq'
  · have heq' : bp + (h.mem bp).size = y := heq.symm.trans hend
    rcases hy_cases with hy | ⟨rfl, -⟩
    · exact hupper (heq'.trans (eq_next_of_start_eq hturned.toHeapOk hbp hbetween hy heq'))
    · omega

theorem heapInit_tiled (len : UInt32) (h : Heap)
    (hok : HeapOk total (heapInit len h) [] [0]) (hsize : ((heapInit len h).mem 0).size = total) :
    HeapTiled total (heapInit len h) [] [0] where
  toHeapOk := hok
  units := by simp only [weight_cons, weight_nil, hsize, Nat.add_zero]
  freePos := by
    rcases Nat.eq_zero_or_pos total with hzero | hpos
    · exact Or.inl hzero
    · refine Or.inr fun b hb => ?_
      obtain rfl := List.mem_singleton.mp hb
      exact hsize ▸ hpos
  separate x hx y hy _ := by rw [List.mem_singleton.mp hx, List.mem_singleton.mp hy]

/-- The block that a heap starts with has all of its units. -/
theorem HeapOk.init_size (hok : HeapOk total h live ring) (len : UInt32) :
    ((heapInit len h).mem 0).size = total := by
  obtain ⟨f, t, rfl, hfreep, hpath⟩ := hok.cases
  simp only [heapInit, hfreep, hok.sfreep, hok.sfree, Function.update_self]

theorem heapInit_first_size (len : UInt32) (h : Heap) (hfirst : h.freep = none) :
    ((heapInit len h).mem 0).size = (nunits len - 1).toNat := by
  simp only [heapInit, hfirst, Function.update_self]

theorem HeapTiled.write {offset : Nat} (hok : HeapTiled total h live ring) (hbp : bp ∈ live)
    (hpos : 1 ≤ offset) (hlt : offset < (h.mem bp).size) (value : MemHeader) :
    HeapTiled total { h with mem := Function.update h.mem (bp + offset) value } live ring := by
  have hfresh := hok.ne_offset (List.mem_append_right ring hbp) hpos hlt
  have hring : bp + offset ∉ ring := fun hmem => hfresh _ (List.mem_append_left _ hmem) rfl
  have hlive : bp + offset ∉ live := fun hmem => hfresh _ (List.mem_append_right _ hmem) rfl
  refine ⟨⟨hok.toHeapOk.write hbp hpos hlt value, ?_, ?_⟩, ?_⟩
  · simp only [weight_update _ _ hring, weight_update _ _ hlive]
    exact hok.units
  · refine hok.freePos.imp_right fun hfree b hb => ?_
    simp only [Function.update_of_ne (ne_of_mem_of_not_mem hb hring)]
    exact hfree b hb
  · intro x hx y hy hend
    simp only [Function.update_of_ne (ne_of_mem_of_not_mem hx hring)] at hend
    exact hok.separate x hx y hy hend

theorem HeapTiled.step {s : HeapRun} (hok : HeapTiled total s.heap s.live ring) (e : HeapEvent)
    (hkeeps : KeepsFreeBlock s e) :
    ∃ t, heapStep s e = some t ∧ ∃ ring', HeapTiled total t.heap t.live ring' := by
  cases e with
  | malloc size =>
    obtain ⟨r, h', hcall, ring', hok'⟩ := (HeapTiled.mallocInvariant total).malloc hok hkeeps
    exact ⟨_, by rw [heapStep, hcall]; rfl, ring', hok'⟩
  | free i =>
    cases hi : s.live[i]? with
    | none => exact ⟨s, by simp only [heapStep, hi], ring, hok⟩
    | some bp =>
      obtain ⟨h', hcall, hok'⟩ := hok.free (List.mem_of_getElem? hi) (hkeeps bp hi)
      exact ⟨⟨h', s.live.erase bp⟩, by simp only [heapStep, hi, hcall, Option.map_some], hok'⟩
  | write i offset value =>
    cases hi : s.live[i]? with
    | none => exact ⟨s, by simp only [heapStep, hi], ring, hok⟩
    | some bp =>
      by_cases hin : 1 ≤ offset ∧ offset < (s.heap.mem bp).size
      · exact ⟨_, by simp only [heapStep, hi, if_pos hin]; rfl, ring,
          hok.write (List.mem_of_getElem? hi) hin.1 hin.2 value⟩
      · exact ⟨s, by simp only [heapStep, hi, if_neg hin], ring, hok⟩
  | init len =>
    exact ⟨_, rfl, [0], heapInit_tiled len _ (hok.toHeapOk.init len) (hok.toHeapOk.init_size len)⟩

/-! ### Runs -/

/-- The loop of `malloc` ends for every size and that of `free` for every live block, the free and
the live blocks have all `total` units, and without live blocks the free list is the one block that
the heap started with. -/
structure NothingLeaks (total : Nat) (s : HeapRun) : Prop where
  mallocEnds : ∀ size, (malloc s.heap size).isSome
  freeEnds : ∀ bp ∈ s.live, (free s.heap (bp + 1)).isSome
  units : ∃ blocks : List Nat, blocks.Nodup ∧ (∀ b, Reachable s.heap b ↔ b ∈ blocks) ∧
    weight s.heap.mem blocks + weight s.heap.mem s.live = total
  whole : s.live = [] → s.heap.freep = some 0 ∧ s.heap.mem 0 = { ptr := 0, size := total }

theorem HeapOk.mallocEnds (hok : HeapOk total h live ring) (size : UInt32) :
    (malloc h size).isSome := by
  rcases hok.malloc_cases size with ⟨hcall, -⟩ | ⟨f, -, q, t, p, -, -, -, hcall⟩
  · exact hcall ▸ rfl
  · exact hcall ▸ rfl

theorem HeapOk.freeEnds (hok : HeapOk total h live ring) (hbp : bp ∈ live) :
    (free h (bp + 1)).isSome := by
  obtain ⟨f, t, rfl, hfreep, hpath⟩ := hok.cases
  obtain ⟨a, -, hloop, -⟩ := freeLoop_spec t h.rounds f hpath (Nat.lt_of_succ_lt hok.length_lt)
    (hok.increasing.exists_between hok.linked (hok.notFree bp hbp))
  simp only [free, hfreep, Nat.add_sub_cancel, hloop, Option.isSome_some]

/-- Without live blocks, one free block has all units. -/
theorem HeapTiled.whole (hok : HeapTiled total h [] ring) :
    h.freep = some 0 ∧ h.mem 0 = { ptr := 0, size := total } := by
  have hunits : (ring.map fun b => (h.mem b).size).sum = total := hok.units
  have htiles : Tiles (fun b => (h.mem b).size) ring total :=
    ⟨hok.increasing.nodup,
      fun a ha b hb => hok.apart a (List.mem_append_left _ ha) b (List.mem_append_left _ hb),
      fun b hb => hok.within b (List.mem_append_left _ hb), hunits⟩
  have hone : ∃ b, ring = [b] ∧ (h.mem b).size = total := by
    rcases hok.freePos with rfl | hfree
    · -- all blocks of an empty heap are at its start
      have hzero : ∀ b ∈ ring, b = 0 := fun b hb => by
        have := hok.within b (List.mem_append_left _ hb)
        omega
      obtain ⟨f, t, rfl, -⟩ := hok.cases
      cases t with
      | nil => exact ⟨f, rfl, by simpa using hunits⟩
      | cons c t =>
        have hnodup := (List.nodup_cons.mp hok.increasing.nodup).1
        rw [hzero f (by simp), hzero c (by simp)] at hnodup
        exact absurd List.mem_cons_self hnodup
    · have hne : ring ≠ [] := by
        obtain ⟨f, t, rfl, -⟩ := hok.cases
        exact List.cons_ne_nil f t
      exact htiles.eq_singleton hfree hok.separate hne
  obtain ⟨b, rfl, hsize⟩ := hone
  have hwithin := hok.within b (by simp)
  obtain rfl : b = 0 := by omega
  have hlink : (h.mem 0).ptr = 0 := hok.linked
  refine ⟨hok.freep, ?_⟩
  cases hm : h.mem 0 with
  | mk ptr size =>
    rw [hm] at hlink hsize
    rw [show ptr = 0 from hlink, show size = total from hsize]

theorem HeapTiled.nothingLeaks {s : HeapRun} (hok : HeapTiled total s.heap s.live ring) :
    NothingLeaks total s where
  mallocEnds := hok.toHeapOk.mallocEnds
  freeEnds _ hbp := hok.toHeapOk.freeEnds hbp
  units := ⟨ring, hok.increasing.nodup, fun b => hok.toHeapOk.reachable_iff b, hok.units⟩
  whole hlive := by
    rw [hlive] at hok
    exact hok.whole

/-- Two heaps whose free list is one block at the start, of the same size, grant the same
requests. -/
theorem malloc_whole {h h' : Heap} {m : MemHeader} (hptr : m.ptr = 0) (hfreep : h.freep = some 0)
    (hmem : h.mem 0 = m) (hfreep' : h'.freep = some 0) (hmem' : h'.mem 0 = m) (size : UInt32) :
    (malloc h size).map Prod.fst = (malloc h' size).map Prod.fst := by
  have hloop : ∀ g : Heap, g.mem 0 = m → mallocLoop g.mem 0 (nunits size).toNat g.rounds 0 =
      if (nunits size).toNat ≤ m.size then some (some (0, 0)) else some none := by
    intro g hg
    rw [Heap.rounds, mallocLoop, hg, hptr, hg, if_pos rfl]
  simp only [malloc, hfreep, hfreep', hloop h hmem, hloop h' hmem']
  by_cases hfits : (nunits size).toNat ≤ m.size
  · simp only [if_pos hfits, hmem, hmem']
    split_ifs <;> rfl
  · simp only [if_neg hfits, Option.map_some]

/-- From the first `HeapInit` on, a run in which no call takes all of the only free block or joins a
block to it from below is defined and leaks no unit.  When no block is live after it, a request is
granted when the fresh heap grants it. -/
theorem heap_leaks_nothing (len : UInt32) (h : Heap) (hfirst : h.freep = none)
    (es : List HeapEvent) (hkeeps : Guarded heapStep KeepsFreeBlock ⟨heapInit len h, []⟩ es) :
    ∃ s, run heapStep ⟨heapInit len h, []⟩ es = some s ∧
      NothingLeaks ((heapInit len h).mem 0).size s ∧
      (s.live = [] → ∀ size,
        (malloc s.heap size).map Prod.fst = (malloc (heapInit len h) size).map Prod.fst) := by
  have hsize := heapInit_first_size len h hfirst
  have hfresh : HeapTiled ((heapInit len h).mem 0).size (heapInit len h) [] [0] :=
    heapInit_tiled len h (hsize ▸ heapInit_first len h hfirst) rfl
  obtain ⟨s, hrun, ring, hok⟩ := run_guarded
    (P := fun s => ∃ ring, HeapTiled ((heapInit len h).mem 0).size s.heap s.live ring)
    (fun s e ⟨ring, hok⟩ he => hok.step e he) ⟨[0], hfresh⟩ hkeeps
  refine ⟨s, hrun, hok.nothingLeaks, fun hlive size => ?_⟩
  obtain ⟨hfreep, hmem⟩ := hok.nothingLeaks.whole hlive
  exact malloc_whole rfl hfreep hmem hfresh.whole.1 hfresh.whole.2 size

theorem heap_leaks_nothing_freed :
    ∃ s, run heapStep ⟨heapInit 1024 .cleared, []⟩
        [.malloc 100, .malloc 24, .free 1, .malloc 40, .free 0, .free 0] = some s ∧
      NothingLeaks ((heapInit 1024 .cleared).mem 0).size s ∧
      (s.live = [] → ∀ size,
        (malloc s.heap size).map Prod.fst = (malloc (heapInit 1024 .cleared) size).map Prod.fst) :=
  heap_leaks_nothing 1024 .cleared rfl _ (by decide +kernel)

/-- Behind a block that links to itself and starts where `bp` does, the loop of `free` does not
end. -/
theorem freeLoop_self {mem : Nat → MemHeader} (hself : (mem bp).ptr = bp) (n : Nat) :
    freeLoop mem bp n bp = none := by
  induction n with
  | zero => rfl
  | succ n ih =>
    rw [freeLoop, hself, if_neg (by simp), if_neg (by simp)]
    exact ih

/-- A heap of 16 units: a request for 120 bytes takes all of it and leaves it on the list, so that
its units count twice, and no `free` of the block returns. -/
theorem free_never_returns :
    ∃ s, run heapStep ⟨heapInit 128 .cleared, []⟩ [.malloc 120] = some s ∧ s.live = [0] ∧
      (∀ n, freeLoop s.heap.mem 0 n 0 = none) ∧
      ¬NothingLeaks ((heapInit 128 .cleared).mem 0).size s := by
  have hrun : ∃ s, run heapStep ⟨heapInit 128 .cleared, []⟩ [.malloc 120] = some s ∧
      s.live = [0] ∧ (s.heap.mem 0).ptr = 0 ∧ s.heap.freep = some 0 := ⟨_, rfl, rfl, rfl, rfl⟩
  obtain ⟨s, hs, hlive, hself, hfreep⟩ := hrun
  refine ⟨s, hs, hlive, freeLoop_self hself, fun hleaks => ?_⟩
  have hends := hleaks.freeEnds 0 (hlive ▸ List.mem_cons_self)
  simp only [free, hfreep, Nat.zero_add, Nat.sub_self, freeLoop_self hself] at hends
  exact absurd hends (by decide)

end PrplHypervisor.Kernel
