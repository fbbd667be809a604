import PrplHypervisor.Kernel.Queue
import PrplHypervisor.Lib.Runs

/-! The queue as a bounded list.  A call has an outcome when it stays in the block that
`queue_create` allocated and its sums are in the range of `int32_t`.  `fifoCall` is what a call does
to a list of at most `n` pointers, and `AsFifo` says that a sequence of calls does the same to a
queue. -/

namespace PrplHypervisor.Kernel

open Lib.Runs

variable {α : Type}

/-- A call of a function of `queue.c` on a queue, at a place from 0 on. -/
inductive QueueOp (α : Type)
  | addtail (ptr : Option α)
  | remhead
  | remtail
  | count
  | get (elem : Nat)
  | set (elem : Nat) (ptr : Option α)
  | swap (elem1 elem2 : Nat)

inductive QueueResult (α : Type)
  | status (ret : Int)
  | pointer (ptr : Option α)
  | number (n : Int)

/-- A result that stands for a failure, unless it is a pointer that was put into the queue. -/
def QueueResult.IsFailure : QueueResult α → Prop
  | .status ret => ret = -1
  | .pointer ptr => ptr = none
  | .number _ => False

def queueCall (q : Queue α) : QueueOp α → QueueResult α × Queue α
  | .addtail ptr => let r := queueAddtail q ptr; (.status r.1, r.2)
  | .remhead => let r := queueRemhead q; (.pointer r.1, r.2)
  | .remtail => let r := queueRemtail q; (.pointer r.1, r.2)
  | .count => (.number (queueCount q), q)
  | .get elem => (.pointer (queueGet q elem), q)
  | .set elem ptr => let r := queueSet q elem ptr; (.status r.1, r.2)
  | .swap elem1 elem2 => let r := queueSwap q elem1 elem2; (.status r.1, r.2)

/-- The slots of `data` that a call reads or writes. -/
def QueueOp.accesses (q : Queue α) : QueueOp α → List Int
  | .addtail _ => if q.size = 0 ∨ (q.tail + 1).tmod q.size = q.head then [] else [q.tail]
  | .remhead => if q.size = 0 ∨ q.head = q.tail then [] else [q.head]
  | .remtail => if q.size = 0 ∨ q.head = q.tail then [] else [q.tail]
  | .count => []
  | .get elem | .set elem _ =>
    if q.size = 0 ∨ q.elem ≤ elem ∨ q.head = q.tail then [] else [(q.head + elem).tmod q.size]
  | .swap elem1 elem2 =>
    if q.size = 0 ∨ q.elem ≤ elem1 ∨ q.elem ≤ elem2 ∨ q.head = q.tail then []
    else [(q.head + elem1).tmod q.size, (q.head + elem2).tmod q.size]

/-- The sums that a call computes. -/
def QueueOp.sums (q : Queue α) : QueueOp α → List Int
  | .addtail _ => [q.tail + 1, q.elem + 1]
  | .remhead => [q.head + 1]
  | .remtail | .count => []
  | .get elem | .set elem _ => if q.elem ≤ elem then [] else [q.head + elem]
  | .swap elem1 elem2 =>
    if q.elem ≤ elem1 ∨ q.elem ≤ elem2 then [] else [q.head + elem1, q.head + elem2]

/-- A queue with the number of slots in the block that `data` points to. -/
structure QueueBlock (α : Type) where
  queue : Queue α
  slots : Nat

/-- `queue_create`, with both allocations successful: the size is an `int32_t`, and the number of
bytes is computed in 32 bits. -/
def queueBlock (size : Int) (fresh : Int → Option α) : QueueBlock α :=
  let size := (size + 1).bmod (2 ^ 32)
  { queue := { size := size, elem := 0, head := 0, tail := 0, data := fresh }
    slots := (size * 4 % 2 ^ 32).toNat / 4 }

/-- A call, if it stays in the block and in the range of its integers. -/
def queueStep (s : QueueBlock α) (op : QueueOp α) : Option (QueueResult α × QueueBlock α) :=
  if (∀ i ∈ op.accesses s.queue, 0 ≤ i ∧ i < s.slots) ∧ (∀ x ∈ op.sums s.queue, x < 2 ^ 31) then
    let r := queueCall s.queue op
    some (r.1, { s with queue := r.2 })
  else none

/-! ### The list -/

/-- A call on a list of at most `n` pointers. -/
def fifoCall (n : Nat) (l : List (Option α)) : QueueOp α → QueueResult α × List (Option α)
  | .addtail ptr => if l.length < n then (.status 0, l ++ [ptr]) else (.status (-1), l)
  | .remhead => (.pointer (l.headD none), l.tail)
  | .remtail => (.pointer (l.getLastD none), l.dropLast)
  | .count => (.number l.length, l)
  | .get elem => (.pointer (l.getD elem none), l)
  | .set elem ptr =>
    if elem < l.length then (.status 0, l.set elem ptr) else (.status (-1), l)
  | .swap elem1 elem2 =>
    if elem1 < l.length ∧ elem2 < l.length then
      (.status 0, (l.set elem1 (l.getD elem2 none)).set elem2 (l.getD elem1 none))
    else (.status (-1), l)

/-- When a call fails. -/
def Fails (n : Nat) (l : List (Option α)) : QueueOp α → Prop
  | .addtail _ => l.length = n
  | .remhead | .remtail => l = []
  | .count => False
  | .get elem | .set elem _ => l.length ≤ elem
  | .swap elem1 elem2 => l.length ≤ elem1 ∨ l.length ≤ elem2

/-- Both indexes of the queue are slots. -/
def Queue.InBounds (q : Queue α) : Prop :=
  (0 ≤ q.head ∧ q.head < q.size) ∧ 0 ≤ q.tail ∧ q.tail < q.size

/-- The queue keeps the list `l`, and the calls return what they return on the list and do the same
to it.  A call that fails changes nothing and, on a list without `NULL`, is the only one that
returns a failure. -/
def AsFifo (n : Nat) : QueueBlock α → List (Option α) → List (QueueOp α) → Prop
  | s, l, [] => s.queue.Keeps n l ∧ s.queue.InBounds
  | s, l, op :: ops => (s.queue.Keeps n l ∧ s.queue.InBounds) ∧
    ∃ r t, queueStep s op = some (r, t) ∧ r = (fifoCall n l op).1 ∧ (Fails n l op → t = s) ∧
      (none ∉ l → (r.IsFailure ↔ Fails n l op)) ∧ AsFifo n t (fifoCall n l op).2 ops

theorem isFailure_iff {n : Nat} {l : List (Option α)} (hfits : l.length ≤ n) (hnull : none ∉ l)
    (op : QueueOp α) : (fifoCall n l op).1.IsFailure ↔ Fails n l op := by
  cases op with
  | addtail ptr =>
    simp only [fifoCall, Fails]
    split_ifs with hroom
    · exact iff_of_false (show ¬(0 : Int) = -1 by decide) (by omega)
    · exact iff_of_true rfl (by omega)
  | remhead =>
    cases l with
    | nil => exact iff_of_true rfl rfl
    | cons x l =>
      refine iff_of_false (fun hx => hnull ?_) (List.cons_ne_nil x l)
      exact hx ▸ List.mem_cons_self
  | remtail =>
    rcases l.eq_nil_or_concat with rfl | ⟨l, x, rfl⟩
    · exact iff_of_true rfl rfl
    · refine iff_of_false (fun hx => hnull ?_) (by simp [Fails])
      have hx : x = none := by simpa [fifoCall, QueueResult.IsFailure] using hx
      simp [hx]
  | count => exact Iff.rfl
  | get elem =>
    simp only [fifoCall, Fails, QueueResult.IsFailure]
    constructor
    · intro hget
      by_contra hlt
      rw [List.getD_eq_getElem?_getD, List.getElem?_eq_getElem (not_le.mp hlt),
        Option.getD_some] at hget
      exact hnull (hget ▸ List.getElem_mem _)
    · intro hpast
      rw [List.getD_eq_getElem?_getD, List.getElem?_eq_none hpast, Option.getD_none]
  | set elem ptr =>
    simp only [fifoCall, Fails]
    split_ifs with hlt
    · exact iff_of_false (show ¬(0 : Int) = -1 by decide) (by omega)
    · exact iff_of_true rfl (by omega)
  | swap elem1 elem2 =>
    simp only [fifoCall, Fails]
    split_ifs with hlt
    · exact iff_of_false (show ¬(0 : Int) = -1 by decide) (by omega)
    · exact iff_of_true rfl (by omega)

/-! ### The queue does what the list does -/

/-- A call of `queue_remtail` finds the last element: the tail is not back at slot 0, and its slot
has the same pointer as the one in front of it. -/
def ReadsLast (q : Queue α) : QueueOp α → Prop
  | .remtail => q.head ≠ q.tail → q.tail ≠ 0 ∧ q.data q.tail = q.data (q.tail - 1)
  | _ => True

instance [DecidableEq α] (q : Queue α) : (op : QueueOp α) → Decidable (ReadsLast q op)
  | .remtail => inferInstanceAs (Decidable (_ → _ ∧ _))
  | .addtail _ | .remhead | .count | .get _ | .set _ _ | .swap _ _ => isTrue trivial

namespace Queue.Keeps

variable {q : Queue α} {n : Nat} {l : List (Option α)}

theorem remtail_last {x : Option α} (h : q.Keeps n (l ++ [x])) (htail : q.tail ≠ 0)
    (hread : q.data q.tail = q.data (q.tail - 1)) :
    ∃ q', queueRemtail q = (x, q') ∧ q'.Keeps n l := by
  obtain ⟨hx, hkeeps⟩ := h.last htail
  refine ⟨_, ?_, hkeeps⟩
  rw [h.remtail_eq (by simp), hread, hx]

/-- A call returns what it returns on the list and does the same to it. -/
theorem call (h : q.Keeps n l) (op : QueueOp α) (hlast : ReadsLast q op) :
    ∃ q', queueCall q op = ((fifoCall n l op).1, q') ∧ q'.Keeps n (fifoCall n l op).2 ∧
      (Fails n l op → q' = q) := by
  cases op with
  | addtail ptr =>
    by_cases hroom : l.length < n
    · obtain ⟨q', hadd, hkeeps⟩ := h.addtail hroom ptr
      refine ⟨q', by simp only [queueCall, hadd, fifoCall, if_pos hroom], ?_, fun hfull => ?_⟩
      · simpa only [fifoCall, if_pos hroom] using hkeeps
      · exact absurd hfull (Nat.ne_of_lt hroom)
    · have hfull : l.length = n := le_antisymm h.fits (not_lt.mp hroom)
      have hadd := h.addtail_full hfull ptr
      refine ⟨q, by simp only [queueCall, hadd, fifoCall, if_neg hroom], ?_, fun _ => rfl⟩
      simpa only [fifoCall, if_neg hroom] using h
  | remhead =>
    cases l with
    | nil =>
      exact ⟨q, by simp only [queueCall, h.remhead_nil, fifoCall, List.headD_nil], h, fun _ => rfl⟩
    | cons x l =>
      obtain ⟨q', hrem, hkeeps⟩ := h.remhead
      refine ⟨q', by simp only [queueCall, hrem, fifoCall, List.headD_cons], hkeeps, fun hnil => ?_⟩
      exact absurd hnil (List.cons_ne_nil x l)
  | remtail =>
    rcases l.eq_nil_or_concat with rfl | ⟨l, x, rfl⟩
    · exact ⟨q, by simp only [queueCall, h.remtail_nil, fifoCall, List.getLastD_nil], h,
        fun _ => rfl⟩
    · have hne : l.concat x ≠ [] := by simp
      rw [List.concat_eq_append] at h
      obtain ⟨htail, hread⟩ := hlast (h.head_eq_tail_iff.not.mpr (by simp))
      obtain ⟨q', hrem, hkeeps⟩ := h.remtail_last htail hread
      refine ⟨q', by simp [queueCall, hrem, fifoCall], by simpa [fifoCall] using hkeeps,
        fun hnil => ?_⟩
      exact absurd hnil hne
  | count => exact ⟨q, by simp only [queueCall, queueCount, h.elem, fifoCall], h, fun _ => rfl⟩
  | get elem => exact ⟨q, by simp only [queueCall, h.get, fifoCall], h, fun _ => rfl⟩
  | set elem ptr =>
    by_cases hlt : elem < l.length
    · obtain ⟨q', hset, hkeeps⟩ := h.set hlt ptr
      refine ⟨q', by simp only [queueCall, hset, fifoCall, if_pos hlt], ?_, fun hpast => ?_⟩
      · simpa only [fifoCall, if_pos hlt] using hkeeps
      · exact absurd hlt (not_lt.mpr hpast)
    · refine ⟨q, by simp only [queueCall, h.set_past (not_lt.mp hlt), fifoCall, if_neg hlt], ?_,
        fun _ => rfl⟩
      simpa only [fifoCall, if_neg hlt] using h
  | swap elem1 elem2 =>
    by_cases hlt : elem1 < l.length ∧ elem2 < l.length
    · obtain ⟨q', hswap, hkeeps⟩ := h.swap hlt.1 hlt.2
      refine ⟨q', by simp only [queueCall, hswap, fifoCall, if_pos hlt], ?_, fun hpast => ?_⟩
      · simpa only [fifoCall, if_pos hlt] using hkeeps
      · simp only [Fails] at hpast
        omega
    · have hpast : l.length ≤ elem1 ∨ l.length ≤ elem2 := by omega
      refine ⟨q, by simp only [queueCall, h.swap_past hpast, fifoCall, if_neg hlt], ?_,
        fun _ => rfl⟩
      simpa only [fifoCall, if_neg hlt] using h

/-- The calls stay in a block of `n + 1` slots. -/
theorem accesses (h : q.Keeps n l) (op : QueueOp α) :
    ∀ i ∈ op.accesses q, 0 ≤ i ∧ i < ((n + 1 : Nat) : Int) := by
  obtain ⟨⟨hhead0, hhead⟩, htail0, htail⟩ := h.inBounds
  have hsize := h.size
  have hslot : ∀ k : Nat, 0 ≤ (q.head + k).tmod q.size ∧ (q.head + k).tmod q.size < q.size := by
    intro k
    rw [Int.tmod_eq_emod_of_nonneg (by omega)]
    exact ⟨Int.emod_nonneg _ (by omega), Int.emod_lt_of_pos _ (by omega)⟩
  rw [hsize] at hslot
  intro i hi
  cases op with
  | count => cases hi
  | addtail | remhead | remtail =>
    simp only [QueueOp.accesses] at hi
    split_ifs at hi
    · cases hi
    · obtain rfl := List.mem_singleton.mp hi
      omega
  | get elem | set elem =>
    simp only [QueueOp.accesses, hsize] at hi
    split_ifs at hi
    · cases hi
    · obtain rfl := List.mem_singleton.mp hi
      have := hslot elem
      omega
  | swap elem1 elem2 =>
    simp only [QueueOp.accesses, hsize] at hi
    split_ifs at hi
    · cases hi
    · have h1 := hslot elem1
      have h2 := hslot elem2
      simp only [List.mem_cons, List.not_mem_nil, or_false] at hi
      omega

theorem sums (h : q.Keeps n l) (hn : n + 1 < 2 ^ 30) (op : QueueOp α) :
    ∀ x ∈ op.sums q, x < 2 ^ 31 := by
  obtain ⟨⟨hhead0, hhead⟩, htail0, htail⟩ := h.inBounds
  have hsize := h.size
  have helem := h.elem
  have hfits := h.fits
  intro x hx
  cases op with
  | remtail | count => cases hx
  | addtail | remhead =>
    simp only [QueueOp.sums, List.mem_cons, List.not_mem_nil, or_false] at hx
    omega
  | get elem | set elem | swap =>
    simp only [QueueOp.sums] at hx
    split_ifs at hx
    · cases hx
    · simp only [List.mem_cons, List.not_mem_nil, or_false] at hx
      omega

end Queue.Keeps

/-! ### Sequences of calls -/

variable {n : Nat} {l : List (Option α)} {s : QueueBlock α}

theorem queueStep_eq (h : s.queue.Keeps n l) (hn : n + 1 < 2 ^ 30) (hslots : s.slots = n + 1)
    (op : QueueOp α) : queueStep s op =
      some ((queueCall s.queue op).1, { s with queue := (queueCall s.queue op).2 }) := by
  have haccesses := h.accesses op
  rw [← hslots] at haccesses
  exact if_pos ⟨haccesses, h.sums hn op⟩

/-- The block after a call, without what the call returns. -/
def queueAfter (s : QueueBlock α) (op : QueueOp α) : Option (QueueBlock α) :=
  (queueStep s op).map Prod.snd

/-- What a call of `queue_remtail` returns and leaves is right only when it finds the last
element. -/
theorem readsLast_of_call {t : QueueBlock α} (h : s.queue.Keeps n l) (hn : n + 1 < 2 ^ 30)
    (hslots : s.slots = n + 1) {op : QueueOp α}
    (hcall : queueStep s op = some ((fifoCall n l op).1, t)) (hbounds : t.queue.InBounds) :
    ReadsLast s.queue op := by
  cases op with
  | remtail =>
    intro hne
    rcases l.eq_nil_or_concat with rfl | ⟨l, x, rfl⟩
    · exact absurd (h.head_eq_tail_iff.mpr rfl) hne
    rw [List.concat_eq_append] at h hcall
    rw [queueStep_eq h hn hslots, queueCall, h.remtail_eq (by simp)] at hcall
    obtain ⟨hresult, rfl⟩ := Prod.mk.inj (Option.some.inj hcall)
    have hread : s.queue.data s.queue.tail = x := by simpa [fifoCall] using hresult
    have htail : s.queue.tail ≠ 0 := by
      intro htail
      -- the remainder of -1 is -1
      have hback : (0 - 1 : Int).tmod (n + 1) = -(1 % (n + 1) : Nat) := by
        rw [zero_sub, Int.neg_tmod]
        norm_cast
      have hpos := h.fits
      have hlow := hbounds.2.1
      simp only [htail, h.size, hback, List.length_append, List.length_singleton] at hpos hlow
      rw [Nat.mod_eq_of_lt (by omega)] at hlow
      omega
    exact ⟨htail, hread.trans (h.last htail).1.symm⟩
  | _ => trivial

/-- Calls on a queue that keeps the list do what they do on it exactly when every `queue_remtail`
finds the last element. -/
theorem asFifo_iff (hn : n + 1 < 2 ^ 30) (ops : List (QueueOp α)) : ∀ {s : QueueBlock α} {l},
    s.queue.Keeps n l → s.slots = n + 1 →
    (AsFifo n s l ops ↔ Guarded queueAfter (fun s op => ReadsLast s.queue op) s ops) := by
  induction ops with
  | nil => exact fun h _ => iff_of_true ⟨h, h.inBounds⟩ trivial
  | cons op ops ih =>
    intro s l h hslots
    have hstep := queueStep_eq h hn hslots op
    constructor
    · rintro ⟨_, r, t, hcall, rfl, _, _, hrest⟩
      have hbounds : t.queue.Keeps n (fifoCall n l op).2 ∧ t.queue.InBounds := by
        cases ops with
        | nil => exact hrest
        | cons op' ops => exact hrest.1
      have hslots' : t.slots = n + 1 := by
        rw [hstep] at hcall
        obtain ⟨_, rfl⟩ := Prod.mk.inj (Option.some.inj hcall)
        exact hslots
      refine ⟨readsLast_of_call h hn hslots hcall hbounds.2, fun u hu => ?_⟩
      rw [queueAfter, hcall] at hu
      obtain rfl := Option.some.inj hu
      exact (ih hbounds.1 hslots').mp hrest
    · rintro ⟨hlast, hrest⟩
      obtain ⟨q', hcall, hkeeps, hfails⟩ := h.call op hlast
      rw [hcall] at hstep
      refine ⟨⟨h, h.inBounds⟩, _, _, hstep, rfl, fun hf => ?_, fun hnull => ?_, ?_⟩
      · rw [hfails hf]
      · exact isFailure_iff h.fits hnull op
      · exact (@ih ⟨q', s.slots⟩ _ hkeeps hslots).mpr (hrest _ (by rw [queueAfter, hstep]; rfl))

theorem queueBlock_eq (hn : n + 1 < 2 ^ 30) (fresh : Int → Option α) :
    queueBlock n fresh = { queue := queueCreate n fresh, slots := n + 1 } := by
  have hsize : ((n : Int) + 1).bmod (2 ^ 32) = n + 1 := by
    rw [Int.bmod_def, Int.emod_eq_of_lt (by omega) (by omega)]
    exact if_pos (by omega)
  have hslots : (((n : Int) + 1) * 4 % 2 ^ 32).toNat / 4 = n + 1 := by omega
  simp only [queueBlock, hsize, hslots, queueCreate]

theorem tail_next (h : s.queue.Keeps n l) (hhead : s.queue.head = 0) {k : Nat}
    (htail : s.queue.tail = k) (hk : k < n) :
    (s.queue.tail + 1).tmod s.queue.size = (k + 1 : Nat) ∧
      ¬(s.queue.size = 0 ∨ (s.queue.tail + 1).tmod s.queue.size = s.queue.head) := by
  have hsize := h.size
  have hnext : (s.queue.tail + 1).tmod s.queue.size = (k + 1 : Nat) := by
    rw [htail, hsize, tmod_next, Nat.mod_eq_of_lt (Nat.succ_lt_succ hk)]
  exact ⟨hnext, by omega⟩

/-- In a block with less than `n` slots, appending leaves the block before it fails. -/
theorem not_asFifo_of_small (m : Nat) : ∀ {s : QueueBlock α} {l} {k : Nat}, s.queue.head = 0 →
    s.queue.tail = k → k + m = s.slots → s.slots < n →
    ¬AsFifo n s l (List.replicate (m + 1) (.addtail none)) := by
  induction m with
  | zero =>
    rintro s l k hhead htail hslots hsmall ⟨⟨hkeeps, _⟩, r, t, hcall, -⟩
    obtain ⟨_, hnext⟩ := tail_next hkeeps hhead htail (by omega)
    obtain ⟨hin, -⟩ := (Option.ite_none_right_eq_some.mp hcall).1
    have hlt := hin s.queue.tail (by rw [QueueOp.accesses, if_neg hnext]; exact List.mem_cons_self)
    omega
  | succ m ih =>
    rintro s l k hhead htail hslots hsmall ⟨⟨hkeeps, _⟩, r, t, hcall, _, _, _, hrest⟩
    obtain ⟨hnext, hroom⟩ := tail_next hkeeps hhead htail (by omega)
    have hcalled := (Option.ite_none_right_eq_some.mp hcall).2
    simp only [queueCall, queueAddtail_next (not_or.mp hroom).1 (not_or.mp hroom).2] at hcalled
    obtain ⟨_, ht⟩ := Prod.mk.inj (Option.some.inj hcalled)
    have hhead' : t.queue.head = 0 := ht ▸ hhead
    have htail' : t.queue.tail = (k + 1 : Nat) := ht ▸ hnext
    have hslots' : t.slots = s.slots := ht ▸ rfl
    exact ih hhead' htail' (by omega) (by omega) hrest

/-- The calls that leave the tail alone do what they do on a list of at most `n` elements exactly
when the number of bytes of `n + 1` pointers is below `2 ^ 32`. -/
theorem queue_fifo_iff (α : Type) (n : Nat) (hn : n < 2 ^ 31) :
    (∀ (fresh : Int → Option α) (ops : List (QueueOp α)), (∀ op ∈ ops, op ≠ .remtail) →
      AsFifo n (queueBlock n fresh) [] ops) ↔ n + 1 < 2 ^ 30 := by
  constructor
  · intro hall
    by_contra hlarge
    have hfifo := hall (fun _ => none)
      (List.replicate ((queueBlock n fun _ => (none : Option α)).slots + 1) (.addtail none))
      fun op hop => by simp [List.eq_of_mem_replicate hop]
    refine not_asFifo_of_small _ rfl rfl (Nat.zero_add _) ?_ hfifo
    simp only [queueBlock]
    have hsize : ((n : Int) + 1).bmod (2 ^ 32) * 4 % 2 ^ 32 = ((n : Int) + 1) * 4 % 2 ^ 32 := by
      rw [Int.bmod_def]
      split_ifs <;> omega
    rw [hsize]
    omega
  · intro hsmall fresh ops hops
    rw [queueBlock_eq hsmall]
    refine (asFifo_iff hsmall ops (queueCreate_keeps n fresh) rfl).mpr (guarded_of_mem ?_)
    intro s op hop
    cases op with
    | remtail => exact absurd rfl (hops _ hop)
    | _ => trivial

theorem queue_fifo_fifteen : 15 + 1 < 2 ^ 30 ∧
    ∀ (fresh : Int → Option Nat) (ops : List (QueueOp Nat)), (∀ op ∈ ops, op ≠ .remtail) →
      AsFifo 15 (queueBlock 15 fresh) [] ops :=
  ⟨by decide, (queue_fifo_iff Nat 15 (by decide)).mpr (by decide)⟩

/-- The number of bytes of `2 ^ 30` pointers is 0 in 32 bits, so the first element is stored outside
the block. -/
theorem first_overruns_block : ¬AsFifo (2 ^ 30 - 1)
    (queueBlock ((2 ^ 30 - 1 : Nat) : Int) fun _ => (none : Option Nat)) []
      [.addtail (some 0)] := by
  rintro ⟨_, r, t, hcall, -⟩
  have hslots : (queueBlock ((2 ^ 30 - 1 : Nat) : Int) fun _ => (none : Option Nat)).slots = 0 := by
    decide
  obtain ⟨hin, -⟩ := (Option.ite_none_right_eq_some.mp hcall).1
  have hlt := hin 0 (by decide)
  rw [hslots] at hlt
  omega

/-- In a block that is large enough, a queue does what a list does, `queue_remtail` included,
exactly when every call of `queue_remtail` finds the last element. -/
theorem queue_remtail_iff (n : Nat) (hn : n + 1 < 2 ^ 30) (fresh : Int → Option α)
    (ops : List (QueueOp α)) : AsFifo n (queueBlock n fresh) [] ops ↔
      Guarded queueAfter (fun s op => ReadsLast s.queue op) (queueBlock n fresh) ops := by
  rw [queueBlock_eq hn]
  exact asFifo_iff hn ops (queueCreate_keeps n fresh) rfl

theorem queue_remtail_seven : AsFifo 4 (queueBlock ((4 : Nat) : Int) fun _ => some 7) []
    [.addtail (some 3), .addtail (some 7), .remtail, .remhead, .count] :=
  (queue_remtail_iff 4 (by decide) _ _).mpr (by decide)

/-- A pointer that was just put into an empty queue is not what `queue_remtail` returns. -/
theorem remtail_reads_behind : ¬AsFifo 4 (queueBlock ((4 : Nat) : Int) fun _ => none) []
    [.addtail (some 1), .remtail] := by
  rw [queueBlock_eq (by decide), asFifo_iff (by decide) _ (queueCreate_keeps 4 _) rfl]
  decide

end PrplHypervisor.Kernel
