import PrplHypervisor.Drivers.MessageQueue
import PrplHypervisor.Lib.Partial
import PrplHypervisor.Lib.Words

/-! The interrupt redirection driver of PIC32MZ (`drivers/pic32mz-interrupt-redirect.c`).  The
handler looks for raised lines in the order of its table.  A line that it finds is acknowledged, but
injected only when the processor's register does not have the virtual interrupt yet, whoever it is
for. -/

namespace PrplHypervisor.Drivers

open Arch Kernel Lib.Words Lib.Partial

def GUEST_USER_DEFINED_INT_1 : UInt32 := 0x10

/-- `struct interrupt_mapping`. -/
structure InterruptMapping where
  irqNumber : UInt32
  irqGuest : UInt32
  vcpu : VcpuPtr
  deriving DecidableEq, Repr

/-- The driver with the registers of the interrupt controller that it uses: the flags and the enable
bits, 32 lines in a register. -/
structure Redirect where
  hv : Hv
  ifs : UInt32 → UInt32
  iec : UInt32 → UInt32
  interruptMappingList : List InterruptMapping

/-- The bit of a line in its register, `1 << (irq & 31)`. -/
def irqMask (irq : UInt32) : UInt32 := 1 <<< (irq &&& 31)

/-- The flag of a line, as the handler tests it. -/
def Redirect.Raised (s : Redirect) (irq : UInt32) : Prop :=
  HasBits (s.ifs (irq >>> 5)) (irqMask irq)

instance (s : Redirect) (irq : UInt32) : Decidable (s.Raised irq) :=
  inferInstanceAs (Decidable (HasBits _ _))

def Redirect.ifsClr (s : Redirect) (irq : UInt32) : Redirect :=
  { s with ifs := Function.update s.ifs (irq >>> 5) (s.ifs (irq >>> 5) &&& ~~~irqMask irq) }

def Redirect.iecClr (s : Redirect) (irq : UInt32) : Redirect :=
  { s with iec := Function.update s.iec (irq >>> 5) (s.iec (irq >>> 5) &&& ~~~irqMask irq) }

def Redirect.iecSet (s : Redirect) (irq : UInt32) : Redirect :=
  { s with iec := Function.update s.iec (irq >>> 5) (s.iec (irq >>> 5) ||| irqMask irq) }

/-- The virtual interrupt of an entry, at its place in GuestCTL2. -/
def InterruptMapping.bits (m : InterruptMapping) : UInt32 := m.irqGuest <<< GUESTCLT2_GRIPL_SHIFT

/-- One iteration of `interrupt_injection`. -/
def injectEntry (s : Redirect) (m : InterruptMapping) : Redirect :=
  if s.Raised m.irqNumber then
    let s := s.ifsClr m.irqNumber
    let guestctl := getGuestCTL2 s.hv.cpu
    if ¬HasBits guestctl m.bits then
      let s := s.iecClr m.irqNumber
      if some m.vcpu = s.hv.executing then
        { s with hv := { s.hv with cpu := setGuestCTL2 s.hv.cpu (guestctl ||| m.bits) } }
      else
        let vcpu := s.hv.vcpus m.vcpu
        { s with hv := fastInterruptDelivery (s.hv.setVcpu m.vcpu
          { vcpu with guestclt2 := vcpu.guestclt2 ||| m.bits }) m.vcpu }
    else s
  else s

def interruptInjection (s : Redirect) : Redirect := s.interruptMappingList.foldl injectEntry s

/-- `reenable_interrupt`, when `interrupt_mapping_list` has the entries `l` from the loop index
on. -/
def reenableLoop (interrupt : UInt32) (s : Redirect) : List InterruptMapping → Redirect
  | [] => { s with hv := setGuestGPR .pic32mz s.hv REG_V0 1 }
  | m :: l =>
    if s.hv.executing = some m.vcpu then
      if interrupt = m.irqGuest then
        let s := s.iecSet m.irqNumber
        let vcpu := s.hv.vcpus m.vcpu
        { s with hv := setGuestGPR .pic32mz (s.hv.setVcpu m.vcpu
          { vcpu with guestclt2 := vcpu.guestclt2 &&& ~~~m.bits }) REG_V0 0 }
      else reenableLoop interrupt s l
    else reenableLoop interrupt s l

def reenableInterrupt (s : Redirect) : Redirect :=
  reenableLoop (moveFromPreviousGuestGPR .pic32mz s.hv.cpu REG_A0) s s.interruptMappingList

/-- The entries of one VCPU: its lines in order, each with the next virtual interrupt. -/
def mappingsOf (vcpu : VcpuPtr) (intRedirect : List UInt32) : List InterruptMapping :=
  intRedirect.mapIdx fun j irq =>
    { irqNumber := irq, irqGuest := GUEST_USER_DEFINED_INT_1 <<< UInt32.ofNat j, vcpu := vcpu }

/-- The VCPU with id `i + 1`, which `interrupt_redirect_init` uses without a test for `NULL`. -/
def redirectedVcpu (hv : Hv) (i : Nat) : Except Fault VcpuPtr := do
  match ← getVcpuFromId hv (UInt32.ofNat (i + 1)) with
  | some v => .ok v
  | none => .error .nullPointer

/-- `interrupt_redirect_init`: the table, and its lines acknowledged and enabled. -/
def interruptRedirectInit (nvmachines : Nat) (s : Redirect) : Except Fault Redirect := do
  let vcpus ← (List.range nvmachines).mapM (redirectedVcpu s.hv)
  let l := vcpus.flatMap fun v => mappingsOf v (s.hv.vcpus v).vm.vmconf.interruptRedirect
  return { l.foldl (fun s m => (s.ifsClr m.irqNumber).iecSet m.irqNumber) s with
    interruptMappingList := l }

/-! ### Lines and bits -/

theorem toNat_line (irq : UInt32) : (irq &&& 31).toNat = irq.toNat % 32 :=
  toNat_and_low (k := 5) rfl

theorem toNat_register (irq : UInt32) : (irq >>> 5).toNat = irq.toNat / 32 :=
  toNat_shiftRight (k := 5) rfl (by decide)

theorem irqMask_isBit (irq : UInt32) : IsBit (irqMask irq) :=
  isBit_shiftLeft (toNat_line irq) (Nat.mod_lt _ (by decide))

/-- A line is its register and its bit. -/
theorem line_inj {a b : UInt32} (hregister : a >>> 5 = b >>> 5) (hmask : irqMask a = irqMask b) :
    a = b := by
  have hdiv := congrArg UInt32.toNat hregister
  have hmod := congrArg UInt32.toNat hmask
  rw [toNat_register, toNat_register] at hdiv
  have hpow : ∀ x : UInt32, (irqMask x).toNat = 2 ^ (x.toNat % 32) := by
    intro x
    have hlt : 2 ^ (x.toNat % 32) < 2 ^ 32 :=
      Nat.pow_lt_pow_right (by decide) (Nat.mod_lt _ (by decide))
    rw [irqMask, toNat_shiftLeft_of_lt (toNat_line x) (Nat.mod_lt _ (by decide))
      (by rwa [UInt32.toNat_one, Nat.one_mul]), UInt32.toNat_one, Nat.one_mul]
  rw [hpow, hpow, Nat.pow_right_inj (le_refl 2)] at hmod
  rw [← UInt32.toNat_inj]
  omega

/-- Acknowledging a line clears its flag and no other one. -/
theorem raised_ifsClr (s : Redirect) (a b : UInt32) :
    (s.ifsClr a).Raised b ↔ s.Raised b ∧ b ≠ a := by
  unfold Redirect.Raised Redirect.ifsClr
  by_cases hregister : b >>> 5 = a >>> 5
  · simp only [hregister, Function.update_self]
    rw [(irqMask_isBit b).hasBits_and_not, (irqMask_isBit a).hasBits_iff (irqMask_isBit b)]
    constructor
    · rintro ⟨hbits, hne⟩
      exact ⟨hbits, fun heq => hne (heq ▸ rfl)⟩
    · rintro ⟨hbits, hne⟩
      exact ⟨hbits, fun hmask => hne (line_inj hregister hmask.symm)⟩
  · simp only [Function.update_of_ne hregister]
    exact ⟨fun hbits => ⟨hbits, fun heq => hregister (heq ▸ rfl)⟩, fun h => h.1⟩

/-- The virtual interrupts go as far as bit 31; what is shifted out leaves none. -/
theorem guestBits (j : UInt32) :
    (GUEST_USER_DEFINED_INT_1 <<< j) <<< GUESTCLT2_GRIPL_SHIFT = 0 ∨
      IsBit ((GUEST_USER_DEFINED_INT_1 <<< j) <<< GUESTCLT2_GRIPL_SHIFT) := by
  have hlt : j.toNat % 32 < 32 := Nat.mod_lt _ (by decide)
  have hshift : ((GUEST_USER_DEFINED_INT_1 <<< j) <<< GUESTCLT2_GRIPL_SHIFT).toNat =
      16 * 2 ^ (j.toNat % 32) % 2 ^ 32 * 2 ^ 24 % 2 ^ 32 := by
    rw [toNat_shiftLeft (k := 24) rfl (by decide), UInt32.toNat_shiftLeft, Nat.shiftLeft_eq]
    rfl
  have hcases :
      ∀ k < 32, 16 * 2 ^ k % 2 ^ 32 * 2 ^ 24 % 2 ^ 32 = if k < 4 then 2 ^ (28 + k) else 0 := by
    decide
  rw [hcases _ hlt] at hshift
  split_ifs at hshift with hsmall
  · exact Or.inr ⟨28 + j.toNat % 32, by omega, hshift⟩
  · exact Or.inl (UInt32.toNat_inj.mp hshift)

/-! ### One call of the handler -/

/-- An entry whose line is raised, and behind entries for other lines: the handler finds it
raised. -/
structure Fires (s : Redirect) (l pre : List InterruptMapping) (m : InterruptMapping) : Prop where
  place : pre ++ [m] <+: l
  raised : s.Raised m.irqNumber
  first : ∀ k ∈ pre, k.irqNumber ≠ m.irqNumber

variable {s : Redirect} {l pre : List InterruptMapping} {m k : InterruptMapping}

theorem Fires.last (h : Fires s (l ++ [m]) pre k) :
    (pre = l ∧ k = m ∧ s.Raised m.irqNumber ∧ ∀ x ∈ l, x.irqNumber ≠ m.irqNumber) ∨
      Fires s l pre k := by
  rcases List.prefix_concat_iff.mp h.place with heq | hpre
  · obtain ⟨rfl, hk⟩ := List.append_inj' heq rfl
    obtain rfl := List.singleton_inj.mp hk
    exact Or.inl ⟨rfl, rfl, h.raised, h.first⟩
  · exact Or.inr ⟨hpre, h.raised, h.first⟩

theorem Fires.append (h : Fires s l pre k) (m : InterruptMapping) : Fires s (l ++ [m]) pre k :=
  ⟨h.place.trans (List.prefix_append l [m]), h.raised, h.first⟩

@[simp] theorem fastInterruptDelivery_executing (hv : Hv) (v : VcpuPtr) :
    (fastInterruptDelivery hv v).executing = hv.executing := by
  unfold fastInterruptDelivery
  split_ifs <;> rfl

@[simp] theorem fastInterruptDelivery_cpu (hv : Hv) (v : VcpuPtr) :
    (fastInterruptDelivery hv v).cpu = hv.cpu := by
  unfold fastInterruptDelivery
  split_ifs <;> rfl

@[simp] theorem fastInterruptDelivery_guestclt2 (hv : Hv) (target v : VcpuPtr) :
    ((fastInterruptDelivery hv target).vcpus v).guestclt2 = (hv.vcpus v).guestclt2 := by
  obtain ⟨critical, heq⟩ := fastInterruptDelivery_vcpu hv target v
  rw [heq]

theorem injectEntry_executing (s : Redirect) (m : InterruptMapping) :
    (injectEntry s m).hv.executing = s.hv.executing := by
  unfold injectEntry
  dsimp only
  split_ifs
  · rfl
  · rfl
  · exact fastInterruptDelivery_executing _ _
  · rfl

theorem injectEntry_raised (s : Redirect) (m : InterruptMapping) (irq : UInt32) :
    (injectEntry s m).Raised irq ↔ s.Raised irq ∧ irq ≠ m.irqNumber := by
  unfold injectEntry
  dsimp only
  split_ifs with hraised
  · exact raised_ifsClr s m.irqNumber irq
  · exact raised_ifsClr s m.irqNumber irq
  · exact raised_ifsClr s m.irqNumber irq
  · exact ⟨fun h => ⟨h, fun heq => hraised (heq ▸ h)⟩, fun h => h.1⟩

/-- What one iteration does to the register: an entry of the VCPU in execution sets its bit. -/
theorem injectEntry_guestctl2 (s : Redirect) (m : InterruptMapping) (b : UInt32) :
    HasBits (getGuestCTL2 (injectEntry s m).hv.cpu) b ↔ HasBits (getGuestCTL2 s.hv.cpu) b ∨
      (s.Raised m.irqNumber ∧ ¬HasBits (getGuestCTL2 s.hv.cpu) m.bits ∧
        some m.vcpu = s.hv.executing ∧ HasBits m.bits b) := by
  unfold injectEntry
  dsimp only [Redirect.ifsClr, Redirect.iecClr]
  split_ifs with hraised hbits hexec
  · simp [hbits]
  · dsimp only
    rw [getGuestCTL2_setGuestCTL2, hasBits_or]
    simp [hraised, hbits, hexec]
  · dsimp only
    rw [fastInterruptDelivery_cpu]
    simp [hexec]
  · simp [hraised]

/-- What it does to a saved word: an entry of another VCPU sets its bit, unless the register of the
VCPU in execution has it. -/
theorem injectEntry_guestclt2 (s : Redirect) (m : InterruptMapping) (v : VcpuPtr) (b : UInt32) :
    HasBits ((injectEntry s m).hv.vcpus v).guestclt2 b ↔ HasBits (s.hv.vcpus v).guestclt2 b ∨
      (s.Raised m.irqNumber ∧ ¬HasBits (getGuestCTL2 s.hv.cpu) m.bits ∧
        some m.vcpu ≠ s.hv.executing ∧ v = m.vcpu ∧ HasBits m.bits b) := by
  unfold injectEntry
  dsimp only [Redirect.ifsClr, Redirect.iecClr]
  split_ifs with hraised hbits hexec
  · simp [hbits]
  · simp [hexec]
  · dsimp only
    rw [fastInterruptDelivery_guestclt2, Hv.setVcpu_apply]
    split_ifs with hv
    · subst hv
      dsimp only
      rw [hasBits_or]
      simp [hraised, hbits, hexec]
    · simp [hv]
  · simp [hraised]

/-! ### A whole call -/

theorem foldl_injectEntry_executing (s : Redirect) (l : List InterruptMapping) :
    (l.foldl injectEntry s).hv.executing = s.hv.executing := by
  induction l generalizing s with
  | nil => rfl
  | cons m l ih => rw [List.foldl_cons, ih, injectEntry_executing]

theorem foldl_injectEntry_raised (s : Redirect) (l : List InterruptMapping) (irq : UInt32) :
    (l.foldl injectEntry s).Raised irq ↔ s.Raised irq ∧ ∀ x ∈ l, x.irqNumber ≠ irq := by
  induction l generalizing s with
  | nil => simp
  | cons m l ih =>
    rw [List.foldl_cons, ih, injectEntry_raised, List.forall_mem_cons, and_assoc, ne_comm]

/-- Every entry carries one virtual interrupt, or none. -/
def SingleBits (l : List InterruptMapping) : Prop := ∀ m ∈ l, m.bits = 0 ∨ IsBit m.bits

theorem SingleBits.hasBits_iff (hl : SingleBits l) (hm : m ∈ l) {b : UInt32} (hb : IsBit b) :
    HasBits m.bits b ↔ m.bits = b := by
  rcases hl m hm with hzero | hbit
  · rw [hzero]
    exact ⟨fun h => absurd (UInt32.zero_and) h, fun h => absurd h.symm hb.ne_zero⟩
  · exact hbit.hasBits_iff hb

theorem SingleBits.init (hl : SingleBits (l ++ [m])) : SingleBits l :=
  fun x hx => hl x (List.mem_append_left _ hx)

/-- The register after a call: what it had, and the virtual interrupts of the VCPU in execution. -/
theorem register_after (hl : SingleBits l) {b : UInt32} (hb : IsBit b) :
    HasBits (getGuestCTL2 (l.foldl injectEntry s).hv.cpu) b ↔ HasBits (getGuestCTL2 s.hv.cpu) b ∨
      ∃ pre k, Fires s l pre k ∧ some k.vcpu = s.hv.executing ∧ k.bits = b := by
  induction l using List.reverseRecOn with
  | nil =>
    refine ⟨Or.inl, ?_⟩
    rintro (hreg | ⟨pre, k, hfires, _⟩)
    · exact hreg
    · exact absurd (List.prefix_nil.mp hfires.place) (by simp)
  | append_singleton l m ih =>
    have hm : HasBits m.bits b ↔ m.bits = b := hl.hasBits_iff (List.mem_append_right _ (by simp)) hb
    rw [List.foldl_append, List.foldl_cons, List.foldl_nil, injectEntry_guestctl2,
      foldl_injectEntry_executing, foldl_injectEntry_raised, hm]
    constructor
    · rintro (hreg | ⟨⟨hraised, hfirst⟩, _, hexec, hbits⟩)
      · rcases (ih hl.init).mp hreg with hreg | ⟨pre, k, hfires, hk⟩
        · exact Or.inl hreg
        · exact Or.inr ⟨pre, k, hfires.append m, hk⟩
      · exact Or.inr ⟨l, m, ⟨List.prefix_rfl, hraised, hfirst⟩, hexec, hbits⟩
    · by_cases hafter : HasBits (getGuestCTL2 (l.foldl injectEntry s).hv.cpu) b
      · exact fun _ => Or.inl hafter
      rintro (hreg | ⟨pre, k, hfires, hexec, hbits⟩)
      · exact absurd ((ih hl.init).mpr (Or.inl hreg)) hafter
      rcases hfires.last with ⟨rfl, rfl, hraised, hfirst⟩ | hfires
      · exact Or.inr ⟨⟨hraised, hfirst⟩, hbits ▸ hafter, hexec, hbits⟩
      · exact absurd ((ih hl.init).mpr (Or.inr ⟨pre, k, hfires, hexec, hbits⟩)) hafter

/-- The saved word of a VCPU that does not execute: what it had, and its own virtual interrupts that
the register did not have at their turn. -/
theorem word_after (hl : SingleBits l) {b : UInt32} (hb : IsBit b) {v : VcpuPtr}
    (hv : some v ≠ s.hv.executing) :
    HasBits ((l.foldl injectEntry s).hv.vcpus v).guestclt2 b ↔
      HasBits (s.hv.vcpus v).guestclt2 b ∨ ∃ pre k, Fires s l pre k ∧ k.vcpu = v ∧ k.bits = b ∧
        ¬HasBits (getGuestCTL2 (pre.foldl injectEntry s).hv.cpu) b := by
  induction l using List.reverseRecOn with
  | nil =>
    refine ⟨Or.inl, ?_⟩
    rintro (hword | ⟨pre, k, hfires, _⟩)
    · exact hword
    · exact absurd (List.prefix_nil.mp hfires.place) (by simp)
  | append_singleton l m ih =>
    have hm : HasBits m.bits b ↔ m.bits = b := hl.hasBits_iff (List.mem_append_right _ (by simp)) hb
    rw [List.foldl_append, List.foldl_cons, List.foldl_nil, injectEntry_guestclt2,
      foldl_injectEntry_executing, foldl_injectEntry_raised, hm, ih hl.init]
    constructor
    · rintro ((hword | ⟨pre, k, hfires, hk⟩) | ⟨⟨hraised, hfirst⟩, hnot, _, hv, hbits⟩)
      · exact Or.inl hword
      · exact Or.inr ⟨pre, k, hfires.append m, hk⟩
      · exact Or.inr ⟨l, m, ⟨List.prefix_rfl, hraised, hfirst⟩, hv.symm, hbits, hbits ▸ hnot⟩
    · rintro (hword | ⟨pre, k, hfires, hvcpu, hbits, hnot⟩)
      · exact Or.inl (Or.inl hword)
      rcases hfires.last with ⟨rfl, rfl, hraised, hfirst⟩ | hfires
      · exact Or.inr ⟨⟨hraised, hfirst⟩, hbits.symm ▸ hnot, hvcpu ▸ hv, hvcpu.symm, hbits⟩
      · exact Or.inl (Or.inr ⟨pre, k, hfires, hvcpu, hbits, hnot⟩)

/-! ### Lost interrupts -/

/-- The owner of an entry has its virtual interrupt: in the register while it executes, or else in
its saved word. -/
def Pending (hv : Hv) (m : InterruptMapping) : Prop :=
  m.bits ≠ 0 ∧
    if some m.vcpu = hv.executing then HasBits (getGuestCTL2 hv.cpu) m.bits
    else HasBits (hv.vcpus m.vcpu).guestclt2 m.bits

instance (hv : Hv) (m : InterruptMapping) : Decidable (Pending hv m) :=
  inferInstanceAs (Decidable (_ ∧ _))

/-- A call of the handler leaves every line that was raised pending for its owner. -/
def NoLostInterrupt (s : Redirect) : Prop :=
  ∀ m ∈ s.interruptMappingList, s.Raised m.irqNumber → Pending (interruptInjection s).hv m

/-- When the virtual interrupt of an entry gets to its owner: it is one of the four that exist, and
it was pending already, or an entry that the handler finds raised brings it.  For a VCPU that does
not execute, the register has no such bit before the call, nor from an entry in front of that
one. -/
def Deliverable (s : Redirect) (m : InterruptMapping) : Prop :=
  m.bits ≠ 0 ∧
    if some m.vcpu = s.hv.executing then
      HasBits (getGuestCTL2 s.hv.cpu) m.bits ∨
        ∃ pre k, Fires s s.interruptMappingList pre k ∧ k.vcpu = m.vcpu ∧ k.bits = m.bits
    else
      HasBits (s.hv.vcpus m.vcpu).guestclt2 m.bits ∨
        ¬HasBits (getGuestCTL2 s.hv.cpu) m.bits ∧
          ∃ pre k, Fires s s.interruptMappingList pre k ∧ k.vcpu = m.vcpu ∧ k.bits = m.bits ∧
            ∀ pre' x, Fires s pre pre' x → some x.vcpu = s.hv.executing → x.bits ≠ m.bits

theorem Fires.single (h : Fires s l pre k) (hl : SingleBits l) : SingleBits pre :=
  fun x hx => hl x (h.place.subset (List.mem_append_left _ hx))

/-- One line of the table: its owner has it after the call exactly when it is deliverable. -/
theorem pending_iff (hl : SingleBits s.interruptMappingList) (hm : m ∈ s.interruptMappingList) :
    Pending (interruptInjection s).hv m ↔ Deliverable s m := by
  unfold Pending Deliverable interruptInjection
  rw [foldl_injectEntry_executing]
  refine and_congr_right fun hne => ?_
  have hbit : IsBit m.bits := (hl m hm).resolve_left hne
  split_ifs with hexec
  · rw [register_after hl hbit, ← hexec]
    simp only [Option.some.injEq]
  · rw [word_after hl hbit hexec]
    apply or_congr_right
    constructor
    · rintro ⟨pre, k, hfires, hvcpu, hbits, hnot⟩
      rw [register_after (hfires.single hl) hbit] at hnot
      refine ⟨fun hreg => hnot (Or.inl hreg), pre, k, hfires, hvcpu, hbits, ?_⟩
      exact fun pre' x hx hexec hbits => hnot (Or.inr ⟨pre', x, hx, hexec, hbits⟩)
    · rintro ⟨hreg, pre, k, hfires, hvcpu, hbits, hearlier⟩
      refine ⟨pre, k, hfires, hvcpu, hbits, ?_⟩
      rw [register_after (hfires.single hl) hbit]
      rintro (hset | ⟨pre', x, hx, hexec, hbits⟩)
      · exact hreg hset
      · exact hearlier pre' x hx hexec hbits

theorem mappingsOf_single (v : VcpuPtr) (intRedirect : List UInt32) :
    SingleBits (mappingsOf v intRedirect) := by
  intro m hm
  obtain ⟨j, _, rfl⟩ := List.mem_mapIdx.mp hm
  exact guestBits (UInt32.ofNat j)

/-- The driver when `interrupt_redirect_init` is called, after the VMs were created. -/
def redirectStart (power : Power) (vmconf : List VmConf) (ifs iec : UInt32 → UInt32) :
    Redirect where
  hv := initializeMachines .pic32mz power vmconf
  ifs := ifs
  iec := iec
  interruptMappingList := []

/-- Acknowledging and enabling lines leaves the hypervisor alone. -/
theorem foldl_enable_hv (l : List InterruptMapping) (s : Redirect) :
    (l.foldl (fun s m => (s.ifsClr m.irqNumber).iecSet m.irqNumber) s).hv = s.hv := by
  induction l generalizing s with
  | nil => rfl
  | cons m l ih =>
    rw [List.foldl_cons, ih]
    rfl

/-- `interrupt_redirect_init` finds every VCPU, and its table has single virtual interrupts only. -/
theorem interruptRedirectInit_table (power : Power) (vmconf : List VmConf)
    (ifs iec : UInt32 → UInt32) (halloc : AllocationsSucceed vmconf.length) :
    ∃ s, interruptRedirectInit vmconf.length (redirectStart power vmconf ifs iec) = .ok s ∧
      s.hv = initializeMachines .pic32mz power vmconf ∧ SingleBits s.interruptMappingList := by
  have hready := (initializeMachines_booted .pic32mz power vmconf).isReady
  have hvcpus : (List.range vmconf.length).mapM
      (redirectedVcpu (initializeMachines .pic32mz power vmconf)) =
        .ok (List.range vmconf.length) := by
    refine mapM_eq_ok fun v hv => ?_
    have hfound := hready.getVcpuFromId halloc (List.mem_range.mp hv)
    unfold redirectedVcpu
    erw [hfound]
    rfl
  simp only [interruptRedirectInit, redirectStart, hvcpus, bind, Except.bind]
  refine ⟨_, rfl, foldl_enable_hv _ _, ?_⟩
  intro m hm
  obtain ⟨v, _, hmem⟩ := List.mem_flatMap.mp hm
  exact mappingsOf_single v _ m hmem

/-- For every configuration, and whatever the registers and the words hold when the handler is
called: no raised line gets lost exactly when all are deliverable. -/
theorem noLostInterrupt_iff (power : Power) (vmconf : List VmConf) (ifs iec : UInt32 → UInt32)
    (halloc : AllocationsSucceed vmconf.length) :
    ∃ s₀, interruptRedirectInit vmconf.length (redirectStart power vmconf ifs iec) = .ok s₀ ∧
      ∀ s : Redirect, s.interruptMappingList = s₀.interruptMappingList →
        (NoLostInterrupt s ↔
          ∀ m ∈ s.interruptMappingList, s.Raised m.irqNumber → Deliverable s m) := by
  obtain ⟨s₀, hinit, _, hsingle⟩ := interruptRedirectInit_table power vmconf ifs iec halloc
  refine ⟨s₀, hinit, fun s hlist => ?_⟩
  have hl : SingleBits s.interruptMappingList := hlist ▸ hsingle
  exact forall₂_congr fun m hm => imp_congr_right fun _ => pending_iff hl hm

/-- Two VMs with a line each, 112 and 113. -/
def redirectPair : List VmConf :=
  pingPong.mapIdx fun i conf => { conf with interruptRedirect := [112 + UInt32.ofNat i] }

theorem noLostInterrupt_redirectPair :
    ∃ s₀, interruptRedirectInit 2
        (redirectStart .cleared redirectPair (fun _ => 0) (fun _ => 0)) = .ok s₀ ∧
      ∀ s : Redirect, s.interruptMappingList = s₀.interruptMappingList →
        (NoLostInterrupt s ↔
          ∀ m ∈ s.interruptMappingList, s.Raised m.irqNumber → Deliverable s m) :=
  noLostInterrupt_iff .cleared redirectPair (fun _ => 0) (fun _ => 0) (by decide)

/-- The first VM executes, and both lines are raised: its own sets the bit in the register, and that
of the other VM is acknowledged without being injected. -/
theorem line_lost :
    ∃ s₀, interruptRedirectInit 2
        (redirectStart .cleared redirectPair (fun _ => 0) (fun _ => 0)) = .ok s₀ ∧
      ∃ m ∈ s₀.interruptMappingList,
        let s : Redirect := { s₀ with
          hv := { s₀.hv with executing := some 0 }
          ifs := Function.update (fun _ => 0) 3 0x30000 }
        s.Raised m.irqNumber ∧ ¬(interruptInjection s).Raised m.irqNumber ∧
          ¬Pending (interruptInjection s).hv m := by
  refine ⟨_, rfl, ⟨113, 0x10, 1⟩, ?_, ?_⟩
  · decide
  · decide

end PrplHypervisor.Drivers
