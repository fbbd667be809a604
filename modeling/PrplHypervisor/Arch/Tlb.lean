import PrplHypervisor.Arch.Cpu
import PrplHypervisor.Lib.Words

/-! The TLB (`arch/mips/common/tlb.c`): the entries the hypervisor writes, the temporary entry of a
hypercall, and what an entry of the hardware matches and maps. -/

namespace PrplHypervisor.Arch

open Lib.Words

def ENTRYLO_D : UInt32 := (1 : UInt32) <<< 2
def ENTRYLO_V : UInt32 := (1 : UInt32) <<< 1
def ENTRYLO_C_SHIFT : UInt32 := 3
def ENTRYLO_PFN_SHIFT : UInt32 := 6
def PAGEMASK_MASK_SHIFT : UInt32 := 13
def ENTRYHI_VPN2_SHIFT : UInt32 := 12
def ENTRYHI_MASK : UInt32 := 0xFFFFE000

def PAGEMASK_4KB : UInt32 := 0
def PAGEMASK_16KB : UInt32 := 0x3
def PAGEMASK_64KB : UInt32 := 0xF
def PAGEMASK_256KB : UInt32 := 0x3F
def PAGEMASK_1MB : UInt32 := 0xFF
def PAGEMASK_4MB : UInt32 := 0x3FF
def PAGEMASK_16MB : UInt32 := 0xFFF
def PAGEMASK_256MB : UInt32 := 0xFFFF

def CACHEABLE : UInt32 := 1
def NONCACHEABLE : UInt32 := 0

structure TlbEntry where
  guestid : UInt32
  index : UInt32
  entrylo0 : UInt32
  lo0flags : UInt32
  entrylo1 : UInt32
  lo1flags : UInt32
  pagemask : UInt32
  entryhi : UInt32
  coherency : UInt32
  deriving DecidableEq, Repr

/-- The value of EntryLo0 or EntryLo1 for a frame number, flags and a coherency attribute. -/
def entryLo (pfn flags coherency : UInt32) : UInt32 :=
  (pfn <<< ENTRYLO_PFN_SHIFT) ||| flags ||| (coherency <<< ENTRYLO_C_SHIFT)

/-- The registers that `tlbEntryWrite` commits for `entry`, under the guest id `guestid`. -/
def TlbEntry.toHw (entry : TlbEntry) (guestid : UInt32) : HwTlbEntry where
  guestid := guestid
  entrylo0 := entryLo entry.entrylo0 entry.lo0flags entry.coherency
  entrylo1 := entryLo entry.entrylo1 entry.lo1flags entry.coherency
  pagemask := entry.pagemask <<< PAGEMASK_MASK_SHIFT
  entryhi := (entry.entryhi <<< ENTRYHI_VPN2_SHIFT) &&& ENTRYHI_MASK

/-- `tlbEntryWrite`: the entry goes to its index of the TLB with the guest id of GuestCTL1. -/
def tlbEntryWrite (cpu : Cpu) (entry : TlbEntry) : Cpu :=
  let cpu := setGuestRID cpu entry.guestid
  let guestid := (cpu.guestctl1 &&& GUESTCTL1_RID) >>> 16
  { cpu with tlb := Function.update cpu.tlb entry.index (entry.toHw guestid) }

/-- The entry that `tlbCreateEntry` writes. -/
def createdEntry (address baseaddr size tlbindex useCache : UInt32) : TlbEntry :=
  let kseg : UInt32 := if useCache ≠ 0 then 0x80000000 else 0xA0000000
  let crosses := address / 0x1000 < (address + size) / 0x1000
  { guestid := 0
    index := tlbindex
    entrylo0 := ((baseaddr - 0x80000000) + (address - 0x80000000)) >>> 12
    lo0flags := ENTRYLO_V ||| ENTRYLO_D
    entrylo1 :=
      if crosses then ((baseaddr - 0x80000000) + address + size - 0x80000000) >>> 12 else 0
    lo1flags := if crosses then ENTRYLO_V ||| ENTRYLO_D else 0
    pagemask := PAGEMASK_4KB
    entryhi := (baseaddr - kseg) >>> 12
    coherency := if useCache ≠ 0 then 4 else 2 }

/-- `tlbCreateEntry`: a temporary root entry for a guest buffer, and the address it is mapped at. -/
def tlbCreateEntry (cpu : Cpu) (address baseaddr size tlbindex useCache : UInt32) :
    UInt32 × Cpu :=
  let kseg : UInt32 := if useCache ≠ 0 then 0x80000000 else 0xA0000000
  ((address &&& 0xFFF) + baseaddr - kseg,
    tlbEntryWrite cpu (createdEntry address baseaddr size tlbindex useCache))

@[simp] theorem tlbEntryWrite_guestctl2 (cpu : Cpu) (entry : TlbEntry) :
    (tlbEntryWrite cpu entry).guestctl2 = cpu.guestctl2 := rfl

@[simp] theorem tlbCreateEntry_guestctl2 (cpu : Cpu) (a b s i c : UInt32) :
    (tlbCreateEntry cpu a b s i c).2.guestctl2 = cpu.guestctl2 := rfl

/-! ### What the hardware does with an entry -/

/-- The valid bit of EntryLo0 or EntryLo1. -/
def loValid (lo : UInt32) : Prop := lo &&& ENTRYLO_V ≠ 0

instance (lo : UInt32) : Decidable (loValid lo) := inferInstanceAs (Decidable (_ ≠ _))

/-- The frame number of EntryLo0 or EntryLo1: the 24 bits between the attributes and the inhibit
bits. -/
def loPfn (lo : UInt32) : Nat := lo.toNat / 64 % 2 ^ 24

namespace HwTlbEntry

/-- The page size of an entry, from the mask field of PageMask. -/
def pageSize (e : HwTlbEntry) : Nat := (e.pagemask.toNat / 2 ^ 13 + 1) * 4096

/-- The physical address of the page behind EntryLo0 or EntryLo1.  The bits of the frame number
below the page size are ignored. -/
def pageBase (e : HwTlbEntry) (lo : UInt32) : Nat := loPfn lo * 4096 / e.pageSize * e.pageSize

/-- The entry is used for the address `a`: they have the same pair of pages. -/
def Matches (e : HwTlbEntry) (a : Nat) : Prop :=
  e.entryhi.toNat / (2 * e.pageSize) = a / (2 * e.pageSize)

instance (e : HwTlbEntry) (a : Nat) : Decidable (e.Matches a) := inferInstanceAs (Decidable (_ = _))

/-- The half of the pair that the address `a` is in. -/
def half (e : HwTlbEntry) (a : Nat) : UInt32 :=
  if a / e.pageSize % 2 = 0 then e.entrylo0 else e.entrylo1

/-- The physical address of `a` under an entry that matches it, or `none` for an invalid half. -/
def translate (e : HwTlbEntry) (a : Nat) : Option Nat :=
  if loValid (e.half a) then some (e.pageBase (e.half a) + a % e.pageSize) else none

/-- The physical address `pa` is in a page that the entry makes valid. -/
def Maps (e : HwTlbEntry) (pa : Nat) : Prop :=
  ∃ lo, (lo = e.entrylo0 ∨ lo = e.entrylo1) ∧ loValid lo ∧
    e.pageBase lo ≤ pa ∧ pa < e.pageBase lo + e.pageSize

end HwTlbEntry

/-! ### The fields of EntryLo -/

theorem toNat_entryLo {pfn flags coherency : UInt32} (hp : pfn.toNat < 2 ^ 26)
    (hf : flags.toNat < 8) (hc : coherency.toNat < 8) :
    (entryLo pfn flags coherency).toNat = pfn.toNat * 64 + (coherency.toNat * 8 + flags.toNat) := by
  have hpfn : (pfn <<< ENTRYLO_PFN_SHIFT).toNat = pfn.toNat <<< 6 := by
    rw [toNat_shiftLeft_of_lt (k := 6) rfl (by decide) (by omega), Nat.shiftLeft_eq]
  have hcoh : (coherency <<< ENTRYLO_C_SHIFT).toNat = coherency.toNat <<< 3 := by
    rw [toNat_shiftLeft_of_lt (k := 3) rfl (by decide) (by omega), Nat.shiftLeft_eq]
  have hlow : flags.toNat ||| coherency.toNat <<< 3 = coherency.toNat * 8 + flags.toNat := by
    rw [Nat.or_comm, shiftLeft_or (k := 3) hf]
    rfl
  rw [entryLo, UInt32.toNat_or, UInt32.toNat_or, hpfn, hcoh, Nat.or_assoc, hlow,
    shiftLeft_or (k := 6) (by omega)]
  rfl

theorem loPfn_entryLo {pfn flags coherency : UInt32} (hp : pfn.toNat < 2 ^ 24)
    (hf : flags.toNat < 8) (hc : coherency.toNat < 8) :
    loPfn (entryLo pfn flags coherency) = pfn.toNat := by
  rw [loPfn, toNat_entryLo (by omega) hf hc]
  omega

theorem loValid_entryLo {pfn flags coherency : UInt32} (hp : pfn.toNat < 2 ^ 26)
    (hf : flags.toNat < 8) (hc : coherency.toNat < 8) :
    loValid (entryLo pfn flags coherency) ↔ loValid flags := by
  have hbit : ∀ x : UInt32, loValid x ↔ x.toNat / 2 % 2 = 1 := by
    intro x
    have hand : (x &&& ENTRYLO_V).toNat = 2 * (x.toNat / 2 % 2) := by
      rw [UInt32.toNat_and, show ENTRYLO_V.toNat = 2 ^ 1 by decide, Nat.and_two_pow,
        Nat.toNat_testBit]
      omega
    rw [loValid, ne_eq, ← UInt32.toNat_inj, hand, UInt32.toNat_zero]
    omega
  rw [hbit, hbit, toNat_entryLo hp hf hc]
  omega

/-! ### The pages of an entry -/

/-- The fields of an entry fit in those of the registers, for pages of `page` bytes. -/
structure TlbEntry.Paged (t : TlbEntry) (page : Nat) : Prop where
  entrylo0 : t.entrylo0.toNat < 2 ^ 24
  lo0flags : t.lo0flags.toNat < 8
  entrylo1 : t.entrylo1.toNat < 2 ^ 24
  lo1flags : t.lo1flags.toNat < 8
  coherency : t.coherency.toNat < 8
  mask : t.pagemask.toNat < 2 ^ 16
  page : page = (t.pagemask.toNat + 1) * 4096

/-- A physical address in the page of `page` bytes of a frame number. -/
def InFrame (page : Nat) (pfn : UInt32) (pa : Nat) : Prop :=
  pfn.toNat * 4096 / page * page ≤ pa ∧ pa < pfn.toNat * 4096 / page * page + page

namespace TlbEntry.Paged

variable {t : TlbEntry} {page : Nat} (guestid : UInt32)

theorem pageSize (h : t.Paged page) : (t.toHw guestid).pageSize = page := by
  have hmask := h.mask
  have hshift : (t.pagemask <<< PAGEMASK_MASK_SHIFT).toNat = t.pagemask.toNat * 2 ^ 13 :=
    toNat_shiftLeft_of_lt (k := 13) rfl (by decide) (by omega)
  rw [HwTlbEntry.pageSize, h.page]
  show ((t.pagemask <<< PAGEMASK_MASK_SHIFT).toNat / 2 ^ 13 + 1) * 4096 = _
  rw [hshift, Nat.mul_div_cancel _ (by decide)]

theorem pageBase (h : t.Paged page) {pfn flags : UInt32} (hpfn : pfn.toNat < 2 ^ 24)
    (hflags : flags.toNat < 8) :
    (t.toHw guestid).pageBase (entryLo pfn flags t.coherency) = pfn.toNat * 4096 / page * page := by
  rw [HwTlbEntry.pageBase, h.pageSize, loPfn_entryLo hpfn hflags h.coherency]

/-- An entry maps the frames of the halves that its flags make valid. -/
theorem maps_iff (h : t.Paged page) (pa : Nat) : (t.toHw guestid).Maps pa ↔
    loValid t.lo0flags ∧ InFrame page t.entrylo0 pa ∨
      loValid t.lo1flags ∧ InFrame page t.entrylo1 pa := by
  have hlo0 := h.entrylo0
  have hlo1 := h.entrylo1
  have hbase0 := h.pageBase guestid hlo0 h.lo0flags
  have hbase1 := h.pageBase guestid hlo1 h.lo1flags
  have hvalid0 := loValid_entryLo (Nat.lt_trans hlo0 (by decide)) h.lo0flags h.coherency
  have hvalid1 := loValid_entryLo (Nat.lt_trans hlo1 (by decide)) h.lo1flags h.coherency
  unfold HwTlbEntry.Maps InFrame
  rw [h.pageSize, ← hbase0, ← hbase1, ← hvalid0, ← hvalid1]
  constructor
  · rintro ⟨lo, rfl | rfl, hvalid, hpage⟩
    · exact Or.inl ⟨hvalid, hpage⟩
    · exact Or.inr ⟨hvalid, hpage⟩
  · rintro (⟨hvalid, hpage⟩ | ⟨hvalid, hpage⟩)
    · exact ⟨_, Or.inl rfl, hvalid, hpage⟩
    · exact ⟨_, Or.inr rfl, hvalid, hpage⟩

end TlbEntry.Paged

end PrplHypervisor.Arch
