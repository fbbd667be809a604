import PrplHypervisor.Kernel.Vm

/-! What the hardware does with the TLB entries that `create_vm` fills: the pages that an entry
makes valid, the addresses that it matches, and where it sends them. -/

namespace PrplHypervisor.Kernel

open Arch Lib.Words

/-- The TLB entry that `create_vm` writes for an entry of the configuration. -/
def TlbEntries.installed (t : TlbEntries) (guestid index : UInt32) : HwTlbEntry :=
  (fillTlbEntry guestid index t).toHw guestid

/-- The fields of a generated entry are those of an entry with pages of `page` bytes. -/
structure TlbEntries.Paged (t : TlbEntries) (page : Nat) : Prop where
  entrylo0 : t.entrylo0.toNat < 2 ^ 17
  entrylo1 : t.entrylo1.toNat < 2 ^ 17
  entryhi : t.entryhi.toNat < 2 ^ 17
  coherency : t.coherency.toNat < 8
  mask : t.pagemask.toNat < 2 ^ 16
  page : page = (t.pagemask.toNat + 1) * 4096

variable {t : TlbEntries} {page : Nat} (guestid index : UInt32)

theorem flags_fill (lo : UInt32) :
    (if lo ≠ 0 then ENTRYLO_V ||| ENTRYLO_D else 0).toNat < 8 ∧
      (loValid (if lo ≠ 0 then ENTRYLO_V ||| ENTRYLO_D else 0) ↔ lo ≠ 0) := by
  split_ifs with hzero
  · exact ⟨by decide, iff_of_true (by decide) hzero⟩
  · exact ⟨by decide, iff_of_false (by decide) hzero⟩

namespace TlbEntries.Paged

theorem fill (h : t.Paged page) : (fillTlbEntry guestid index t).Paged page where
  entrylo0 := h.entrylo0.trans (by decide)
  lo0flags := (flags_fill t.entrylo0).1
  entrylo1 := h.entrylo1.trans (by decide)
  lo1flags := (flags_fill t.entrylo1).1
  coherency := h.coherency
  mask := h.mask
  page := h.page

theorem pos (h : t.Paged page) : 0 < page := by
  rw [h.page]
  exact Nat.mul_pos (Nat.succ_pos _) (by decide)

theorem pageSize (h : t.Paged page) : (t.installed guestid index).pageSize = page :=
  (h.fill guestid index).pageSize guestid

theorem maps_iff (h : t.Paged page) (pa : Nat) : (t.installed guestid index).Maps pa ↔
    t.entrylo0 ≠ 0 ∧ InFrame page t.entrylo0 pa ∨ t.entrylo1 ≠ 0 ∧ InFrame page t.entrylo1 pa := by
  rw [installed, (h.fill guestid index).maps_iff]
  exact or_congr (and_congr_left' (flags_fill t.entrylo0).2)
    (and_congr_left' (flags_fill t.entrylo1).2)

/-- Bit 12 of the address that is written to EntryHi does not count. -/
theorem matches_iff (h : t.Paged page) (a : Nat) : (t.installed guestid index).Matches a ↔
    t.entryhi.toNat * 4096 / (2 * page) = a / (2 * page) := by
  have hhi := h.entryhi
  have hshift : (t.entryhi <<< ENTRYHI_VPN2_SHIFT).toNat = t.entryhi.toNat * 4096 :=
    toNat_shiftLeft_of_lt (k := 12) rfl (by decide) (by omega)
  have hmask : ENTRYHI_MASK = ~~~(0x1FFF : UInt32) := by decide
  have hentryhi : (t.installed guestid index).entryhi.toNat =
      t.entryhi.toNat * 4096 / 2 ^ 13 * 2 ^ 13 := by
    show ((t.entryhi <<< ENTRYHI_VPN2_SHIFT) &&& ENTRYHI_MASK).toNat = _
    rw [hmask, toNat_and_not_low (k := 13) rfl, hshift]
  have hspan : 2 * page = 2 ^ 13 * (t.pagemask.toNat + 1) := by
    rw [h.page]
    omega
  rw [HwTlbEntry.Matches, h.pageSize, hentryhi, hspan, ← Nat.div_div_eq_div_mul,
    Nat.mul_div_cancel _ (by decide), Nat.div_div_eq_div_mul]

theorem translate_eq (h : t.Paged page) (a : Nat) : (t.installed guestid index).translate a =
    let lo := if a / page % 2 = 0 then t.entrylo0 else t.entrylo1
    if lo ≠ 0 then some (lo.toNat * 4096 / page * page + a % page) else none := by
  have hhalf : (t.installed guestid index).half a =
      let lo := if a / page % 2 = 0 then t.entrylo0 else t.entrylo1
      entryLo lo (if lo ≠ 0 then ENTRYLO_V ||| ENTRYLO_D else 0) t.coherency := by
    rw [HwTlbEntry.half, h.pageSize]
    dsimp only
    by_cases hparity : a / page % 2 = 0
    · rw [if_pos hparity, if_pos hparity]
      rfl
    · rw [if_neg hparity, if_neg hparity]
      rfl
  have hlo : (if a / page % 2 = 0 then t.entrylo0 else t.entrylo1).toNat < 2 ^ 17 := by
    split_ifs
    · exact h.entrylo0
    · exact h.entrylo1
  generalize hlo' : (if a / page % 2 = 0 then t.entrylo0 else t.entrylo1) = lo at hhalf hlo
  obtain ⟨hflags, hvalid⟩ := flags_fill lo
  have hbase := (h.fill guestid index).pageBase guestid (hlo.trans (by decide)) hflags
  have hvalid' := (loValid_entryLo (hlo.trans (by decide)) hflags h.coherency).trans hvalid
  rw [HwTlbEntry.translate, hhalf, h.pageSize]
  dsimp only
  rw [if_congr hvalid' rfl rfl]
  exact congrArg (fun b => if lo ≠ 0 then some (b + a % page) else none) hbase

end TlbEntries.Paged

end PrplHypervisor.Kernel
