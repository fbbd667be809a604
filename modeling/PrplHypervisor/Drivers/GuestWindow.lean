import PrplHypervisor.Drivers.Window

/-! The accesses of a hypercall to a buffer of its guest.  The address comes from the guest and
nothing is checked: an access that is not aligned, or that the temporary entry does not map, raises
an exception in the hypervisor, which halts it. -/

namespace PrplHypervisor.Drivers

open Arch Kernel Lib.Words

/-- The address that a buffer is mapped at, and the temporary entry. -/
structure Window where
  address : UInt32
  entry : HwTlbEntry

/-- The window that a hypercall of `caller` has after `tlbCreateEntry`. -/
def guestWindow (hv : Hv) (caller : VcpuPtr) (address size useCache : UInt32) : Window :=
  let mapped :=
    tlbCreateEntry hv.cpu address (hv.vcpus caller).vm.baseAddr size MAPPED_INDEX useCache
  ⟨mapped.1, mapped.2.tlb MAPPED_INDEX⟩

/-- An access of `bytes` bytes at an offset of the window is aligned and gets at the RAM of the
guests, which has the physical addresses `ram`. -/
def Window.Has (w : Window) (ram : Nat → Bool) (bytes offset : Nat) : Prop :=
  let a := (w.address + UInt32.ofNat offset).toNat
  bytes ∣ a ∧ w.entry.Matches a ∧ (w.entry.translate a).any ram = true

instance (w : Window) (ram : Nat → Bool) (bytes offset : Nat) :
    Decidable (w.Has ram bytes offset) :=
  inferInstanceAs (Decidable (_ ∧ _ ∧ _))

/-- The window shows the buffer, and the buffer is in the RAM of the guests.  The VM begins at a
page. -/
structure BufferMapped (ram : Nat → Bool) (hv : Hv) (caller : VcpuPtr)
    (address size useCache : UInt32) : Prop where
  page : 4096 ∣ (hv.vcpus caller).vm.baseAddr.toNat
  shown : WindowTranslates hv.cpu address (hv.vcpus caller).vm.baseAddr size MAPPED_INDEX useCache
  inRam : ∀ i < size.toNat,
    ram ((hv.vcpus caller).vm.baseAddr.toNat - 2 ^ 31 + (address.toNat - 2 ^ 31) + i) = true

variable {ram : Nat → Bool} {hv : Hv} {caller : VcpuPtr} {address size useCache : UInt32} {i : Nat}

namespace BufferMapped

theorem has (h : BufferMapped ram hv caller address size useCache) {bytes : Nat}
    (hi : i < size.toNat)
    (haligned : bytes ∣ ((guestWindow hv caller address size useCache).address +
      UInt32.ofNat i).toNat) : (guestWindow hv caller address size useCache).Has ram bytes i := by
  obtain ⟨hmatches, htranslate⟩ := h.shown i hi
  exact ⟨haligned, hmatches, (congrArg (Option.any ram) htranslate).trans (h.inRam i hi)⟩

theorem has_byte (h : BufferMapped ram hv caller address size useCache) (hi : i < size.toNat) :
    (guestWindow hv caller address size useCache).Has ram 1 i :=
  h.has hi (Nat.one_dvd _)

/-- The window of a buffer at a word boundary is at one too. -/
theorem has_word (h : BufferMapped ram hv caller address size useCache)
    (haligned : 4 ∣ address.toNat) (hi : 4 * i < size.toNat) :
    (guestWindow hv caller address size useCache).Has ram 4 (4 * i) := by
  apply h.has hi
  have hbase := h.page
  have hpage := windowPage_mod (hv.vcpus caller).vm.baseAddr useCache
  have haddress := toNat_mapped_add address (hv.vcpus caller).vm.baseAddr size MAPPED_INDEX useCache
    hv.cpu hbase (4 * i)
  show 4 ∣ ((tlbCreateEntry hv.cpu address (hv.vcpus caller).vm.baseAddr size MAPPED_INDEX
    useCache).1 + UInt32.ofNat (4 * i)).toNat
  rw [haddress]
  omega

end BufferMapped

end PrplHypervisor.Drivers
