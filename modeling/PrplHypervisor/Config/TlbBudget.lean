import PrplHypervisor.Config.Placement
import PrplHypervisor.Drivers.InterVm

/-! The entries of the TLB.  The generator counts the entries of all VMs and `create_vm` gives them
successive indexes.  On PIC32MZ they stay below the index of the temporary entry of a hypercall.  On
Baikal-T1 the bound is that of a larger TLB, and an entry for flash memory is emitted without being
counted. -/

namespace PrplHypervisor.Config

open Arch Kernel Lib.Partial

/-- The indexes of the entries that `create_vm` has filled and written for the first `n` VMs. -/
def tlbIndices (hv : Hv) (n : Nat) : List UInt32 :=
  (List.range n).flatMap fun v => (hv.vcpus v).vm.tlbentries.map TlbEntry.index

/-- The counts of the generator are those of the entries, and the indexes of the VMs' entries are
different ones, the temporary entry's not among them. -/
structure TlbBudget (p : Platform) (power : Power) (g : GenVms) (confs : List VmConf) : Prop where
  counted : ∀ u ∈ g.vmconf, u.tlb.length = u.numTlbEntries
  distinct : (tlbIndices (initializeMachines p power confs) confs.length).Nodup
  reserved : Drivers.MAPPED_INDEX ∉ tlbIndices (initializeMachines p power confs) confs.length

/-- What a configuration for Baikal-T1 has to meet: no flash memory, and 15 entries at most. -/
def TlbFits (p : Platform) (vms : List VmGroup) : Prop :=
  p = .baikalT1 → (∀ vm ∈ vms, vm.flashSizeBytes = none) ∧
    (vms.map fun vm => (vm.memoryMaps.getD []).length + 1).sum ≤ 15

/-! ### The indexes that `create_vm` gives -/

/-- The number of entries of the VMs. -/
def entryCount (confs : List VmConf) : Nat := (confs.map fun conf => conf.numTlbEntries.toNat).sum

theorem fillTlbEntries_index (guestid : UInt32) (k : Nat) {conf : VmConf}
    (hlength : conf.numTlbEntries.toNat ≤ conf.tlb.length) :
    (fillTlbEntries guestid (UInt32.ofNat k) conf).map TlbEntry.index =
      ((List.range conf.numTlbEntries.toNat).map (k + ·)).map UInt32.ofNat := by
  apply List.ext_getElem
  · simp [fillTlbEntries, hlength]
  · intro i hi hi'
    simp [fillTlbEntries, fillTlbEntry]

/-- The state after the VMs of `confs` were created. -/
structure Indexed (b : Boot) (confs : List VmConf) : Prop where
  nextVcpu : b.nextVcpu = confs.length
  tlbindex : b.tlbindex = UInt32.ofNat (entryCount confs)
  indices : tlbIndices b.hv confs.length = (List.range (entryCount confs)).map UInt32.ofNat

theorem Indexed.createVm {b : Boot} {confs : List VmConf} (h : Indexed b confs) (p : Platform)
    {conf : VmConf} (hlength : conf.numTlbEntries.toNat ≤ conf.tlb.length) :
    Indexed (createVm p b conf) (confs ++ [conf]) := by
  have hcount : entryCount (confs ++ [conf]) = entryCount confs + conf.numTlbEntries.toNat := by
    simp [entryCount]
  constructor
  · simp [Kernel.createVm, h.nextVcpu]
  · simp [Kernel.createVm, h.tlbindex, hcount]
  · have hbefore : tlbIndices (Kernel.createVm p b conf).hv confs.length =
        tlbIndices b.hv confs.length := by
      refine List.flatMap_congr fun v hv => ?_
      have hne : v ≠ confs.length := (List.mem_range.mp hv).ne
      simp only [Kernel.createVm, h.nextVcpu, Hv.setVcpu_of_ne _ _ hne]
    have hlast : (((Kernel.createVm p b conf).hv.vcpus confs.length).vm.tlbentries.map
        TlbEntry.index) = ((List.range conf.numTlbEntries.toNat).map
          (entryCount confs + ·)).map UInt32.ofNat := by
      simp only [Kernel.createVm, h.nextVcpu, Hv.setVcpu_self, createVcpu, h.tlbindex]
      exact fillTlbEntries_index b.vmId (entryCount confs) hlength
    rw [List.length_append, List.length_singleton, tlbIndices, List.range_succ, List.flatMap_append,
      List.flatMap_singleton, hlast, hcount, List.range_add, List.map_append, ← h.indices,
        ← hbefore]
    rfl

/-- `create_vm` counts the entries of all VMs through. -/
theorem tlbIndices_eq (p : Platform) (power : Power) {confs : List VmConf}
    (hlength : ∀ conf ∈ confs, conf.numTlbEntries.toNat ≤ conf.tlb.length) :
    tlbIndices (initializeMachines p power confs) confs.length =
      (List.range (entryCount confs)).map UInt32.ofNat := by
  have hstart : Indexed (bootStart power confs.length) [] := ⟨rfl, rfl, rfl⟩
  have hbooted : Indexed (confs.foldl (createVm p) (bootStart power confs.length)) confs := by
    refine foldl_prefix (P := fun confs b => Indexed b confs) hstart fun pre conf b hsplit h => ?_
    exact h.createVm p (hlength conf (hsplit.subset (by simp)))
  exact hbooted.indices

theorem toNat_index {k i : Nat} (hk : k ≤ 63) (hi : i < k) : (UInt32.ofNat i).toNat = i :=
  UInt32.toNat_ofNat_of_lt' (by simp only [UInt32.size]; omega)

theorem indices_nodup {k : Nat} (hk : k ≤ 63) : ((List.range k).map UInt32.ofNat).Nodup := by
  refine List.Nodup.map_on ?_ List.nodup_range
  intro i hi j hj heq
  have hnat := congrArg UInt32.toNat heq
  rwa [toNat_index hk (List.mem_range.mp hi), toNat_index hk (List.mem_range.mp hj)] at hnat

theorem mapped_mem_indices {k : Nat} (hk : k ≤ 63) :
    Drivers.MAPPED_INDEX ∈ (List.range k).map UInt32.ofNat ↔ 15 < k := by
  constructor
  · intro hmem
    obtain ⟨i, hi, heq⟩ := List.mem_map.mp hmem
    have hlt := List.mem_range.mp hi
    have hnat : i = 15 := (toNat_index hk hlt).symm.trans (congrArg UInt32.toNat heq)
    omega
  · exact fun hlt => List.mem_map.mpr ⟨15, List.mem_range.mpr hlt, rfl⟩

/-! ### The counts of the generator -/

variable {p : Platform} {vms before : List VmGroup} {g : GenVms} {vm : VmGroup} {u : VmText}

theorem totalTlbEntries_eq (h : genConfVms p (some vms) = .ok g) :
    g.totalTlbEntries = (vms.map (numTlbEntries p)).sum := by
  refine foldlM_ok (P := fun l g => g.totalTlbEntries = (l.map (numTlbEntries p)).sum) rfl ?_ h
  intro l vm g g' hl hok
  rw [(genConfVm_ok hok).total, hl]
  simp

/-- The number of entries that are emitted for a VM. -/
theorem Emitted.length (h : Emitted p before vm u) : u.tlb.length =
    (vm.memoryMaps.getD []).length + if vm.flashSizeBytes = none then 1 else 2 := by
  obtain ⟨ram, flash, maps, htlb, _, hflash, hmaps⟩ := h.tlb
  rw [htlb, List.length_append, List.length_cons, ← hmaps.length_eq]
  rcases hflash with ⟨hnone, _, rfl⟩ | ⟨_, _, entry, _, hsome, _, rfl, _⟩
  · rw [if_pos hnone]
    simp [Nat.add_comm]
  · rw [if_neg hsome]
    simp [Nat.add_comm]

theorem Emitted.hasFlash (h : Emitted .pic32mz before vm u) : vm.flashSizeBytes ≠ none := by
  obtain ⟨ram, flash, maps, _, _, hflash, _⟩ := h.tlb
  rcases hflash with ⟨_, hne, _⟩ | ⟨_, _, _, _, hsome, _⟩
  · cases hne
  · exact hsome

theorem Emitted.counted_iff (h : Emitted p before vm u) :
    u.tlb.length = u.numTlbEntries ↔ (p = .baikalT1 → vm.flashSizeBytes = none) := by
  rw [h.length, h.numTlbEntries]
  cases p with
  | pic32mz => simp [Config.numTlbEntries, h.hasFlash]
  | baikalT1 => simp [Config.numTlbEntries]

/-- `create_vm` reads no entry behind the end of an array. -/
theorem Emitted.le_length (h : Emitted p before vm u) : u.numTlbEntries ≤ u.tlb.length := by
  rw [h.length, h.numTlbEntries]
  cases p with
  | pic32mz =>
    rw [if_neg h.hasFlash]
    exact le_refl _
  | baikalT1 =>
    refine Nat.add_le_add_left ?_ _
    split_ifs <;> decide

theorem Placed.emitted (h : Placed p vms g) {i : Nat} (hvm : vms[i]? = some vm) :
    ∃ u ∈ g.vmconf, Emitted p (vms.take i) vm u := by
  have hlt : i < g.vmconf.length := h.length ▸ (List.getElem?_eq_some_iff.mp hvm).1
  have hu := List.getElem?_eq_getElem hlt
  exact ⟨_, List.getElem_mem hlt, h.texts i vm _ hvm hu⟩

theorem Placed.group (h : Placed p vms g) (hu : u ∈ g.vmconf) :
    ∃ i vm, vms[i]? = some vm ∧ Emitted p (vms.take i) vm u := by
  obtain ⟨i, hi, rfl⟩ := List.getElem_of_mem hu
  have hlt : i < vms.length := h.length ▸ hi
  have hvm := List.getElem?_eq_getElem hlt
  exact ⟨i, _, hvm, h.texts i _ _ hvm (List.getElem?_eq_getElem hi)⟩

theorem Placed.counted_iff (h : Placed p vms g) :
    (∀ u ∈ g.vmconf, u.tlb.length = u.numTlbEntries) ↔
      (p = .baikalT1 → ∀ vm ∈ vms, vm.flashSizeBytes = none) := by
  constructor
  · intro hcounted hp vm hvm
    obtain ⟨i, hi, rfl⟩ := List.getElem_of_mem hvm
    obtain ⟨u, hu, hemitted⟩ := h.emitted (List.getElem?_eq_getElem hi)
    exact hemitted.counted_iff.mp (hcounted u hu) hp
  · intro hflash u hu
    obtain ⟨i, vm, hvm, hemitted⟩ := h.group hu
    exact hemitted.counted_iff.mpr fun hp => hflash hp vm (List.mem_of_getElem? hvm)

/-! ### The header as it is compiled -/

theorem entryCount_eq {board : String → Option UInt32} {us : List VmText} {confs : List VmConf}
    (h : List.Forall₂ (fun u conf => u.compile board = some conf) us confs)
    (hsmall : ∀ u ∈ us, u.numTlbEntries < 2 ^ 32) :
    entryCount confs = (us.map VmText.numTlbEntries).sum := by
  induction h with
  | nil => rfl
  | @cons u conf us confs hu _ ih =>
    have hnum : conf.numTlbEntries.toNat = u.numTlbEntries := by
      rw [(compile_ok hu).numTlbEntries]
      exact UInt32.toNat_ofNat_of_lt' (hsmall u List.mem_cons_self)
    have hrest := ih fun x hx => hsmall x (List.mem_cons_of_mem u hx)
    simp only [entryCount, List.map_cons, List.sum_cons, hnum] at hrest ⊢
    rw [hrest]

theorem Placed.counts (h : Placed p vms g) :
    g.vmconf.map VmText.numTlbEntries = vms.map (numTlbEntries p) := by
  apply List.ext_getElem
  · rw [List.length_map, List.length_map, h.length]
  · intro i hi hi'
    rw [List.length_map] at hi hi'
    rw [List.getElem_map, List.getElem_map]
    exact (h.texts i _ _ (List.getElem?_eq_getElem hi') (List.getElem?_eq_getElem hi)).numTlbEntries

/-- Each VM's count is the number of its entries, and no VM has the index of the temporary entry,
exactly when a configuration for Baikal-T1 has no flash memory and 15 entries at most. -/
theorem tlbBudget_iff (p : Platform) (power : Power) (board : String → Option UInt32)
    (vms : List VmGroup) (g : GenVms) (confs : List VmConf) (hgen : genConfVms p (some vms) = .ok g)
    (hconfs : VMCONF board g = some confs) : TlbBudget p power g confs ↔ TlbFits p vms := by
  have h := genConfVms_placed hgen
  have hcompiled := mapM_some hconfs
  have hsmall : ∀ u ∈ g.vmconf, u.numTlbEntries < 2 ^ 32 := by
    intro u hu
    obtain ⟨i, vm, _, hemitted⟩ := h.group hu
    exact hemitted.room.trans_lt (by cases p <;> decide)
  have hlength : ∀ conf ∈ confs, conf.numTlbEntries.toNat ≤ conf.tlb.length := by
    intro conf hconf
    obtain ⟨i, hi, rfl⟩ := List.getElem_of_mem hconf
    obtain ⟨u, hu, hcompile⟩ := exists_left hcompiled (List.getElem?_eq_getElem hi)
    have hmem := List.mem_of_getElem? hu
    obtain ⟨j, vm, _, hemitted⟩ := h.group hmem
    rw [(compile_ok hcompile).numTlbEntries, UInt32.toNat_ofNat_of_lt' (hsmall u hmem),
      ← (compile_ok hcompile).tlb.length_eq]
    exact hemitted.le_length
  have hcount : entryCount confs = (vms.map (numTlbEntries p)).sum := by
    rw [entryCount_eq hcompiled hsmall, h.counts]
  have htotal : (vms.map (numTlbEntries p)).sum ≤ TOTAL_TLB_ENTRIES p :=
    totalTlbEntries_eq hgen ▸ h.room
  have hindices := tlbIndices_eq p power hlength
  rw [hcount] at hindices
  have hbound : (vms.map (numTlbEntries p)).sum ≤ 63 :=
    htotal.trans (by cases p <;> decide)
  have hreserved :
      Drivers.MAPPED_INDEX ∉ tlbIndices (initializeMachines p power confs) confs.length ↔
        (vms.map (numTlbEntries p)).sum ≤ 15 := by
    rw [hindices, mapped_mem_indices hbound, not_lt]
  constructor
  · rintro ⟨hcounted, _, hnot⟩ rfl
    exact ⟨h.counted_iff.mp hcounted rfl, hreserved.mp hnot⟩
  · intro hfits
    refine ⟨h.counted_iff.mpr fun hp => (hfits hp).1, hindices ▸ indices_nodup hbound, ?_⟩
    rw [hreserved]
    cases p with
    | pic32mz => exact htotal
    | baikalT1 => exact (hfits rfl).2

/-- The Linux VM of Baikal-T1 has an entry for its RAM and three for its memory maps. -/
theorem tlbBudget_linux :
    ∃ g confs, genConfVms .baikalT1 (some [linux]) = .ok g ∧
      VMCONF (fun _ => none) g = some confs ∧ TlbBudget .baikalT1 .cleared g confs := by
  have hbuild : ((genConfVms .baikalT1 (some [linux])).toOption.bind
      (VMCONF fun _ => none)).isSome := by
    decide +kernel
  obtain ⟨confs, hconfs⟩ := Option.isSome_iff_exists.mp hbuild
  obtain ⟨g, hgen, hconfs⟩ := Option.bind_eq_some_iff.mp hconfs
  have hgen := ok_of_toOption hgen
  refine ⟨g, confs, hgen, hconfs, ?_⟩
  refine (tlbBudget_iff .baikalT1 .cleared (fun _ => none) [linux] g confs hgen hconfs).mpr ?_
  exact fun _ => ⟨by simp [linux], by simp [linux]⟩

/-- On Baikal-T1, a VM with flash memory has two entries and a count of one. -/
theorem flash_uncounted :
    ∃ g confs, genConfVms .baikalT1 (some [bareMetal "a" "MEM_SIZE_32KB" "MEM_SIZE_32KB"]) = .ok g ∧
      VMCONF (fun _ => none) g = some confs ∧ ¬TlbBudget .baikalT1 .cleared g confs := by
  have hbuild : (genConfVms .baikalT1
      (some [bareMetal "a" "MEM_SIZE_32KB" "MEM_SIZE_32KB"])).toOption.any fun g =>
        (VMCONF (fun _ => none) g).isSome ∧
          g.vmconf.any fun u => u.tlb.length ≠ u.numTlbEntries := by
    decide +kernel
  obtain ⟨g, hgen, hg⟩ := (Option.any_eq_true _ _).mp hbuild
  obtain ⟨hconfs, hany⟩ := of_decide_eq_true hg
  obtain ⟨confs, hconfs⟩ := Option.isSome_iff_exists.mp hconfs
  obtain ⟨u, hu, hne⟩ := List.any_eq_true.mp hany
  exact ⟨g, confs, ok_of_toOption hgen, hconfs, fun h => of_decide_eq_true hne (h.counted u hu)⟩

/-- The last of sixteen VMs gets the index of the temporary entry. -/
theorem temporary_index_used :
    ∃ g confs, genConfVms .baikalT1 (some (List.replicate 16
        { bareMetal "a" "MEM_SIZE_32KB" "" with flashSizeBytes := none })) = .ok g ∧
      VMCONF (fun _ => none) g = some confs ∧ ¬TlbBudget .baikalT1 .cleared g confs := by
  have hbuild : ((genConfVms .baikalT1 (some (List.replicate 16
      { bareMetal "a" "MEM_SIZE_32KB" "" with flashSizeBytes := none }))).toOption.bind
        (VMCONF fun _ => none)).any fun confs => Drivers.MAPPED_INDEX ∈
          tlbIndices (initializeMachines .baikalT1 .cleared confs) confs.length := by
    decide +kernel
  obtain ⟨confs, hconfs, hmem⟩ := (Option.any_eq_true _ _).mp hbuild
  obtain ⟨g, hgen, hconfs⟩ := Option.bind_eq_some_iff.mp hconfs
  exact ⟨g, confs, ok_of_toOption hgen, hconfs, fun h => h.reserved (of_decide_eq_true hmem)⟩

end PrplHypervisor.Config
