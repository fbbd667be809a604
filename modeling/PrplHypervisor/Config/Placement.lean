import PrplHypervisor.Config.Genconf
import PrplHypervisor.Kernel.Installed
import PrplHypervisor.Lib.Layout
import PrplHypervisor.Lib.Partial

/-! Where the generator places the memories of the VMs: each area at the next address that is
aligned to the page of its TLB entry, behind the area of the VM before. -/

namespace PrplHypervisor.Config

open Arch Kernel Lib.Layout Lib.Words Lib.Partial

/-! ### Pages -/

/-- The page of the TLB entry for an area of `size` bytes, which has two pages or one. -/
structure PageOf (size : UInt32) (page : MemSizesDef) (dual : Bool) : Prop where
  select : selectPageMask size = some (page, dual)
  bytes : size.toNat = if dual then 2 * page.value.toNat else page.value.toNat
  half : dual = true → (size / 2).toNat = page.value.toNat
  pow : ∃ k, 12 ≤ k ∧ k ≤ 24 ∧ page.value.toNat = 2 ^ k ∧ page.mask.toNat = 2 ^ k - 1
  pagemask : ∃ m, pagemasks.lookup page.name = some m ∧ m.toNat < 2 ^ 16 ∧
    page.value.toNat = (m.toNat + 1) * 4096

/-- The size of the page for an area. -/
def pageSizeOf (size : UInt32) : Nat :=
  match selectPageMask size with
  | some (page, _) => page.value.toNat
  | none => 0

/-- What an area of `size` bytes asks for. -/
def request (size : UInt32) : Request := { page := pageSizeOf size, size := size.toNat }

variable {size : UInt32} {page : MemSizesDef} {dual : Bool}

theorem PageOf.request (h : PageOf size page dual) :
    request size = { page := page.value.toNat, size := size.toNat } := by
  rw [Config.request, pageSizeOf, h.select]

theorem pageOf_memSizes : ∀ d ∈ MemSizes, ∃ page dual, PageOf d.value page dual := by
  have hall : ∀ d ∈ MemSizes, (selectPageMask d.value).any fun s =>
      d.value.toNat = (if s.2 then 2 * s.1.value.toNat else s.1.value.toNat) ∧
      (s.2 = true → (d.value / 2).toNat = s.1.value.toNat) ∧
      (12 ≤ s.1.value.toNat.log2 ∧ s.1.value.toNat.log2 ≤ 24 ∧
        s.1.value.toNat = 2 ^ s.1.value.toNat.log2 ∧
        s.1.mask.toNat = 2 ^ s.1.value.toNat.log2 - 1) ∧
      (pagemasks.lookup s.1.name).any fun m => m.toNat < 2 ^ 16 ∧
        s.1.value.toNat = (m.toNat + 1) * 4096 := by
    decide +kernel
  intro d hd
  obtain ⟨⟨page, dual⟩, hselect, hprop⟩ := (Option.any_eq_true _ _).mp (hall d hd)
  obtain ⟨hbytes, hhalf, hpow, hpagemask⟩ := of_decide_eq_true hprop
  obtain ⟨m, hm, hvalue⟩ := (Option.any_eq_true _ _).mp hpagemask
  exact ⟨page, dual, hselect, hbytes, hhalf, ⟨_, hpow⟩, m, hm, of_decide_eq_true hvalue⟩

theorem sizeValue_ok {property str : String} (h : sizeValue property str = .ok size) :
    getValueFromStr MemSizes str = size ∧ ∃ page dual, PageOf size page dual := by
  rw [sizeValue] at h
  split_ifs at h with hzero
  cases h
  refine ⟨rfl, ?_⟩
  rw [getValueFromStr] at hzero ⊢
  cases hfind : MemSizes.find? fun d => d.name = str with
  | none => exact absurd (by rw [hfind]) hzero
  | some d => exact pageOf_memSizes d (List.mem_of_find?_eq_some hfind)

theorem PageOf.pos (h : PageOf size page dual) : 0 < page.value.toNat := by
  obtain ⟨k, -, -, hvalue, -⟩ := h.pow
  rw [hvalue]
  exact Nat.two_pow_pos k

theorem PageOf.dvd (h : PageOf size page dual) {n : Nat} (hn : 24 ≤ n) :
    page.value.toNat ∣ 2 ^ n := by
  obtain ⟨k, -, hk, hvalue, -⟩ := h.pow
  rw [hvalue]
  exact Nat.pow_dvd_pow 2 (hk.trans hn)

theorem PageOf.dvd_page (h : PageOf size page dual) : 4096 ∣ page.value.toNat := by
  obtain ⟨m, -, -, hvalue⟩ := h.pagemask
  rw [hvalue]
  exact Nat.dvd_mul_left _ _

theorem PageOf.page_le (h : PageOf size page dual) : page.value.toNat ≤ 2 ^ 24 :=
  Nat.le_of_dvd (by decide) (h.dvd (le_refl _))

theorem PageOf.page_le_size (h : PageOf size page dual) : page.value.toNat ≤ size.toNat := by
  rw [h.bytes]
  split_ifs
  · omega
  · exact le_refl _

theorem PageOf.size_le (h : PageOf size page dual) : size.toNat ≤ 2 ^ 25 := by
  have hpage := h.page_le
  rw [h.bytes]
  split_ifs <;> omega

/-! ### One entry -/

theorem toNat_kseg0AddrToPhysical (addr : UInt32) :
    (kseg0AddrToPhysical addr).toNat = addr.toNat % 2 ^ 29 / 4096 := by
  rw [kseg0AddrToPhysical, toNat_shiftRight (k := 12) rfl (by decide),
    toNat_and_low (k := 29) rfl]
  rfl

/-- Without overflow the base goes up to the next multiple of the page size. -/
theorem PageOf.calculateMemBase (h : PageOf size page dual) {memBase : UInt32}
    (hbase : memBase.toNat + page.value.toNat < 2 ^ 32) :
    (calculateMemBase page memBase).toNat = alignUp page.value.toNat memBase.toNat := by
  obtain ⟨k, -, -, hvalue, hmask⟩ := h.pow
  have hzero : memBase % page.value ≠ 0 ↔ ¬page.value.toNat ∣ memBase.toNat := by
    rw [ne_eq, ← UInt32.toNat_inj, UInt32.toNat_mod, UInt32.toNat_zero, Nat.dvd_iff_mod_eq_zero]
  rw [Config.calculateMemBase]
  split_ifs with hdvd
  · rw [alignUp_of_not_dvd h.pos (hzero.mp hdvd), toNat_and_not_low hmask, UInt32.toNat_add,
      Nat.mod_eq_of_lt hbase, ← hvalue]
  · rw [alignUp_of_dvd h.pos (not_not.mp fun hnot => hdvd (hzero.mpr hnot))]

/-- The entry `t` has the virtual address `va` and the pages of an area of `size` bytes at the
intermediate address `start`. -/
structure IsEntry (t : TlbText) (size : UInt32) (start va : Nat) (coherency : String) : Prop where
  entrylo0 : t.entrylo0.toNat = start % 2 ^ 29 / 4096
  entrylo1 : ∀ {page dual}, PageOf size page dual →
    t.entrylo1.toNat = if dual then (start + page.value.toNat) % 2 ^ 29 / 4096 else 0
  pagemask : ∀ {page dual}, PageOf size page dual → t.pagemask = page.name
  entryhi : t.entryhi.toNat = va % 2 ^ 29 / 4096
  coherency : t.coherency = coherency

theorem PageOf.unique (h : PageOf size page dual) {page' : MemSizesDef} {dual' : Bool}
    (h' : PageOf size page' dual') : page' = page ∧ dual' = dual := by
  have heq := h'.select.symm.trans h.select
  simp only [Option.some.injEq, Prod.mk.injEq] at heq
  exact heq

theorem PageOf.processTlbEntry (h : PageOf size page dual) (memBase va : UInt32)
    (coherency : String) : ∃ t, Config.processTlbEntry size memBase va coherency =
        .ok (t, Config.calculateMemBase page memBase) ∧
      IsEntry t size (Config.calculateMemBase page memBase).toNat va.toNat coherency := by
  refine ⟨_, by rw [Config.processTlbEntry, h.select], ?_, ?_, ?_, ?_, rfl⟩
  · rw [toNat_kseg0AddrToPhysical]
  · intro page' dual' h'
    obtain ⟨rfl, rfl⟩ := h.unique h'
    dsimp only
    split_ifs with hdual
    · rw [toNat_kseg0AddrToPhysical, UInt32.toNat_add, h.half hdual,
        Nat.mod_mod_of_dvd _ (by decide)]
    · rfl
  · intro page' dual' h'
    obtain ⟨rfl, rfl⟩ := h.unique h'
    rfl
  · rw [toNat_kseg0AddrToPhysical]

/-! ### One virtual machine -/

/-- The size that a group gives for the RAM of its VM. -/
def ramSize (vm : VmGroup) : UInt32 := getValueFromStr MemSizes (vm.ramSizeBytes.getD "")

/-- The size that a group gives for the flash memory of its VM. -/
def flashSize (vm : VmGroup) : UInt32 := getValueFromStr MemSizes (vm.flashSizeBytes.getD "")

/-- The entry of an element of `memory_maps`. -/
structure IsMap (vm : VmGroup) (mm : MemoryMap) (t : TlbText) : Prop where
  entry : ∃ baseAddr str page dual, mm.baseAddr = some baseAddr ∧ mm.pageSize = some str ∧
    PageOf (getValueFromStr MemSizes str) page dual ∧
    IsEntry t (getValueFromStr MemSizes str) (calculateMemBase page baseAddr).toNat baseAddr.toNat
      (vm.coherency.getD "UNCACHED")

/-- What the generator writes for a VM, and its variables before and after it. -/
structure Generates (p : Platform) (g : GenVms) (vm : VmGroup) (g' : GenVms) : Prop where
  total : g'.totalTlbEntries = g.totalTlbEntries + numTlbEntries p vm
  room : g'.totalTlbEntries ≤ TOTAL_TLB_ENTRIES p
  text : ∃ t ram flash maps, g'.vmconf = g.vmconf ++ [t] ∧ t.tlb = ram :: flash ++ maps ∧
    t.numTlbEntries = numTlbEntries p vm ∧ t.priority = vmPriority vm.priority ∧
    (∃ page dual, PageOf (ramSize vm) page dual ∧
      t.ramBase = calculateMemBase page g.vmDataInterAddr ∧
      g'.vmDataInterAddr = t.ramBase + ramSize vm ∧
      IsEntry ram (ramSize vm) t.ramBase.toNat VMS_RAM_VIRTUAL_BASE_ADDRESS.toNat "WRITE_BACK") ∧
    ((vm.flashSizeBytes = none ∧ p = .baikalT1 ∧ flash = []) ∨
      ∃ page dual entry addr, vm.flashSizeBytes ≠ none ∧ PageOf (flashSize vm) page dual ∧
        addr = calculateMemBase page g.vmCodeInterAddr ∧ flash = [entry] ∧
        IsEntry entry (flashSize vm) addr.toNat (VMS_CODE_VIRTUAL_BASE_ADDRESS p).toNat
          "WRITE_BACK" ∧
        (p = .pic32mz → g'.vmCodeInterAddr = addr + flashSize vm)) ∧
    List.Forall₂ (IsMap vm) (vm.memoryMaps.getD []) maps

theorem required_ok {α : Type} {property group : String} {o : Option α} {a : α}
    (h : required property group o = .ok a) : o = some a := by
  cases o with
  | none => cases h
  | some b =>
    cases h
    rfl

theorem genMap_ok {vm : VmGroup} {mm : MemoryMap} {t : TlbText} (h : genMap vm mm = .ok t) :
    IsMap vm mm t := by
  rw [genMap] at h
  obtain ⟨baseAddr, hbase, h⟩ := bind_ok.mp h
  obtain ⟨str, hstr, h⟩ := bind_ok.mp h
  obtain ⟨size, hsize, h⟩ := bind_ok.mp h
  obtain ⟨entry, hentry, h⟩ := bind_ok.mp h
  obtain ⟨rfl, page, dual, hpage⟩ := sizeValue_ok hsize
  obtain ⟨t', ht', hist⟩ := hpage.processTlbEntry baseAddr baseAddr (vm.coherency.getD "UNCACHED")
  rw [ht'] at hentry
  cases hentry
  cases h
  exact ⟨baseAddr, str, page, dual, required_ok hbase, required_ok hstr, hpage, hist⟩

theorem genFlash_ok {p : Platform} {vm : VmGroup} {vmCodeInterAddr : UInt32}
    {r : List TlbText × UInt32 × UInt32} (h : genFlash p vm vmCodeInterAddr = .ok r) :
    (vm.flashSizeBytes = none ∧ p = .baikalT1 ∧ r.1 = []) ∨
      ∃ page dual entry, vm.flashSizeBytes ≠ none ∧ PageOf (flashSize vm) page dual ∧
        r = ([entry], flashSize vm, calculateMemBase page vmCodeInterAddr) ∧
        IsEntry entry (flashSize vm) (calculateMemBase page vmCodeInterAddr).toNat
          (VMS_CODE_VIRTUAL_BASE_ADDRESS p).toNat "WRITE_BACK" := by
  unfold genFlash at h
  cases hstr : vm.flashSizeBytes with
  | none =>
    rw [hstr] at h
    cases p with
    | pic32mz => cases h
    | baikalT1 =>
      cases h
      exact Or.inl ⟨rfl, rfl, rfl⟩
  | some str =>
    rw [hstr] at h
    obtain ⟨size, hsize, h⟩ := bind_ok.mp h
    obtain ⟨entry, hentry, h⟩ := bind_ok.mp h
    obtain ⟨hvalue, page, dual, hpage⟩ := sizeValue_ok hsize
    obtain ⟨t, ht, hist⟩ := hpage.processTlbEntry vmCodeInterAddr (VMS_CODE_VIRTUAL_BASE_ADDRESS p)
      "WRITE_BACK"
    rw [ht] at hentry
    cases hentry
    cases h
    have hflash : flashSize vm = size := by rw [flashSize, hstr, Option.getD_some, hvalue]
    rw [hflash]
    exact Or.inr ⟨page, dual, t, Option.some_ne_none str, hpage, rfl, hist⟩

theorem countTlbEntries_ok {p : Platform} {n total : Nat} {vm : VmGroup}
    (h : countTlbEntries p n vm = .ok total) :
    total = n + numTlbEntries p vm ∧ total ≤ TOTAL_TLB_ENTRIES p := by
  unfold countTlbEntries at h
  dsimp only at h
  split_ifs at h with hroom
  cases h
  exact ⟨rfl, Nat.le_of_not_lt hroom⟩

/-- What the generator works out for a VM that it accepts. -/
structure VmParts where
  appName : String
  osType : String
  total : Nat
  ram : TlbText
  flash : List TlbText × UInt32 × UInt32
  maps : List TlbText

/-- The size of the code of a VM. -/
def codeSize (p : Platform) (vm : VmGroup) (flash : UInt32) : UInt32 :=
  match p with
  | .pic32mz => flash
  | .baikalT1 => ramSize vm

/-- The element of `VMCONF` of a VM with its RAM at `ramBase`. -/
def VmParts.text (v : VmParts) (p : Platform) (vm : VmGroup) (ramBase : UInt32) : VmText where
  vmName := v.appName
  osType := v.osType
  priority := vmPriority vm.priority
  devices := vm.deviceMapping.getD []
  fastInterrupts := vm.fastInterrupts.getD []
  interruptRedirect := vm.interruptRedirect.getD []
  numTlbEntries := numTlbEntries p vm
  tlb := v.ram :: v.flash.1 ++ v.maps
  ramBase := ramBase

/-- The line of `vms.info` of a VM. -/
def VmParts.info (v : VmParts) (p : Platform) (vm : VmGroup) : VmsInfo where
  appName := v.appName
  codeSize := codeSize p vm v.flash.2.1
  ramSize := ramSize vm
  addressStart := v.flash.2.2

/-- The parts of a VM come from its group, and its RAM has a page. -/
structure VmParts.Of (v : VmParts) (p : Platform) (g : GenVms) (vm : VmGroup) (g' : GenVms)
    (page : MemSizesDef) (dual : Bool) : Prop where
  appName : vm.appName = some v.appName
  osType : vm.osType = some v.osType
  total : countTlbEntries p g.totalTlbEntries vm = .ok v.total
  ramPage : PageOf (ramSize vm) page dual
  ram : IsEntry v.ram (ramSize vm) (calculateMemBase page g.vmDataInterAddr).toNat
    VMS_RAM_VIRTUAL_BASE_ADDRESS.toNat "WRITE_BACK"
  flash : genFlash p vm g.vmCodeInterAddr = .ok v.flash
  maps : List.Forall₂ (IsMap vm) (vm.memoryMaps.getD []) v.maps
  result : g' = {
    vmDataInterAddr := calculateMemBase page g.vmDataInterAddr + ramSize vm
    vmCodeInterAddr := v.flash.2.2 + codeSize p vm v.flash.2.1
    totalTlbEntries := v.total
    appList := if v.osType ≠ "LINUX" then g.appList ++ [v.appName] else g.appList
    vmconf := g.vmconf ++ [v.text p vm (calculateMemBase page g.vmDataInterAddr)]
    vmsInfo := g.vmsInfo ++ [v.info p vm] }

/-- The only way in which the generator accepts a VM. -/
theorem genConfVm_parts {p : Platform} {g g' : GenVms} {vm : VmGroup}
    (h : genConfVm p g vm = .ok g') :
    ∃ (v : VmParts) (page : MemSizesDef) (dual : Bool), v.Of p g vm g' page dual := by
  rw [genConfVm] at h
  obtain ⟨appName, happName, h⟩ := bind_ok.mp h
  obtain ⟨osType, hosType, h⟩ := bind_ok.mp h
  obtain ⟨total, htotal, h⟩ := bind_ok.mp h
  obtain ⟨str, hstr, h⟩ := bind_ok.mp h
  obtain ⟨size, hsize, h⟩ := bind_ok.mp h
  obtain ⟨ram, hram, h⟩ := bind_ok.mp h
  obtain ⟨flash, hflash, h⟩ := bind_ok.mp h
  obtain ⟨maps, hmaps, h⟩ := bind_ok.mp h
  obtain ⟨hvalue, page, dual, hpage⟩ := sizeValue_ok hsize
  obtain ⟨t, ht, hist⟩ := hpage.processTlbEntry g.vmDataInterAddr VMS_RAM_VIRTUAL_BASE_ADDRESS
    "WRITE_BACK"
  rw [ht] at hram
  cases hram
  cases h
  obtain rfl : ramSize vm = size := by
    rw [ramSize, required_ok hstr, Option.getD_some, hvalue]
  refine ⟨⟨appName, osType, total, t, flash, maps⟩, page, dual, required_ok happName,
    required_ok hosType, htotal, hpage, hist, hflash, (mapM_ok hmaps).imp fun _ _ => genMap_ok, ?_⟩
  cases p <;> rfl

theorem genConfVm_ok {p : Platform} {g g' : GenVms} {vm : VmGroup}
    (h : genConfVm p g vm = .ok g') : Generates p g vm g' := by
  obtain ⟨v, page, dual, hv⟩ := genConfVm_parts h
  obtain ⟨htotal, hroom⟩ := countTlbEntries_ok hv.total
  obtain rfl := hv.result
  refine ⟨htotal, hroom, _, v.ram, v.flash.1, v.maps, rfl, rfl, rfl, rfl,
    ⟨page, dual, hv.ramPage, rfl, rfl, hv.ram⟩, ?_, hv.maps⟩
  rcases genFlash_ok hv.flash with hnone | ⟨page', dual', entry, hsome, hpage', hflash, hentry⟩
  · exact Or.inl hnone
  · refine Or.inr ⟨page', dual', entry, _, hsome, hpage', rfl, by rw [hflash], hentry, ?_⟩
    rintro rfl
    rw [hflash]
    rfl

/-! ### All virtual machines -/

/-- The areas that the VMs ask for, of the sizes that `f` gives. -/
def areas (f : VmGroup → UInt32) (l : List VmGroup) : List Request := l.map fun vm => request (f vm)

def dataBase (p : Platform) : Nat := (VMS_DATA_INTERMEDIATE_BASE_ADDRESS p).toNat

def codeBase (p : Platform) : Nat := (VMS_CODE_INTERMEDIATE_BASE_ADDRESS p).toNat

/-- The area of `f vm` bytes of a VM behind the VMs `before`. -/
def areaStart (f : VmGroup → UInt32) (base : Nat) (before : List VmGroup) (vm : VmGroup) : Nat :=
  start base (areas f before) (request (f vm))

/-- Every VM of `l` has an area with a page. -/
def HavePages (f : VmGroup → UInt32) (l : List VmGroup) : Prop :=
  ∀ vm ∈ l, ∃ page dual, PageOf (f vm) page dual

variable {f : VmGroup → UInt32} {l : List VmGroup} {p : Platform}

theorem HavePages.areas (h : HavePages f l) :
    ∀ r ∈ areas f l, 0 < r.page ∧ r.page ∣ 2 ^ 24 ∧ r.size ≤ 2 ^ 25 := by
  intro r hr
  obtain ⟨vm, hvm, rfl⟩ := List.mem_map.mp hr
  obtain ⟨page, dual, hpage⟩ := h vm hvm
  rw [hpage.request]
  exact ⟨hpage.pos, hpage.dvd (le_refl _), hpage.size_le⟩

theorem HavePages.finish_le (h : HavePages f l) (base : Nat) :
    finish base (Config.areas f l) ≤ alignUp (2 ^ 24) base + l.length * 2 ^ 25 := by
  have hspace := Lib.Layout.finish_le (by decide) (by decide) (fun r hr => (h.areas r hr).2) base
  rwa [Config.areas, List.length_map] at hspace

/-- The TLB entries that a VM has besides those of its memory maps. -/
def ownEntries : Platform → Nat
  | .pic32mz => 2
  | .baikalT1 => 1

theorem ownEntries_le (p : Platform) (vm : VmGroup) : ownEntries p ≤ numTlbEntries p vm := by
  cases p <;> simp [ownEntries, numTlbEntries]

/-- What the header has for the VM `vm` behind the VMs `before`. -/
structure Emitted (p : Platform) (before : List VmGroup) (vm : VmGroup) (t : VmText) : Prop where
  numTlbEntries : t.numTlbEntries = numTlbEntries p vm
  room : t.numTlbEntries ≤ TOTAL_TLB_ENTRIES p
  priority : t.priority = vmPriority vm.priority
  ramBase : t.ramBase.toNat = areaStart ramSize (dataBase p) before vm
  tlb : ∃ ram flash maps, t.tlb = ram :: flash ++ maps ∧
    IsEntry ram (ramSize vm) t.ramBase.toNat VMS_RAM_VIRTUAL_BASE_ADDRESS.toNat "WRITE_BACK" ∧
    ((vm.flashSizeBytes = none ∧ p = .baikalT1 ∧ flash = []) ∨ ∃ page dual entry addr,
      vm.flashSizeBytes ≠ none ∧ PageOf (flashSize vm) page dual ∧ flash = [entry] ∧
      IsEntry entry (flashSize vm) addr (VMS_CODE_VIRTUAL_BASE_ADDRESS p).toNat "WRITE_BACK" ∧
      (p = .pic32mz → addr = areaStart flashSize (codeBase p) before vm)) ∧
    List.Forall₂ (IsMap vm) (vm.memoryMaps.getD []) maps

/-- The variables of the generator behind the VMs `l`, and the header so far. -/
structure Placed (p : Platform) (l : List VmGroup) (g : GenVms) : Prop where
  total : l.length * ownEntries p ≤ g.totalTlbEntries
  room : g.totalTlbEntries ≤ TOTAL_TLB_ENTRIES p
  ramPages : HavePages ramSize l
  flashPages : p = .pic32mz → HavePages flashSize l
  data : g.vmDataInterAddr.toNat = finish (dataBase p) (areas ramSize l)
  code : p = .pic32mz → g.vmCodeInterAddr.toNat = finish (codeBase p) (areas flashSize l)
  length : g.vmconf.length = l.length
  texts : ∀ i vm t, l[i]? = some vm → g.vmconf[i]? = some t → Emitted p (l.take i) vm t

theorem HavePages.append {vm : VmGroup} (h : HavePages f l) {page : MemSizesDef} {dual : Bool}
    (hpage : PageOf (f vm) page dual) : HavePages f (l ++ [vm]) := by
  intro v hv
  rcases List.mem_append.mp hv with hv | hv
  · exact h v hv
  · rw [List.mem_singleton.mp hv]
    exact ⟨page, dual, hpage⟩

/-- The next area of the VMs starts at its page, and ends at the variable of the next VM. -/
theorem place_next {addr addr' next : UInt32} {vm : VmGroup} {page : MemSizesDef} {dual : Bool}
    {base : Nat} (h : HavePages f l) (hpage : PageOf (f vm) page dual)
    (hbound : alignUp (2 ^ 24) base + (l.length + 1) * 2 ^ 25 < 2 ^ 32)
    (haddr : addr.toNat = finish base (areas f l)) (haddr' : addr' = calculateMemBase page addr)
    (hnext : next = addr' + f vm) :
    addr'.toNat = areaStart f base l vm ∧ next.toNat = finish base (areas f (l ++ [vm])) := by
  have hspace := h.finish_le base
  have hspace' := (h.append hpage).finish_le base
  rw [List.length_append, List.length_singleton] at hspace'
  have hle := hpage.page_le
  have hstart : addr'.toNat = areaStart f base l vm := by
    rw [haddr', hpage.calculateMemBase (by omega), haddr, areaStart, start, hpage.request]
  have hend : areaStart f base l vm + (f vm).toNat = finish base (areas f (l ++ [vm])) := by
    rw [areas, List.map_append, List.map_singleton, finish_append]
    rfl
  refine ⟨hstart, ?_⟩
  rw [hnext, UInt32.toNat_add, hstart, hend, Nat.mod_eq_of_lt]
  omega

theorem Placed.bound {g g' : GenVms} {vm : VmGroup} (h : Placed p l g)
    (hgen : Generates p g vm g') :
    (l.length + 1) * ownEntries p ≤ g'.totalTlbEntries ∧
      alignUp (2 ^ 24) (dataBase p) + (l.length + 1) * 2 ^ 25 < 2 ^ 32 ∧
      (p = .pic32mz → alignUp (2 ^ 24) (codeBase p) + (l.length + 1) * 2 ^ 25 ≤ 0xAC000000) := by
  have htotal := hgen.total
  have hroom := hgen.room
  have hprev := h.total
  have hown := ownEntries_le p vm
  have hcount : (l.length + 1) * ownEntries p ≤ g'.totalTlbEntries := by
    rw [Nat.succ_mul]
    omega
  refine ⟨hcount, ?_, ?_⟩
  · cases p with
    | pic32mz =>
      have hbase : alignUp (2 ^ 24) (dataBase .pic32mz) = 0x81000000 := by decide
      simp only [ownEntries, TOTAL_TLB_ENTRIES] at hcount hroom
      omega
    | baikalT1 =>
      have hbase : alignUp (2 ^ 24) (dataBase .baikalT1) = 0x81000000 := by decide
      simp only [ownEntries, TOTAL_TLB_ENTRIES] at hcount hroom
      omega
  · rintro rfl
    have hbase : alignUp (2 ^ 24) (codeBase .pic32mz) = 0x9E000000 := by decide
    simp only [ownEntries, TOTAL_TLB_ENTRIES] at hcount hroom
    omega

theorem Placed.step {g g' : GenVms} {vm : VmGroup} (h : Placed p l g)
    (hok : genConfVm p g vm = .ok g') : Placed p (l ++ [vm]) g' := by
  have hgen := genConfVm_ok hok
  obtain ⟨hcount, hdata, hcode⟩ := h.bound hgen
  obtain ⟨t, ram, flash, maps, htexts, htlb, hnum, hpriority,
    ⟨page, dual, hpage, hbase, hnext, hram⟩, hflash, hmaps⟩ := hgen.text
  obtain ⟨hramBase, hramNext⟩ := place_next h.ramPages hpage hdata h.data hbase hnext
  have hlast : Emitted p l vm t := by
    have hroom := hgen.room
    rw [hgen.total] at hroom
    refine ⟨hnum, by omega, hpriority, hramBase, ram, flash, maps, htlb, hram, ?_, hmaps⟩
    rcases hflash with hnone | ⟨page', dual', entry, addr, hsome, hpage', haddr, hentry, hist,
      hcode'⟩
    · exact Or.inl hnone
    · refine Or.inr ⟨page', dual', entry, _, hsome, hpage', hentry, hist, ?_⟩
      rintro rfl
      have hbound := hcode rfl
      exact (place_next (h.flashPages rfl) hpage' (by omega) (h.code rfl) haddr (hcode' rfl)).1
  refine ⟨?_, hgen.room, h.ramPages.append hpage, ?_, hramNext, ?_, ?_, ?_⟩
  · rw [List.length_append, List.length_singleton]
    exact hcount
  · rintro rfl
    rcases hflash with ⟨-, hne, -⟩ | ⟨page', dual', entry, addr, -, hpage', -⟩
    · cases hne
    · exact (h.flashPages rfl).append hpage'
  · rintro rfl
    rcases hflash with ⟨-, hne, -⟩ | ⟨page', dual', entry, addr, -, hpage', haddr, -, -, hcode'⟩
    · cases hne
    · have hbound := hcode rfl
      exact (place_next (h.flashPages rfl) hpage' (by omega) (h.code rfl) haddr (hcode' rfl)).2
  · rw [htexts, List.length_append, List.length_append, h.length]
    rfl
  · rw [htexts]
    exact (forall_prefix_concat₂ h.length.symm vm t).mpr ⟨h.texts, hlast⟩

/-- What the generator emits for a configuration that it accepts. -/
theorem genConfVms_placed {vms : List VmGroup} {g : GenVms}
    (h : genConfVms p (some vms) = .ok g) : Placed p vms g := by
  refine foldlM_ok ?_ (fun _ _ _ _ => Placed.step) h
  exact ⟨by simp, Nat.zero_le _, fun _ hvm => absurd hvm List.not_mem_nil,
    fun _ _ hvm => absurd hvm List.not_mem_nil, rfl, fun _ => rfl, rfl,
    fun i _ _ hv => by simp at hv⟩

/-- The variables of the generator before the first VM. -/
theorem genConfVms_nil (p : Platform) : genConfVms p (some []) = .ok {
    vmDataInterAddr := VMS_DATA_INTERMEDIATE_BASE_ADDRESS p
    vmCodeInterAddr := VMS_CODE_INTERMEDIATE_BASE_ADDRESS p
    totalTlbEntries := 0
    appList := []
    vmconf := []
    vmsInfo := [] } := rfl

/-! ### The header as it is compiled -/

/-- The element `conf` of `VMCONF` has the values of the header's text. -/
structure Compiled (u : VmText) (conf : VmConf) : Prop where
  ramBase : conf.ramBase = u.ramBase
  priority : conf.priority = u.priority
  numTlbEntries : conf.numTlbEntries = UInt32.ofNat u.numTlbEntries
  tlb : List.Forall₂ (fun t e => t.compile = some e) u.tlb conf.tlb

theorem compile_ok {board : String → Option UInt32} {u : VmText} {conf : VmConf}
    (h : u.compile board = some conf) : Compiled u conf := by
  unfold VmText.compile at h
  obtain ⟨osType, -, h⟩ := Option.bind_eq_some_iff.mp h
  obtain ⟨fastInterrupts, -, h⟩ := Option.bind_eq_some_iff.mp h
  obtain ⟨interruptRedirect, -, h⟩ := Option.bind_eq_some_iff.mp h
  obtain ⟨tlb, htlb, h⟩ := Option.bind_eq_some_iff.mp h
  obtain ⟨devices, -, h⟩ := Option.bind_eq_some_iff.mp h
  cases h
  exact ⟨rfl, rfl, rfl, mapM_some htlb⟩

end PrplHypervisor.Config
