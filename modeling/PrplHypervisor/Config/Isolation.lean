import PrplHypervisor.Config.Placement

/-! Isolation of the memories of the VMs.  The entries of different VMs have no page in common as
long as no page lies behind 0xA0000000: from there on `kseg0_addr_to_physical` starts again with the
physical address 0. -/

namespace PrplHypervisor.Config

open Arch Kernel Lib.Layout Lib.Words Lib.Partial

/-- The physical address `pa` is in a page that the entry makes valid for its VM. -/
def TlbText.Maps (t : TlbText) (pa : Nat) : Prop :=
  ∃ e guestid index, t.compile = some e ∧ (e.installed guestid index).Maps pa

/-- The entries of two VMs have no page in common, and those of the RAM and of the flash memory have
none below the base of the first VM. -/
structure Isolated (p : Platform) (g : GenVms) : Prop where
  disjoint : ∀ (i j : Nat) (t u : VmText), g.vmconf[i]? = some t → g.vmconf[j]? = some u → i ≠ j →
    ∀ e ∈ t.tlb, ∀ f ∈ u.tlb, ∀ pa, e.Maps pa → ¬f.Maps pa
  ram : ∀ t ∈ g.vmconf, ∀ e, t.tlb.head? = some e → ∀ pa, e.Maps pa → dataBase p % 2 ^ 29 ≤ pa
  flash : ∀ t ∈ g.vmconf, ∀ e ∈ t.tlb.tail, ∀ pa, e.Maps pa → codeBase p % 2 ^ 29 ≤ pa

/-- The end of the kseg0 addresses. -/
def kseg0End : Nat := 0xA0000000

/-- No page of the areas starts behind the kseg0 addresses. -/
def Below (f : VmGroup → UInt32) (base : Nat) (vms : List VmGroup) : Prop :=
  ∀ (i : Nat) (vm : VmGroup), vms[i]? = some vm →
    areaStart f base (vms.take i) vm + (f vm).toNat ≤ kseg0End + pageSizeOf (f vm)

/-- The memories of the VMs fit: the flash areas on PIC32MZ, where the RAM areas always do, and the
RAM areas on Baikal-T1, where no VM asks for flash memory. -/
def MemoriesFit (p : Platform) (vms : List VmGroup) : Prop :=
  match p with
  | .pic32mz => Below flashSize (codeBase p) vms
  | .baikalT1 => (∀ vm ∈ vms, vm.flashSizeBytes = none) ∧ Below ramSize (dataBase p) vms

/-! ### The pages of an entry -/

theorem coherency_lt {s : String} {c : UInt32} (h : coherencies.lookup s = some c) :
    c.toNat < 8 := by
  have hall : ∀ x ∈ coherencies, x.2.toNat < 8 := by decide
  rw [List.lookup_eq_some_iff] at h
  obtain ⟨l, l', heq, -⟩ := h
  exact hall (s, c) (by rw [heq]; simp)

variable {size : UInt32} {page : MemSizesDef} {dual : Bool} {t : TlbText} {start va : Nat}
variable {coherency : String}

theorem IsEntry.compile (h : IsEntry t size start va coherency) (hpage : PageOf size page dual)
    {c : UInt32} (hc : coherencies.lookup coherency = some c) :
    ∃ e, t.compile = some e ∧ e.Paged page.value.toNat ∧
      e.entrylo0 = t.entrylo0 ∧ e.entrylo1 = t.entrylo1 ∧ e.entryhi = t.entryhi := by
  obtain ⟨m, hm, hmask, hvalue⟩ := hpage.pagemask
  refine ⟨_, by rw [TlbText.compile, h.pagemask hpage, h.coherency, hm, hc]; rfl, ?_, rfl, rfl, rfl⟩
  refine ⟨?_, ?_, ?_, coherency_lt hc, hmask, hvalue⟩
  · dsimp only
    rw [h.entrylo0]
    omega
  · dsimp only
    rw [h.entrylo1 hpage]
    split_ifs
    · omega
    · decide
  · dsimp only
    rw [h.entryhi]
    omega

theorem PageOf.frame (h : PageOf size page dual) {x : Nat} (hx : page.value.toNat ∣ x) :
    x % 2 ^ 29 / 4096 * 4096 / page.value.toNat * page.value.toNat = x % 2 ^ 29 := by
  have hphysical : page.value.toNat ∣ x % 2 ^ 29 := (Nat.dvd_mod_iff (h.dvd (by decide))).mpr hx
  rw [Nat.div_mul_cancel (h.dvd_page.trans hphysical), Nat.div_mul_cancel hphysical]

/-- The intermediate addresses of the pages of an area. -/
def pageStarts (page : MemSizesDef) (dual : Bool) (start : Nat) : List Nat :=
  if dual then [start, start + page.value.toNat] else [start]

/-- The pages of an entry, save one with the physical address 0. -/
theorem IsEntry.maps_iff (h : IsEntry t size start va coherency) (hpage : PageOf size page dual)
    {c : UInt32} (hc : coherencies.lookup coherency = some c) (hstart : page.value.toNat ∣ start)
    (pa : Nat) : t.Maps pa ↔ ∃ x ∈ pageStarts page dual start,
      x % 2 ^ 29 ≠ 0 ∧ x % 2 ^ 29 ≤ pa ∧ pa < x % 2 ^ 29 + page.value.toNat := by
  obtain ⟨e, he, hpaged, hlo0, hlo1, -⟩ := h.compile hpage hc
  have hmaps : t.Maps pa ↔ t.entrylo0 ≠ 0 ∧ InFrame page.value.toNat t.entrylo0 pa ∨
      t.entrylo1 ≠ 0 ∧ InFrame page.value.toNat t.entrylo1 pa := by
    rw [← hlo0, ← hlo1, ← hpaged.maps_iff 0 0]
    constructor
    · rintro ⟨e', guestid, index, he', hmaps⟩
      obtain rfl := Option.some.inj (he'.symm.trans he)
      rw [hpaged.maps_iff] at hmaps ⊢
      exact hmaps
    · exact fun hmaps => ⟨e, 0, 0, he, hmaps⟩
  -- a half is the page `x` of the area, or empty
  have hhalf : ∀ {lo : UInt32} {x : Nat}, page.value.toNat ∣ x → lo.toNat = x % 2 ^ 29 / 4096 →
      (lo ≠ 0 ∧ InFrame page.value.toNat lo pa ↔
        x % 2 ^ 29 ≠ 0 ∧ x % 2 ^ 29 ≤ pa ∧ pa < x % 2 ^ 29 + page.value.toNat) := by
    intro lo x hx hlo
    have hpages : 4096 ∣ x % 2 ^ 29 :=
      hpage.dvd_page.trans ((Nat.dvd_mod_iff (hpage.dvd (by decide))).mpr hx)
    have hne : lo ≠ 0 ↔ x % 2 ^ 29 ≠ 0 := by
      rw [ne_eq, ne_eq, ← UInt32.toNat_inj, hlo, UInt32.toNat_zero]
      omega
    rw [hne, InFrame, hlo, hpage.frame hx]
  have hsecond := h.entrylo1 hpage
  rw [hmaps, hhalf hstart h.entrylo0]
  cases dual with
  | true =>
    rw [hhalf (Nat.dvd_add hstart (dvd_refl _)) hsecond]
    simp only [pageStarts, if_pos, List.mem_cons, List.not_mem_nil, or_false]
    constructor
    · rintro (hrange | hrange)
      · exact ⟨start, Or.inl rfl, hrange⟩
      · exact ⟨_, Or.inr rfl, hrange⟩
    · rintro ⟨x, rfl | rfl, hrange⟩
      · exact Or.inl hrange
      · exact Or.inr hrange
  | false =>
    have hzero : t.entrylo1 = 0 := UInt32.toNat_inj.mp hsecond
    simp only [pageStarts, Bool.false_eq_true, if_false, List.mem_singleton]
    constructor
    · rintro (hrange | ⟨hne, -⟩)
      · exact ⟨start, rfl, hrange⟩
      · exact absurd hzero hne
    · rintro ⟨x, rfl, hrange⟩
      exact Or.inl hrange

/-- Below the end of kseg0 the pages of an entry are those of its area. -/
theorem IsEntry.in_area (h : IsEntry t size start va coherency) (hpage : PageOf size page dual)
    {c : UInt32} (hc : coherencies.lookup coherency = some c) (hdvd : page.value.toNat ∣ start)
    (hlow : 2 ^ 31 ≤ start) (hhigh : start + size.toNat ≤ kseg0End + page.value.toNat) {pa : Nat}
    (hmaps : t.Maps pa) : start ≤ pa + 2 ^ 31 ∧ pa + 2 ^ 31 < start + size.toNat := by
  obtain ⟨x, hx, hne, hle, hlt⟩ := (h.maps_iff hpage hc hdvd pa).mp hmaps
  have hsize := hpage.bytes
  have hinside : start ≤ x ∧ x + page.value.toNat ≤ start + size.toNat := by
    cases dual with
    | true =>
      simp only [pageStarts, if_pos, List.mem_cons, List.not_mem_nil, or_false] at hx
      rw [if_pos rfl] at hsize
      omega
    | false =>
      simp only [pageStarts, Bool.false_eq_true, if_false, List.mem_singleton] at hx
      rw [if_neg Bool.false_ne_true] at hsize
      omega
  have hphysical : x % 2 ^ 29 + 2 ^ 31 = x := by
    have hneq : x ≠ kseg0End := by
      rintro rfl
      exact hne (by decide)
    simp only [kseg0End] at hhigh hneq
    omega
  omega

/-! ### The areas of the VMs -/

variable {f : VmGroup → UInt32} {base : Nat} {vms : List VmGroup} {p : Platform} {g : GenVms}

theorem HavePages.take (h : HavePages f vms) (i : Nat) : HavePages f (vms.take i) :=
  fun vm hvm => h vm (List.mem_of_mem_take hvm)

theorem areaStart_dvd {vm : VmGroup} {page : MemSizesDef} {dual : Bool}
    (hpage : PageOf (f vm) page dual) (base : Nat) (before : List VmGroup) :
    page.value.toNat ∣ areaStart f base before vm := by
  rw [areaStart, Lib.Layout.start, hpage.request]
  exact dvd_alignUp _ _

theorem le_areaStart (h : HavePages f vms) (base : Nat) {i : Nat} {vm : VmGroup}
    (hi : vms[i]? = some vm) : base ≤ areaStart f base (vms.take i) vm := by
  obtain ⟨page, dual, hpage⟩ := h vm (List.mem_of_getElem? hi)
  refine (le_finish (fun r hr => ((h.take i).areas r hr).1) base).trans ?_
  rw [areaStart, Lib.Layout.start, hpage.request]
  exact le_alignUp hpage.pos _

theorem area_le (h : HavePages f vms) (base : Nat) {i j : Nat} {v w : VmGroup}
    (hv : vms[i]? = some v) (hw : vms[j]? = some w) (hij : i < j) :
    areaStart f base (vms.take i) v + (f v).toNat ≤ areaStart f base (vms.take j) w := by
  obtain ⟨page, dual, hpage⟩ := h w (List.mem_of_getElem? hw)
  have hsplit : vms.take j = vms.take i ++ v :: (vms.take j).drop (i + 1) := by
    obtain ⟨hlt, rfl⟩ := List.getElem?_eq_some_iff.mp hv
    obtain ⟨hjlt, -⟩ := List.getElem?_eq_some_iff.mp hw
    have hlen : i < (vms.take j).length := by
      rw [List.length_take]
      omega
    have hdrop := List.drop_eq_getElem_cons hlen
    rw [List.getElem_take] at hdrop
    have htake : vms.take i = (vms.take j).take i := by
      rw [List.take_take, Nat.min_eq_left (Nat.le_of_lt hij)]
    rw [← hdrop, htake, List.take_append_drop]
  have hareas : areas f (vms.take j) =
      areas f (vms.take i) ++ request (f v) :: areas f ((vms.take j).drop (i + 1)) := by
    rw [areas, hsplit, List.map_append, List.map_cons, ← hsplit]
    rfl
  unfold areaStart
  rw [hareas]
  refine start_add_size_le (fun r hr => ?_) ?_ base
  · refine ((h.take j).areas r ?_).1
    rw [hareas]
    exact List.mem_append_right _ (List.mem_cons_of_mem _ hr)
  · rw [hpage.request]
    exact hpage.pos

/-- The area of the `i`-th VM contains the kseg0 address of `pa`. -/
def InArea (f : VmGroup → UInt32) (base : Nat) (vms : List VmGroup) (i pa : Nat) : Prop :=
  ∃ vm, vms[i]? = some vm ∧ areaStart f base (vms.take i) vm ≤ pa + 2 ^ 31 ∧
    pa + 2 ^ 31 < areaStart f base (vms.take i) vm + (f vm).toNat

theorem InArea.unique (h : HavePages f vms) {i j pa : Nat} (hi : InArea f base vms i pa)
    (hj : InArea f base vms j pa) : i = j := by
  obtain ⟨v, hv, hlev, hltv⟩ := hi
  obtain ⟨w, hw, hlew, hltw⟩ := hj
  by_contra hne
  rcases Nat.lt_or_gt_of_ne hne with hlt | hgt
  · have hle := area_le h base hv hw hlt
    omega
  · have hle := area_le h base hw hv hgt
    omega

theorem InArea.low (h : HavePages f vms) {i pa : Nat} (hi : InArea f base vms i pa) :
    base ≤ pa + 2 ^ 31 := by
  obtain ⟨v, hv, hle, -⟩ := hi
  exact (le_areaStart h base hv).trans hle

theorem area_end (h : HavePages f vms) (base : Nat) {i : Nat} {vm : VmGroup}
    (hvm : vms[i]? = some vm) :
    areaStart f base (vms.take i) vm + (f vm).toNat ≤
      alignUp (2 ^ 24) base + vms.length * 2 ^ 25 := by
  obtain ⟨hlt, rfl⟩ := List.getElem?_eq_some_iff.mp hvm
  obtain ⟨page, dual, hpage⟩ := h vms[i] (List.getElem_mem hlt)
  have hspace := ((h.take i).append hpage).finish_le base
  rw [areas, List.map_append, List.map_singleton, finish_append, List.length_append,
    List.length_singleton, List.length_take] at hspace
  refine hspace.trans (Nat.add_le_add_left (Nat.mul_le_mul_right _ ?_) _)
  omega

theorem Placed.length_le (h : Placed p vms g) : vms.length ≤ 63 ∧
    (p = .pic32mz → vms.length ≤ 7) := by
  have htotal := h.total
  have hroom := h.room
  cases p with
  | pic32mz =>
    simp only [ownEntries, TOTAL_TLB_ENTRIES] at htotal hroom
    exact ⟨by omega, fun _ => by omega⟩
  | baikalT1 =>
    simp only [ownEntries, TOTAL_TLB_ENTRIES] at htotal hroom
    exact ⟨by omega, fun hne => by cases hne⟩

/-! ### Isolation -/

section

variable (h : Placed p vms g) {i : Nat} {vm : VmGroup} {u : VmText} (hvm : vms[i]? = some vm)
  (hu : g.vmconf[i]? = some u) (hmaps : vm.memoryMaps.getD [] = [])

include h hvm hu hmaps

/-- Without memory maps a VM has an entry for its RAM and one for its flash memory, if it has
one. -/
theorem Placed.entries : ∃ ram flash, u.tlb = ram :: flash ∧
    IsEntry ram (ramSize vm) (areaStart ramSize (dataBase p) (vms.take i) vm)
      VMS_RAM_VIRTUAL_BASE_ADDRESS.toNat "WRITE_BACK" ∧
    (p = .baikalT1 → vm.flashSizeBytes = none → flash = []) ∧
    (p = .pic32mz → ∃ entry, flash = [entry] ∧
      IsEntry entry (flashSize vm) (areaStart flashSize (codeBase p) (vms.take i) vm)
        (VMS_CODE_VIRTUAL_BASE_ADDRESS p).toNat "WRITE_BACK") := by
  have hemitted := h.texts i vm u hvm hu
  obtain ⟨ram, flash, maps, htlb, hram, hflash, hmapped⟩ := hemitted.tlb
  rw [hmaps] at hmapped
  cases hmapped
  rw [hemitted.ramBase] at hram
  refine ⟨ram, flash, by rw [htlb, List.append_nil], hram, ?_, ?_⟩
  · rintro rfl hnone
    rcases hflash with ⟨-, -, hnil⟩ | ⟨_, _, _, _, hsome, -⟩
    · exact hnil
    · exact absurd hnone hsome
  · rintro rfl
    rcases hflash with ⟨-, hne, -⟩ | ⟨page, dual, entry, addr, -, -, rfl, hentry, haddr⟩
    · cases hne
    · exact ⟨entry, rfl, haddr rfl ▸ hentry⟩

theorem Placed.ram_inArea (hfit : MemoriesFit p vms) {e : TlbText} (he : u.tlb.head? = some e)
    {pa : Nat} (hpa : e.Maps pa) : InArea ramSize (dataBase p) vms i pa := by
  obtain ⟨ram, flash, htlb, hram, -⟩ := h.entries hvm hu hmaps
  obtain ⟨page, dual, hpage⟩ := h.ramPages vm (List.mem_of_getElem? hvm)
  rw [htlb] at he
  obtain rfl := Option.some.inj he
  have hlow := le_areaStart h.ramPages (dataBase p) hvm
  have hhigh : areaStart ramSize (dataBase p) (vms.take i) vm + (ramSize vm).toNat ≤
      kseg0End + page.value.toNat := by
    cases p with
    | pic32mz =>
      have hend := area_end h.ramPages (dataBase .pic32mz) hvm
      have hbase : alignUp (2 ^ 24) (dataBase .pic32mz) = 0x81000000 := by decide
      have hlength := h.length_le.2 rfl
      simp only [kseg0End]
      omega
    | baikalT1 =>
      have hbelow := hfit.2 i vm hvm
      rwa [pageSizeOf, hpage.select] at hbelow
  have hbase : 2 ^ 31 ≤ dataBase p := by cases p <;> decide
  exact ⟨vm, hvm, hram.in_area hpage rfl (areaStart_dvd hpage _ _) (hbase.trans hlow) hhigh hpa⟩

theorem Placed.flash_inArea (hfit : MemoriesFit p vms) {e : TlbText} (he : e ∈ u.tlb.tail)
    {pa : Nat} (hpa : e.Maps pa) :
    p = .pic32mz ∧ InArea flashSize (codeBase p) vms i pa := by
  obtain ⟨ram, flash, htlb, -, hnone, hflash⟩ := h.entries hvm hu hmaps
  rw [htlb, List.tail_cons] at he
  cases p with
  | baikalT1 =>
    rw [hnone rfl (hfit.1 vm (List.mem_of_getElem? hvm))] at he
    cases he
  | pic32mz =>
    obtain ⟨entry, rfl, hentry⟩ := hflash rfl
    obtain rfl := List.mem_singleton.mp he
    obtain ⟨page, dual, hpage⟩ := h.flashPages rfl vm (List.mem_of_getElem? hvm)
    have hlow := le_areaStart (h.flashPages rfl) (codeBase .pic32mz) hvm
    have hhigh := hfit i vm hvm
    rw [pageSizeOf, hpage.select] at hhigh
    have hbase : 2 ^ 31 ≤ codeBase .pic32mz := by decide
    exact ⟨rfl, vm, hvm, hentry.in_area hpage rfl (areaStart_dvd hpage _ _)
      (hbase.trans hlow) hhigh hpa⟩

end

theorem Placed.isolated (h : Placed p vms g) (hmaps : ∀ vm ∈ vms, vm.memoryMaps.getD [] = [])
    (hfit : MemoriesFit p vms) : Isolated p g := by
  have hgroup : ∀ {i : Nat} {t : VmText}, g.vmconf[i]? = some t → ∃ vm, vms[i]? = some vm ∧
      vm.memoryMaps.getD [] = [] := by
    intro i t ht
    obtain ⟨hlt, -⟩ := List.getElem?_eq_some_iff.mp ht
    rw [h.length] at hlt
    exact ⟨vms[i], List.getElem?_eq_getElem hlt, hmaps _ (List.getElem_mem hlt)⟩
  -- a page of an entry is in the area of the RAM or in that of the flash memory
  have hcases : ∀ {i : Nat} {t : VmText}, g.vmconf[i]? = some t → ∀ e ∈ t.tlb, ∀ pa, e.Maps pa →
      InArea ramSize (dataBase p) vms i pa ∨
        p = .pic32mz ∧ InArea flashSize (codeBase p) vms i pa := by
    intro i t ht e he pa hpa
    obtain ⟨vm, hvm, hnone⟩ := hgroup ht
    cases htlb : t.tlb with
    | nil =>
      rw [htlb] at he
      cases he
    | cons ram flash =>
      rw [htlb] at he
      rcases List.mem_cons.mp he with rfl | he
      · exact Or.inl (h.ram_inArea hvm ht hnone hfit (by rw [htlb]; rfl) hpa)
      · exact Or.inr (h.flash_inArea hvm ht hnone hfit (by rw [htlb]; exact he) hpa)
  -- on PIC32MZ the RAM areas end below the flash areas
  have hapart : ∀ {i j pa : Nat}, p = .pic32mz → InArea ramSize (dataBase p) vms i pa →
      ¬InArea flashSize (codeBase p) vms j pa := by
    rintro i j pa rfl ⟨vm, hvm, -, hlt⟩ hflash
    have hend := area_end h.ramPages (dataBase .pic32mz) hvm
    have hlow := hflash.low (h.flashPages rfl)
    have hlength := h.length_le.2 rfl
    have hdata : alignUp (2 ^ 24) (dataBase .pic32mz) = 0x81000000 := by decide
    have hcode : codeBase .pic32mz = 0x9D008000 := by decide
    omega
  constructor
  · intro i j t u ht hu hne e he f hf pa hpa hpa'
    rcases hcases ht e he pa hpa with hram | ⟨hpic, hflash⟩
    · rcases hcases hu f hf pa hpa' with hram' | ⟨hpic, hflash'⟩
      · exact hne (hram.unique h.ramPages hram')
      · exact hapart hpic hram hflash'
    · rcases hcases hu f hf pa hpa' with hram' | ⟨-, hflash'⟩
      · exact hapart hpic hram' hflash
      · exact hne (hflash.unique (h.flashPages hpic) hflash')
  · intro t ht e he pa hpa
    obtain ⟨i, hi⟩ := List.getElem?_of_mem ht
    obtain ⟨vm, hvm, hnone⟩ := hgroup hi
    have hlow := (h.ram_inArea hvm hi hnone hfit he hpa).low h.ramPages
    have hbase : dataBase p % 2 ^ 29 + 2 ^ 31 = dataBase p := by cases p <;> decide
    omega
  · intro t ht e he pa hpa
    obtain ⟨i, hi⟩ := List.getElem?_of_mem ht
    obtain ⟨vm, hvm, hnone⟩ := hgroup hi
    obtain ⟨rfl, hflash⟩ := h.flash_inArea hvm hi hnone hfit he hpa
    have hlow := hflash.low (h.flashPages rfl)
    have hcode : codeBase .pic32mz = 0x9D008000 := by decide
    omega

/-- On PIC32MZ a flash page behind the end of kseg0 is one below the first VM's. -/
theorem Placed.fits_of_isolated (h : Placed .pic32mz vms g)
    (hmaps : ∀ vm ∈ vms, vm.memoryMaps.getD [] = []) (hiso : Isolated .pic32mz g) :
    MemoriesFit .pic32mz vms := by
  intro i vm hvm
  obtain ⟨hlt, -⟩ := List.getElem?_eq_some_iff.mp hvm
  have hmem := List.mem_of_getElem? hvm
  have hu : g.vmconf[i]? = some (g.vmconf.get ⟨i, by rw [h.length]; exact hlt⟩) :=
    List.getElem?_eq_getElem _
  obtain ⟨ram, flash, htlb, -, -, hflash⟩ := h.entries hvm hu (hmaps vm hmem)
  obtain ⟨entry, rfl, hentry⟩ := hflash rfl
  obtain ⟨page, dual, hpage⟩ := h.flashPages rfl vm hmem
  have hend := area_end (h.flashPages rfl) (codeBase .pic32mz) hvm
  have hbase : alignUp (2 ^ 24) (codeBase .pic32mz) = 0x9E000000 := by decide
  have hlength := h.length_le.2 rfl
  have hdvd := areaStart_dvd hpage (codeBase .pic32mz) (vms.take i)
  rw [pageSizeOf, hpage.select]
  show _ ≤ kseg0End + page.value.toNat
  by_contra hout
  -- the last page of the area
  obtain ⟨x, hx, hlast⟩ : ∃ x ∈ pageStarts page dual (areaStart flashSize (codeBase .pic32mz)
      (vms.take i) vm), x + page.value.toNat =
        areaStart flashSize (codeBase .pic32mz) (vms.take i) vm + (flashSize vm).toNat := by
    rw [hpage.bytes]
    cases dual with
    | true => exact ⟨_, List.mem_cons_of_mem _ List.mem_cons_self, by rw [if_pos rfl]; omega⟩
    | false => exact ⟨_, List.mem_cons_self, by rw [if_neg Bool.false_ne_true]⟩
  have hbehind : kseg0End < x := by omega
  have hphysical : x % 2 ^ 29 = x - kseg0End := by
    simp only [kseg0End] at hbehind ⊢
    omega
  have hpa : entry.Maps (x % 2 ^ 29) :=
    (hentry.maps_iff hpage rfl hdvd _).mpr ⟨x, hx, by omega, le_refl _,
      Nat.lt_add_of_pos_right hpage.pos⟩
  have hlow := hiso.flash _ (List.mem_of_getElem? hu) entry
    (by rw [htlb]; exact List.mem_singleton_self entry) _ hpa
  have hcode : codeBase .pic32mz % 2 ^ 29 = 0x1D008000 := by decide
  simp only [kseg0End] at hphysical
  omega

/-- The memories of the VMs of an accepted configuration are isolated when they fit, and on PIC32MZ
only then. -/
theorem memory_isolated (p : Platform) (vms : List VmGroup) (g : GenVms)
    (hgen : genConfVms p (some vms) = .ok g) (hmaps : ∀ vm ∈ vms, vm.memoryMaps.getD [] = []) :
    (MemoriesFit p vms → Isolated p g) ∧ (p = .pic32mz → Isolated p g → MemoriesFit p vms) := by
  have h := genConfVms_placed hgen
  refine ⟨h.isolated hmaps, ?_⟩
  rintro rfl
  exact h.fits_of_isolated hmaps

theorem memory_isolated_pingPong :
    ∃ g, genConfVms .pic32mz (some pingPongGroups) = .ok g ∧ Isolated .pic32mz g := by
  have hok : (genConfVms .pic32mz (some pingPongGroups)).isOk := by decide +kernel
  cases hgen : genConfVms .pic32mz (some pingPongGroups) with
  | error e =>
    rw [hgen] at hok
    cases hok
  | ok g =>
    refine ⟨g, rfl, (memory_isolated .pic32mz pingPongGroups g hgen ?_).1 ?_⟩
    · intro vm hvm
      simp only [pingPongGroups, List.mem_cons, List.not_mem_nil, or_false] at hvm
      rcases hvm with rfl | rfl <;> rfl
    · rintro (_ | _ | i) vm hvm
      · cases hvm
        decide +kernel
      · cases hvm
        decide +kernel
      · cases hvm

/-- With 32 MB of flash memory for each of two VMs the area of the second one is behind kseg0, and
it gets pages from 0x01000000 on, in the RAM. -/
theorem flash_wraps :
    ∃ g, genConfVms .pic32mz (some [bareMetal "a" "MEM_SIZE_32KB" "MEM_SIZE_32MB",
        bareMetal "b" "MEM_SIZE_32KB" "MEM_SIZE_32MB"]) = .ok g ∧ ¬Isolated .pic32mz g := by
  have hok : (genConfVms .pic32mz (some [bareMetal "a" "MEM_SIZE_32KB" "MEM_SIZE_32MB",
      bareMetal "b" "MEM_SIZE_32KB" "MEM_SIZE_32MB"])).isOk := by
    decide +kernel
  cases hgen : genConfVms .pic32mz (some [bareMetal "a" "MEM_SIZE_32KB" "MEM_SIZE_32MB",
      bareMetal "b" "MEM_SIZE_32KB" "MEM_SIZE_32MB"]) with
  | error e =>
    rw [hgen] at hok
    cases hok
  | ok g =>
    refine ⟨g, rfl, fun hiso => ?_⟩
    have hfit := (genConfVms_placed hgen).fits_of_isolated (by
      intro vm hvm
      simp only [List.mem_cons, List.not_mem_nil, or_false] at hvm
      rcases hvm with rfl | rfl <;> rfl) hiso
    exact absurd (hfit 1 _ rfl) (by decide +kernel)

end PrplHypervisor.Config
