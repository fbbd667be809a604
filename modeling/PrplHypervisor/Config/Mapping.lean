import PrplHypervisor.Config.Isolation

/-! The memory maps of a VM.  The TLB entry of a map is for a pair of pages: it maps the addresses
of the map to themselves when the map starts at the first page of the pair, and no other entry of
the VM has addresses of the map in its pair of pages. -/

namespace PrplHypervisor.Config

open Arch Kernel Lib.Layout Lib.Words Lib.Partial

/-- The physical address of a memory map. -/
def mapBase (mm : MemoryMap) : Nat := (mm.baseAddr.getD 0).toNat % 2 ^ 29

/-- The size of a memory map. -/
def mapSize (mm : MemoryMap) : UInt32 := getValueFromStr MemSizes (mm.pageSize.getD "")

/-- The addresses from `start` to `start + span`: the pair of pages of a TLB entry. -/
structure Window where
  start : Nat
  span : Nat
  deriving DecidableEq, Repr

/-- The pair of pages around the address `va`, for an area of `size` bytes. -/
def window (va : Nat) (size : UInt32) : Window where
  start := va / (2 * pageSizeOf size) * (2 * pageSizeOf size)
  span := 2 * pageSizeOf size

/-- The pairs of pages of the entries of a VM: RAM, flash memory and memory maps. -/
def windows (p : Platform) (vm : VmGroup) : List Window :=
  window (VMS_RAM_VIRTUAL_BASE_ADDRESS.toNat % 2 ^ 29) (ramSize vm) ::
    (if vm.flashSizeBytes = none then []
      else [window ((VMS_CODE_VIRTUAL_BASE_ADDRESS p).toNat % 2 ^ 29) (flashSize vm)]) ++
    (vm.memoryMaps.getD []).map fun mm => window (mapBase mm) (mapSize mm)

/-- The place of the entry of the `j`-th memory map among the entries of a VM. -/
def mapIndex (vm : VmGroup) (j : Nat) : Nat :=
  (if vm.flashSizeBytes = none then 1 else 2) + j

/-- The `j`-th memory map of a VM is not at address 0 and starts with a pair of pages, its entry is
among those that are installed, and it does not meet the pair of pages of another one. -/
structure MapFits (p : Platform) (vm : VmGroup) (j : Nat) (mm : MemoryMap) : Prop where
  nonzero : mapBase mm ≠ 0
  aligned : 2 * pageSizeOf (mapSize mm) ∣ mapBase mm
  installed : mapIndex vm j < numTlbEntries p vm
  alone : ∀ m < numTlbEntries p vm, m ≠ mapIndex vm j → ∀ w ∈ (windows p vm)[m]?,
    mapBase mm + (mapSize mm).toNat ≤ w.start ∨ w.start + w.span ≤ mapBase mm

/-- Of the entries of a VM only the `n`-th one matches the addresses from `base` on, and it maps
each of them to itself. -/
def Translates (entries : List HwTlbEntry) (n base size : Nat) : Prop :=
  ∀ k < size, (∀ m e, entries[m]? = some e → e.Matches (base + k) → m = n) ∧
    ∃ e, entries[n]? = some e ∧ e.Matches (base + k) ∧ e.translate (base + k) = some (base + k)

/-- The entries of the TLB that `create_vm` writes for a VM. -/
def installedEntries (guestid tlbindex : UInt32) (conf : VmConf) : List HwTlbEntry :=
  (fillTlbEntries guestid tlbindex conf).map fun e => e.toHw guestid

/-! ### One entry -/

variable {size : UInt32} {page : MemSizesDef} {dual : Bool} {t : TlbText} {start va : Nat}
variable {coherency : String}

/-- The entry of the hardware for an entry of the header, with its pair of pages. -/
structure HasWindow (t : TlbText) (w : Window) : Prop where
  entry : ∃ (size : UInt32) (page : MemSizesDef) (dual : Bool) (start va : Nat)
    (coherency : String), PageOf size page dual ∧ IsEntry t size start va coherency ∧
      w = window (va % 2 ^ 29) size

theorem PageOf.pageSizeOf (h : PageOf size page dual) : pageSizeOf size = page.value.toNat := by
  rw [Config.pageSizeOf, h.select]

theorem mem_window_iff (h : PageOf size page dual) (va a : Nat) :
    va / (2 * page.value.toNat) = a / (2 * page.value.toNat) ↔
      (window va size).start ≤ a ∧ a < (window va size).start + (window va size).span := by
  have hpos : 0 < 2 * page.value.toNat := Nat.mul_pos (by decide) h.pos
  rw [window, h.pageSizeOf]
  dsimp only
  rw [eq_comm, Nat.div_eq_iff hpos]
  omega

theorem exists_coherency {e : TlbEntries} (he : t.compile = some e) :
    ∃ c, coherencies.lookup t.coherency = some c := by
  rw [TlbText.compile] at he
  obtain ⟨_, -, he⟩ := Option.bind_eq_some_iff.mp he
  obtain ⟨c, hc, -⟩ := Option.bind_eq_some_iff.mp he
  exact ⟨c, hc⟩

theorem HasWindow.span_pos {w : Window} (h : HasWindow t w) : 0 < w.span := by
  obtain ⟨size, page, dual, start, va, coherency, hpage, -, rfl⟩ := h.entry
  rw [window, hpage.pageSizeOf]
  exact Nat.mul_pos (by decide) hpage.pos

theorem HasWindow.matches_iff {w : Window} (h : HasWindow t w) {e : TlbEntries}
    (he : t.compile = some e) (guestid index : UInt32) (a : Nat) :
    (e.installed guestid index).Matches a ↔ w.start ≤ a ∧ a < w.start + w.span := by
  obtain ⟨size, page, dual, start, va, coherency, hpage, hentry, rfl⟩ := h.entry
  obtain ⟨c, hc⟩ := exists_coherency he
  rw [hentry.coherency] at hc
  obtain ⟨e', he', hpaged, -, -, hhi⟩ := hentry.compile hpage hc
  obtain rfl := Option.some.inj (he.symm.trans he')
  have hquotient : va % 2 ^ 29 / 4096 * 4096 / (2 * page.value.toNat) =
      va % 2 ^ 29 / (2 * page.value.toNat) := by
    obtain ⟨q, hq⟩ := hpage.dvd_page
    rw [hq, Nat.mul_left_comm, ← Nat.div_div_eq_div_mul, Nat.mul_div_cancel _ (by decide),
      Nat.div_div_eq_div_mul]
  rw [hpaged.matches_iff, hhi, hentry.entryhi, hquotient]
  exact mem_window_iff hpage (va % 2 ^ 29) a

theorem calculateMemBase_of_dvd {memBase : UInt32} (hdvd : page.value.toNat ∣ memBase.toNat) :
    calculateMemBase page memBase = memBase := by
  refine if_neg fun hne => hne (UInt32.toNat_inj.mp ?_)
  rw [UInt32.toNat_mod, UInt32.toNat_zero]
  exact Nat.mod_eq_zero_of_dvd hdvd

section

variable {base : UInt32} {e : TlbEntries} (hpage : PageOf size page dual)
  (hentry : IsEntry t size (calculateMemBase page base).toNat base.toNat coherency)
  (hpaged : e.Paged page.value.toNat) (hlo0 : e.entrylo0 = t.entrylo0)
  (hlo1 : e.entrylo1 = t.entrylo1) (guestid index : UInt32)

include hpage hentry hpaged hlo0 hlo1

omit hlo1 in
/-- The addresses in the first page of a pair have the half 0. -/
theorem translate_first (hne : base.toNat % 2 ^ 29 ≠ 0)
    (hdvd : 2 * page.value.toNat ∣ base.toNat % 2 ^ 29) {k : Nat} (hk : k < page.value.toNat) :
    (e.installed guestid index).translate (base.toNat % 2 ^ 29 + k) =
      some (base.toNat % 2 ^ 29 + k) := by
  have hpos := hpage.pos
  have hone : page.value.toNat ∣ base.toNat % 2 ^ 29 := dvd_of_mul_left_dvd hdvd
  have hbase : page.value.toNat ∣ base.toNat :=
    (Nat.dvd_mod_iff (hpage.dvd (by decide))).mp hone
  rw [calculateMemBase_of_dvd hbase] at hentry
  obtain ⟨q, hq⟩ := hdvd
  have hquotient : (base.toNat % 2 ^ 29 + k) / page.value.toNat = 2 * q := by
    rw [hq, Nat.mul_right_comm, Nat.mul_comm, Nat.mul_add_div hpos, Nat.div_eq_of_lt hk]
    rfl
  have hrest : (base.toNat % 2 ^ 29 + k) % page.value.toNat = k := by
    rw [hq, Nat.mul_right_comm, Nat.mul_comm, Nat.mul_add_mod, Nat.mod_eq_of_lt hk]
  have hvalid : t.entrylo0 ≠ 0 := by
    rw [ne_eq, ← UInt32.toNat_inj, hentry.entrylo0, UInt32.toNat_zero]
    have hpages := hpage.dvd_page.trans hone
    omega
  rw [hpaged.translate_eq, hquotient, hrest, hlo0]
  dsimp only
  rw [if_pos (Nat.mul_mod_right 2 q), if_pos hvalid, hentry.entrylo0, hpage.frame hbase]

omit hlo0 in
/-- Those in the second page have the half 1. -/
theorem translate_second (hdual : dual = true)
    (hdvd : 2 * page.value.toNat ∣ base.toNat % 2 ^ 29) {k : Nat} (hk : k < page.value.toNat) :
    (e.installed guestid index).translate (base.toNat % 2 ^ 29 + (page.value.toNat + k)) =
      some (base.toNat % 2 ^ 29 + (page.value.toNat + k)) := by
  have hpos := hpage.pos
  have hone : page.value.toNat ∣ base.toNat % 2 ^ 29 := dvd_of_mul_left_dvd hdvd
  have hbase : page.value.toNat ∣ base.toNat :=
    (Nat.dvd_mod_iff (hpage.dvd (by decide))).mp hone
  rw [calculateMemBase_of_dvd hbase] at hentry
  -- the pair ends before the next multiple of 2 ^ 29
  have hinside : base.toNat % 2 ^ 29 + 2 * page.value.toNat ≤ 2 ^ 29 :=
    add_le_of_dvd hdvd (Nat.mul_dvd_mul_left 2 (hpage.dvd (n := 28) (by decide)))
      (Nat.mod_lt _ (by decide))
  have hlo : (base.toNat + page.value.toNat) % 2 ^ 29 =
      base.toNat % 2 ^ 29 + page.value.toNat := by
    omega
  have hentrylo1 := hentry.entrylo1 hpage
  rw [if_pos hdual] at hentrylo1
  have hvalid : t.entrylo1 ≠ 0 := by
    rw [ne_eq, ← UInt32.toNat_inj, hentrylo1, UInt32.toNat_zero, hlo]
    have hle := Nat.le_of_dvd hpos hpage.dvd_page
    omega
  obtain ⟨q, hq⟩ := hdvd
  have hpair : base.toNat % 2 ^ 29 + (page.value.toNat + k) =
      page.value.toNat * (2 * q + 1) + k := by
    rw [hq, Nat.mul_right_comm, Nat.mul_comm (2 * q), Nat.mul_add_one, Nat.add_assoc]
  have hquotient : (base.toNat % 2 ^ 29 + (page.value.toNat + k)) / page.value.toNat =
      2 * q + 1 := by
    rw [hpair, Nat.mul_add_div hpos, Nat.div_eq_of_lt hk]
  have hrest : (base.toNat % 2 ^ 29 + (page.value.toNat + k)) % page.value.toNat = k := by
    rw [hpair, Nat.mul_add_mod, Nat.mod_eq_of_lt hk]
  have hodd : ¬(2 * q + 1) % 2 = 0 := by omega
  rw [hpaged.translate_eq, hquotient, hrest, hlo1]
  dsimp only
  rw [if_neg hodd, if_pos hvalid, hentrylo1, hpage.frame (Nat.dvd_add hbase (dvd_refl _)), hlo,
    Nat.add_assoc]

/-- A map that starts with a pair of pages and not at 0 is mapped to itself. -/
theorem translate_aligned (hne : base.toNat % 2 ^ 29 ≠ 0)
    (hdvd : 2 * page.value.toNat ∣ base.toNat % 2 ^ 29) {k : Nat} (hk : k < size.toNat) :
    (e.installed guestid index).translate (base.toNat % 2 ^ 29 + k) =
      some (base.toNat % 2 ^ 29 + k) := by
  have hsize := hpage.bytes
  by_cases hhalf : k < page.value.toNat
  · exact translate_first hpage hentry hpaged hlo0 guestid index hne hdvd hhalf
  · cases dual with
    | false =>
      rw [if_neg Bool.false_ne_true] at hsize
      omega
    | true =>
      rw [if_pos rfl] at hsize
      have hsecond := translate_second hpage hentry hpaged hlo1 guestid index rfl hdvd
        (k := k - page.value.toNat) (by omega)
      rwa [Nat.add_sub_cancel' (Nat.le_of_not_lt hhalf)] at hsecond

/-- Only such a map is. -/
theorem aligned_of_translate
    (htranslate : ∀ k < size.toNat, (e.installed guestid index).Matches (base.toNat % 2 ^ 29 + k) ∧
      (e.installed guestid index).translate (base.toNat % 2 ^ 29 + k) =
        some (base.toNat % 2 ^ 29 + k)) :
    base.toNat % 2 ^ 29 ≠ 0 ∧ 2 * page.value.toNat ∣ base.toNat % 2 ^ 29 := by
  have hpos := hpage.pos
  have hsize := hpage.bytes
  have hle := hpage.page_le_size
  have hdvd : 2 * page.value.toNat ∣ base.toNat % 2 ^ 29 := by
    cases dual with
    | true =>
      -- the last address has the same pair of pages as the first one
      rw [if_pos rfl] at hsize
      have hmatch := (htranslate (size.toNat - 1) (by omega)).1
      have hmatch0 := (htranslate 0 (by omega)).1
      rw [hpaged.matches_iff] at hmatch hmatch0
      have hsame := hmatch0.symm.trans hmatch
      rw [Nat.add_zero, hsize, eq_comm, Nat.div_eq_iff (by omega)] at hsame
      have hmul := Nat.div_mul_le_self (base.toNat % 2 ^ 29) (2 * page.value.toNat)
      exact Dvd.intro_left (base.toNat % 2 ^ 29 / (2 * page.value.toNat)) (by omega)
    | false =>
      -- the second page is not valid, so the first and the last address are in the first one
      rw [if_neg Bool.false_ne_true] at hsize
      have hzero : t.entrylo1 = 0 := UInt32.toNat_inj.mp (by
        have hentrylo1 := hentry.entrylo1 hpage
        rwa [if_neg Bool.false_ne_true] at hentrylo1)
      have heven : ∀ k < size.toNat, (base.toNat % 2 ^ 29 + k) / page.value.toNat % 2 = 0 := by
        intro k hk
        by_contra hodd
        have hnone := (htranslate k hk).2
        rw [hpaged.translate_eq, if_neg hodd, hlo1, hzero] at hnone
        cases hnone
      have hfirst := heven 0 (by omega)
      have hlast := heven (size.toNat - 1) (by omega)
      rw [Nat.add_zero] at hfirst
      have hdiv := Nat.div_add_mod (base.toNat % 2 ^ 29) page.value.toNat
      have hmod := Nat.mod_lt (base.toNat % 2 ^ 29) hpos
      have hpage_dvd : base.toNat % 2 ^ 29 % page.value.toNat = 0 := by
        by_contra hne
        have hnext : (base.toNat % 2 ^ 29 + (size.toNat - 1)) / page.value.toNat =
            base.toNat % 2 ^ 29 / page.value.toNat + 1 := by
          rw [Nat.div_eq_iff hpos, Nat.succ_mul, Nat.mul_comm]
          omega
        omega
      obtain ⟨q, hq⟩ := Nat.dvd_of_mod_eq_zero hfirst
      rw [hq, hpage_dvd, Nat.add_zero] at hdiv
      exact ⟨q, by rw [← hdiv, Nat.mul_left_comm, Nat.mul_assoc]⟩
  refine ⟨fun hzero => ?_, hdvd⟩
  -- at 0 the frame number is 0, which is not valid
  have hone : page.value.toNat ∣ base.toNat % 2 ^ 29 := dvd_of_mul_left_dvd hdvd
  have hbase : page.value.toNat ∣ base.toNat :=
    (Nat.dvd_mod_iff (hpage.dvd (by decide))).mp hone
  have hnone := (htranslate 0 (by omega)).2
  have hlo : t.entrylo0 = 0 := by
    rw [← UInt32.toNat_inj, hentry.entrylo0, calculateMemBase_of_dvd hbase, hzero]
    rfl
  rw [hpaged.translate_eq, hzero, hlo0, hlo] at hnone
  simp at hnone

end

theorem translates_iff (hpage : PageOf size page dual) {base : UInt32}
    (hentry : IsEntry t size (calculateMemBase page base).toNat base.toNat coherency)
    {e : TlbEntries} (he : t.compile = some e) (guestid index : UInt32) :
    (∀ k < size.toNat, (e.installed guestid index).Matches (base.toNat % 2 ^ 29 + k) ∧
      (e.installed guestid index).translate (base.toNat % 2 ^ 29 + k) =
        some (base.toNat % 2 ^ 29 + k)) ↔
      base.toNat % 2 ^ 29 ≠ 0 ∧ 2 * pageSizeOf size ∣ base.toNat % 2 ^ 29 := by
  obtain ⟨c, hc⟩ := exists_coherency he
  rw [hentry.coherency] at hc
  obtain ⟨e', he', hpaged, hlo0, hlo1, -⟩ := hentry.compile hpage hc
  obtain rfl := Option.some.inj (he.symm.trans he')
  rw [hpage.pageSizeOf]
  constructor
  · exact aligned_of_translate hpage hentry hpaged hlo0 hlo1 guestid index
  · rintro ⟨hne, hdvd⟩ k hk
    refine ⟨?_, translate_aligned hpage hentry hpaged hlo0 hlo1 guestid index hne hdvd hk⟩
    have hwindow : HasWindow t (window (base.toNat % 2 ^ 29) size) :=
      ⟨_, _, _, _, _, _, hpage, hentry, rfl⟩
    have hstart := Nat.div_mul_cancel hdvd
    have hbytes := hpage.bytes
    rw [hwindow.matches_iff he, window, hpage.pageSizeOf]
    dsimp only
    split_ifs at hbytes <;> omega

/-! ### The entries of a VM -/

variable {p : Platform} {vms : List VmGroup} {g : GenVms}

theorem Emitted.windows {before : List VmGroup} {vm : VmGroup} {u : VmText}
    (h : Emitted p before vm u) (hram : ∃ page dual, PageOf (ramSize vm) page dual) :
    List.Forall₂ HasWindow u.tlb (windows p vm) := by
  obtain ⟨ram, flash, maps, htlb, hentry, hflash, hmaps⟩ := h.tlb
  obtain ⟨page, dual, hpage⟩ := hram
  rw [htlb, Config.windows]
  refine .cons ⟨_, _, _, _, _, _, hpage, hentry, rfl⟩ (List.rel_append ?_ ?_)
  · rcases hflash with ⟨hnone, -, rfl⟩ | ⟨page', dual', entry, addr, hsome, hpage', rfl, hentry', -⟩
    · rw [if_pos hnone]
      exact .nil
    · rw [if_neg hsome]
      exact .cons ⟨_, _, _, _, _, _, hpage', hentry', rfl⟩ .nil
  · rw [List.forall₂_map_right_iff]
    apply hmaps.flip.imp
    rintro t mm ⟨baseAddr, str, page', dual', hbase, hstr, hpage', hentry'⟩
    refine ⟨_, _, _, _, _, _, hpage', hentry', ?_⟩
    rw [mapBase, mapSize, hbase, hstr]
    rfl

theorem Emitted.map {before : List VmGroup} {vm : VmGroup} {u : VmText}
    (h : Emitted p before vm u) {j : Nat} {mm : MemoryMap}
    (hmm : (vm.memoryMaps.getD [])[j]? = some mm) :
    ∃ t, u.tlb[mapIndex vm j]? = some t ∧ IsMap vm mm t := by
  obtain ⟨ram, flash, maps, htlb, -, hflash, hmaps⟩ := h.tlb
  obtain ⟨hlt, rfl⟩ := List.getElem?_eq_some_iff.mp hmm
  have hlt' : j < maps.length := hmaps.length_eq ▸ hlt
  refine ⟨maps.get ⟨j, hlt'⟩, ?_, hmaps.get hlt hlt'⟩
  rw [htlb, mapIndex]
  rcases hflash with ⟨hnone, -, rfl⟩ | ⟨_, _, entry, _, hsome, -, rfl, -⟩
  · rw [if_pos hnone, Nat.add_comm]
    simp [hlt']
  · rw [if_neg hsome, Nat.add_comm]
    simp [hlt']

section

variable {board : String → Option UInt32} {u : VmText} {conf : VmConf}
  (hconf : u.compile board = some conf)

include hconf

theorem installedEntries_get (hnum : u.numTlbEntries < 2 ^ 32) (guestid tlbindex : UInt32) (m : Nat)
    (e : HwTlbEntry) : (installedEntries guestid tlbindex conf)[m]? = some e ↔
      m < u.numTlbEntries ∧ ∃ t te, u.tlb[m]? = some t ∧ t.compile = some te ∧
        e = te.installed guestid (tlbindex + UInt32.ofNat m) := by
  have htlb := (compile_ok hconf).tlb
  have htake : conf.numTlbEntries.toNat = u.numTlbEntries := by
    rw [(compile_ok hconf).numTlbEntries, UInt32.toNat_ofNat_of_lt' hnum]
  simp only [installedEntries, fillTlbEntries, htake, List.getElem?_map, List.getElem?_mapIdx,
    List.getElem?_take]
  constructor
  · intro hget
    split_ifs at hget with hlt
    · obtain ⟨te, hte, rfl⟩ : ∃ te, conf.tlb[m]? = some te ∧
          (fillTlbEntry guestid (tlbindex + UInt32.ofNat m) te).toHw guestid = e := by
        simpa [Option.map_eq_some_iff] using hget
      obtain ⟨t, ht, hcompile⟩ := exists_left htlb hte
      exact ⟨hlt, t, te, ht, hcompile, rfl⟩
    · cases hget
  · rintro ⟨hlt, t, te, ht, hcompile, rfl⟩
    obtain ⟨te', hte', hcompile'⟩ := exists_right htlb ht
    obtain rfl := Option.some.inj (hcompile.symm.trans hcompile')
    rw [if_pos hlt, hte']
    rfl

/-- No other entry of a VM matches an address from `base` on when its pair of pages does not meet
those addresses. -/
theorem alone_iff {vm : VmGroup} (hwindows : List.Forall₂ HasWindow u.tlb (windows p vm))
    (hnum : u.numTlbEntries < 2 ^ 32) (guestid tlbindex : UInt32) (n base : Nat) {size : Nat}
    (hsize : 0 < size) :
    (∀ k < size, ∀ m e, (installedEntries guestid tlbindex conf)[m]? = some e →
      e.Matches (base + k) → m = n) ↔
    ∀ m < u.numTlbEntries, m ≠ n → ∀ w ∈ (windows p vm)[m]?,
      base + size ≤ w.start ∨ w.start + w.span ≤ base := by
  have hget := installedEntries_get hconf hnum guestid tlbindex
  constructor
  · intro halone m hm hne w hw
    obtain ⟨t, ht, hw'⟩ := exists_left hwindows hw
    obtain ⟨te, -, hte⟩ := exists_right (compile_ok hconf).tlb ht
    refine apart_of_forall hsize hw'.span_pos fun k hk hinside => hne ?_
    exact halone k hk m _ ((hget m _).mpr ⟨hm, t, te, ht, hte, rfl⟩)
      ((hw'.matches_iff hte _ _ _).mpr hinside)
  · intro hapart k hk m e he hmatches
    obtain ⟨hm, t, te, ht, hte, rfl⟩ := (hget m e).mp he
    obtain ⟨w, hw, hw'⟩ := exists_right hwindows ht
    have hinside := (hw'.matches_iff hte _ _ _).mp hmatches
    by_contra hne
    have haway := hapart m hm hne w hw
    omega

end

/-- An entry of the `i`-th VM translates the addresses of its `j`-th memory map to themselves, alone
among the entries of the VM, exactly when the map fits. -/
theorem map_translates (p : Platform) (board : String → Option UInt32) (vms : List VmGroup)
    (g : GenVms) (confs : List VmConf) (hgen : genConfVms p (some vms) = .ok g)
    (hconfs : VMCONF board g = some confs) (i j : Nat) (vm : VmGroup) (conf : VmConf)
    (mm : MemoryMap) (hvm : vms[i]? = some vm) (hconf : confs[i]? = some conf)
    (hmm : (vm.memoryMaps.getD [])[j]? = some mm) (guestid tlbindex : UInt32) :
    Translates (installedEntries guestid tlbindex conf) (mapIndex vm j) (mapBase mm)
      (mapSize mm).toNat ↔ MapFits p vm j mm := by
  have h := genConfVms_placed hgen
  obtain ⟨u, hu, hcompile⟩ := exists_left (mapM_some hconfs) hconf
  have hemitted := h.texts i vm u hvm hu
  have hwindows := hemitted.windows (h.ramPages vm (List.mem_of_getElem? hvm))
  obtain ⟨t, ht, baseAddr, str, page, dual, hbase, hstr, hpage, hentry⟩ := hemitted.map hmm
  have hmapBase : mapBase mm = baseAddr.toNat % 2 ^ 29 := by
    rw [mapBase, hbase]
    rfl
  have hmapSize : mapSize mm = getValueFromStr MemSizes str := by
    rw [mapSize, hstr]
    rfl
  rw [← hmapSize] at hpage hentry
  obtain ⟨te, -, hte⟩ := exists_right (compile_ok hcompile).tlb ht
  have hsize : 0 < (mapSize mm).toNat := hpage.pos.trans_le hpage.page_le_size
  have hnum : u.numTlbEntries < 2 ^ 32 :=
    hemitted.room.trans_lt (by cases p <;> decide)
  have hget := installedEntries_get hcompile hnum guestid tlbindex
  have halone := alone_iff hcompile hwindows hnum guestid tlbindex (mapIndex vm j)
    (mapBase mm) hsize
  have htranslates := translates_iff hpage hentry hte guestid
    (tlbindex + UInt32.ofNat (mapIndex vm j))
  rw [← hmapBase] at htranslates
  rw [hemitted.numTlbEntries] at hget halone
  constructor
  · intro hmap
    -- the entry that translates the first address is installed, and it is that of the map
    have hentries : ∀ k < (mapSize mm).toNat, mapIndex vm j < numTlbEntries p vm ∧
        (te.installed guestid (tlbindex + UInt32.ofNat (mapIndex vm j))).Matches (mapBase mm + k) ∧
        (te.installed guestid (tlbindex + UInt32.ofNat (mapIndex vm j))).translate
          (mapBase mm + k) = some (mapBase mm + k) := by
      intro k hk
      obtain ⟨e, he, hmatches, htranslate⟩ := (hmap k hk).2
      obtain ⟨hlt, t', te', ht', hte', rfl⟩ := (hget _ e).mp he
      obtain rfl := Option.some.inj (ht.symm.trans ht')
      obtain rfl := Option.some.inj (hte.symm.trans hte')
      exact ⟨hlt, hmatches, htranslate⟩
    obtain ⟨hne, hdvd⟩ := htranslates.mp fun k hk => (hentries k hk).2
    exact ⟨hne, hdvd, (hentries 0 hsize).1, halone.mp fun k hk => (hmap k hk).1⟩
  · intro hfits k hk
    refine ⟨halone.mpr hfits.alone k hk, _,
      (hget _ _).mpr ⟨hfits.installed, t, te, ht, hte, rfl⟩, ?_⟩
    exact htranslates.mpr ⟨hfits.nonzero, hfits.aligned⟩ k hk

theorem map_translates_uart :
    ∃ g confs conf, genConfVms .baikalT1 (some [linux]) = .ok g ∧
      VMCONF (fun _ => none) g = some confs ∧ confs[0]? = some conf ∧
      Translates (installedEntries 1 0 conf) 1 0x1F04A000 4096 := by
  have hbuild : (((genConfVms .baikalT1 (some [linux])).toOption.bind
      (VMCONF fun _ => none)).bind fun confs => confs[0]?).isSome := by
    decide +kernel
  obtain ⟨conf, hconf⟩ := Option.isSome_iff_exists.mp hbuild
  obtain ⟨confs, hconfs, hconf⟩ := Option.bind_eq_some_iff.mp hconf
  obtain ⟨g, hgen, hconfs⟩ := Option.bind_eq_some_iff.mp hconfs
  have hgen := ok_of_toOption hgen
  refine ⟨g, confs, conf, hgen, hconfs, hconf, ?_⟩
  refine (map_translates .baikalT1 (fun _ => none) [linux] g confs hgen hconfs 0 0 linux conf
    { baseAddr := some 0xBF04A000, pageSize := some "MEM_SIZE_4KB" } rfl hconf rfl 1 0).mpr ?_
  constructor <;> decide +kernel

/-- The power management unit of the Linux VM starts with the second page of a pair: its first page
is mapped to the page behind it, and that one to nothing. -/
theorem pmu_not_translated :
    ∃ g confs conf, genConfVms .baikalT1 (some [linux]) = .ok g ∧
      VMCONF (fun _ => none) g = some confs ∧ confs[0]? = some conf ∧
      ¬Translates (installedEntries 1 0 conf) (mapIndex linux 2) 0x1F04D000 8192 := by
  have hbuild : (((genConfVms .baikalT1 (some [linux])).toOption.bind
      (VMCONF fun _ => none)).bind fun confs => confs[0]?).any fun conf =>
        ((installedEntries 1 0 conf)[mapIndex linux 2]?).any fun e =>
          e.translate 0x1F04D000 = some 0x1F04E000 := by
    decide +kernel
  obtain ⟨conf, hconf, hentry⟩ := (Option.any_eq_true _ _).mp hbuild
  obtain ⟨confs, hconfs, hconf⟩ := Option.bind_eq_some_iff.mp hconf
  obtain ⟨g, hgen, hconfs⟩ := Option.bind_eq_some_iff.mp hconfs
  have hgen := ok_of_toOption hgen
  refine ⟨g, confs, conf, hgen, hconfs, hconf, fun htranslates => ?_⟩
  obtain ⟨e, he, htranslate⟩ := (Option.any_eq_true _ _).mp hentry
  obtain ⟨-, e', he', -, htranslate'⟩ := htranslates 0 (by decide)
  obtain rfl := Option.some.inj (he.symm.trans he')
  have hwrong := (of_decide_eq_true htranslate).symm.trans htranslate'
  exact absurd hwrong (by decide)

end PrplHypervisor.Config
