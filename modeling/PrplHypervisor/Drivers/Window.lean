import PrplHypervisor.Drivers.Confinement

/-! The window of a hypercall: the address that `tlbCreateEntry` returns and what the temporary
entry makes of it.  The pages of an entry are a pair that starts at a multiple of 8 KB.  The entry
has the page of the buffer first, but the address has the page of the VM's base, which the generator
only aligns to the page of its RAM. -/

namespace PrplHypervisor.Drivers

open Arch Kernel Config Lib.Words Lib.Partial

/-- The bytes of the buffer are found from the returned address on. -/
def WindowTranslates (cpu : Cpu) (address baseaddr size tlbindex useCache : UInt32) : Prop :=
  let mapped := tlbCreateEntry cpu address baseaddr size tlbindex useCache
  ∀ i < size.toNat,
    (mapped.2.tlb tlbindex).Matches (mapped.1 + UInt32.ofNat i).toNat ∧
    (mapped.2.tlb tlbindex).translate (mapped.1 + UInt32.ofNat i).toNat =
      some (baseaddr.toNat - 2 ^ 31 + (address.toNat - 2 ^ 31) + i)

/-- The page of the window. -/
def windowPage (baseaddr useCache : UInt32) : UInt32 :=
  baseaddr - if useCache ≠ 0 then 0x80000000 else 0xA0000000

variable (address base size index useCache guestid : UInt32)

theorem toNat_windowPage : (windowPage base useCache).toNat = (base.toNat + 2 ^ 31) % 2 ^ 32 ∨
    (windowPage base useCache).toNat = (base.toNat + 0x60000000) % 2 ^ 32 := by
  unfold windowPage
  split_ifs
  · left
    rw [UInt32.toNat_sub]
    show (2 ^ 32 - 0x80000000 + base.toNat) % 2 ^ 32 = _
    omega
  · right
    rw [UInt32.toNat_sub]
    show (2 ^ 32 - 0xA0000000 + base.toNat) % 2 ^ 32 = _
    omega

/-- The windows with and without cache are a multiple of 8 KB apart. -/
theorem windowPage_mod : (windowPage base useCache).toNat % 8192 = base.toNat % 8192 := by
  rcases toNat_windowPage base useCache with h | h
  · omega
  · omega

theorem created_matches (hbase : 4096 ∣ base.toNat) (a : Nat) :
    ((createdEntry address base size index useCache).toHw guestid).Matches a ↔
      (windowPage base useCache).toNat / 8192 = a / 8192 := by
  have hmod := windowPage_mod base useCache
  have hlt := (windowPage base useCache).toNat_lt
  have hshift : ((windowPage base useCache >>> 12) <<< ENTRYHI_VPN2_SHIFT).toNat =
      (windowPage base useCache).toNat / 4096 * 4096 := by
    have hright : (windowPage base useCache >>> 12).toNat =
        (windowPage base useCache).toNat / 4096 := toNat_shiftRight (k := 12) rfl (by decide)
    rw [toNat_shiftLeft_of_lt (k := 12) rfl (by decide) (by rw [hright]; omega), hright]
    rfl
  have hhi : ((createdEntry address base size index useCache).toHw guestid).entryhi.toNat =
      (windowPage base useCache).toNat / 8192 * 8192 := by
    show ((windowPage base useCache >>> 12) <<< ENTRYHI_VPN2_SHIFT &&& ~~~0x1FFF).toNat = _
    rw [toNat_and_not_low (k := 13) rfl, hshift]
    omega
  rw [HwTlbEntry.Matches, (created_paged address base size index useCache).pageSize, hhi,
    Nat.mul_div_cancel _ (by decide)]

/-- What the temporary entry makes of the addresses in each page of its pair. -/
theorem created_translate (a : Nat) :
    ((createdEntry address base size index useCache).toHw guestid).translate a =
      if a / 4096 % 2 = 0 then
        some ((base.toNat + address.toNat) % 2 ^ 32 / 4096 * 4096 + a % 4096)
      else if Crosses address size then
        some ((base.toNat + (address + size).toNat) % 2 ^ 32 / 4096 * 4096 + a % 4096)
      else none := by
  have hpaged := created_paged address base size index useCache
  have hvalid0 := loValid_entryLo (Nat.lt_trans hpaged.entrylo0 (by decide)) hpaged.lo0flags
    hpaged.coherency
  have hvalid1 := loValid_entryLo (Nat.lt_trans hpaged.entrylo1 (by decide)) hpaged.lo1flags
    hpaged.coherency
  unfold HwTlbEntry.translate HwTlbEntry.half
  rw [hpaged.pageSize]
  by_cases hhalf : a / 4096 % 2 = 0
  · have hflags : loValid (createdEntry address base size index useCache).lo0flags := by
      show loValid (ENTRYLO_V ||| ENTRYLO_D)
      decide
    rw [if_pos hhalf, if_pos hhalf]
    refine (if_pos (hvalid0.mpr hflags)).trans ?_
    have hpage := hpaged.pageBase guestid hpaged.entrylo0 hpaged.lo0flags
    rw [toNat_created_entrylo0, Nat.mul_div_cancel _ (by decide)] at hpage
    exact congrArg (fun x => some (x + a % 4096)) hpage
  · rw [if_neg hhalf, if_neg hhalf]
    by_cases hcrosses : Crosses address size
    · have hflags : loValid (createdEntry address base size index useCache).lo1flags := by
        show loValid (if Crosses address size then ENTRYLO_V ||| ENTRYLO_D else 0)
        rw [if_pos hcrosses]
        decide
      rw [if_pos hcrosses]
      refine (if_pos (hvalid1.mpr hflags)).trans ?_
      have hpage := hpaged.pageBase guestid hpaged.entrylo1 hpaged.lo1flags
      rw [toNat_created_entrylo1 address base size index useCache hcrosses,
        Nat.mul_div_cancel _ (by decide)] at hpage
      exact congrArg (fun x => some (x + a % 4096)) hpage
    · have hflags : ¬loValid (createdEntry address base size index useCache).lo1flags := by
        show ¬loValid (if Crosses address size then ENTRYLO_V ||| ENTRYLO_D else 0)
        rw [if_neg hcrosses]
        decide
      rw [if_neg hcrosses]
      exact if_neg fun h => hflags (hvalid1.mp h)

/-- The returned address has the page of the window and the offset of the buffer in its page. -/
theorem toNat_mapped (cpu : Cpu) (hbase : 4096 ∣ base.toNat) :
    (tlbCreateEntry cpu address base size index useCache).1.toNat =
      (windowPage base useCache).toNat + address.toNat % 4096 := by
  have hmod := windowPage_mod base useCache
  have hlt := (windowPage base useCache).toNat_lt
  have hoffset : (address &&& 0xFFF).toNat = address.toNat % 4096 := toNat_and_low (k := 12) rfl
  have hsum : (tlbCreateEntry cpu address base size index useCache).1 =
      windowPage base useCache + (address &&& 0xFFF) := by
    show (address &&& 0xFFF) + base - (if useCache ≠ 0 then 0x80000000 else 0xA0000000) = _
    rw [windowPage, UInt32.add_comm, UInt32.sub_eq_add_neg, UInt32.sub_eq_add_neg,
      UInt32.add_assoc, UInt32.add_assoc, UInt32.add_comm (address &&& 0xFFF)]
  rw [hsum, UInt32.toNat_add, hoffset]
  omega

/-- A byte of the window. -/
theorem toNat_mapped_add (cpu : Cpu) (hbase : 4096 ∣ base.toNat) (i : Nat) :
    ((tlbCreateEntry cpu address base size index useCache).1 + UInt32.ofNat i).toNat =
      ((windowPage base useCache).toNat + address.toNat % 4096 + i) % 2 ^ 32 := by
  rw [UInt32.toNat_add, toNat_mapped address base size index useCache cpu hbase,
    UInt32.toNat_ofNat', Nat.add_mod_mod]

/-- The temporary entry is in the TLB. -/
theorem created_tlb (cpu : Cpu) : ∃ guestid,
    (tlbCreateEntry cpu address base size index useCache).2.tlb index =
      (createdEntry address base size index useCache).toHw guestid :=
  ⟨_, Function.update_self ..⟩

theorem crosses_iff (hsum : address.toNat + size.toNat < 2 ^ 32) :
    Crosses address size ↔ address.toNat / 4096 < (address.toNat + size.toNat) / 4096 := by
  rw [Crosses, UInt32.lt_iff_toNat_lt, UInt32.toNat_div, UInt32.toNat_div, UInt32.toNat_add,
    Nat.mod_eq_of_lt hsum]
  rfl

variable {address base size} {ram : Nat}

/-- The end of a buffer that begins in the RAM does not wrap. -/
theorem toNat_bufferEnd (haddress : InRam ram address) (hram : ram ≤ 2 ^ 25)
    (hsize : size.toNat ≤ 4096) : (address + size).toNat = address.toNat + size.toNat := by
  obtain ⟨hfirst, hlast⟩ := haddress
  rw [UInt32.toNat_add]
  omega

/-- The base of the VM is the first page of a pair: both pages of the buffer are where the entry has
them. -/
theorem windowTranslates_of_even (cpu : Cpu) (hlow : 2 ^ 31 ≤ base.toNat)
    (hhigh : base.toNat + ram ≤ 2 ^ 32) (hram : ram ≤ 2 ^ 25) (hbase : 8192 ∣ base.toNat)
    (haddress : InRam ram address) (hsize : size.toNat ≤ 4096) :
    WindowTranslates cpu address base size index useCache := by
  intro i hi
  have hpage : 4096 ∣ base.toNat := Dvd.dvd.trans (by decide) hbase
  have hmod := windowPage_mod base useCache
  have hlt := (windowPage base useCache).toNat_lt
  have hsum := toNat_bufferEnd haddress hram hsize
  obtain ⟨hfirst, hlast⟩ := haddress
  obtain ⟨guestid, hentry⟩ := created_tlb address base size index useCache cpu
  rw [hentry, toNat_mapped_add address base size index useCache cpu hpage]
  refine ⟨(created_matches address base size index useCache guestid hpage _).mpr (by omega), ?_⟩
  rw [created_translate, hsum]
  by_cases hhalf : address.toNat % 4096 + i < 4096
  · rw [if_pos (by omega)]
    apply congrArg some
    omega
  · have hcrosses : Crosses address size :=
      (crosses_iff address size (by omega)).mpr (by omega)
    rw [if_neg (by omega), if_pos hcrosses]
    apply congrArg some
    omega

/-- The base of the VM is the second page of a pair: the first byte is looked up in the page that
the entry has for the end of the buffer. -/
theorem not_windowTranslates_of_odd (cpu : Cpu) (hlow : 2 ^ 31 ≤ base.toNat) (hram : ram ≤ 2 ^ 25)
    (hpage : 4096 ∣ base.toNat) (hodd : ¬8192 ∣ base.toNat) (haddress : InRam ram address)
    (hpos : 0 < size.toNat) (hsize : size.toNat ≤ 4096) :
    ¬WindowTranslates cpu address base size index useCache := by
  intro hwindow
  have hmod := windowPage_mod base useCache
  have hlt := (windowPage base useCache).toNat_lt
  have hsum := toNat_bufferEnd haddress hram hsize
  obtain ⟨hfirst, hlast⟩ := haddress
  obtain ⟨guestid, hentry⟩ := created_tlb address base size index useCache cpu
  obtain ⟨-, htranslate⟩ := hwindow 0 hpos
  rw [hentry, toNat_mapped_add address base size index useCache cpu hpage, created_translate, hsum,
    if_neg (by omega)] at htranslate
  by_cases hcrosses : Crosses address size
  · rw [if_pos hcrosses] at htranslate
    have hbyte := Option.some.inj htranslate
    have hend := (crosses_iff address size (by omega)).mp hcrosses
    omega
  · rw [if_neg hcrosses] at htranslate
    cases htranslate

/-- The window of a VM shows the buffers in its RAM exactly when its base is a multiple of 8 KB. -/
theorem windowTranslates_iff (p : Platform) (vms : List VmGroup) (g : GenVms) (i : Nat)
    (vm : VmGroup) (u : VmText) (hgen : genConfVms p (some vms) = .ok g) (hvm : vms[i]? = some vm)
    (hu : g.vmconf[i]? = some u) (cpu : Cpu) (address size index useCache : UInt32)
    (haddress : InRam (ramSize vm).toNat address) (hpos : 1 ≤ size.toNat)
    (hsize : size.toNat ≤ 4096) :
    WindowTranslates cpu address u.ramBase size index useCache ↔ 8192 ∣ u.ramBase.toNat := by
  have h := genConfVms_placed hgen
  obtain ⟨hlow, hhigh, hbase, -⟩ := ram_region h hvm hu
  obtain ⟨page, dual, hpage⟩ := h.ramPages vm (List.mem_of_getElem? hvm)
  constructor
  · intro hwindow
    by_contra hodd
    exact not_windowTranslates_of_odd index useCache cpu hlow hpage.size_le hbase hodd haddress hpos
      hsize
      hwindow
  · exact fun heven =>
      windowTranslates_of_even index useCache cpu hlow hhigh hpage.size_le heven haddress hsize

theorem windowTranslates_pingPong :
    ∃ g u, genConfVms .pic32mz (some pingPongGroups) = .ok g ∧ g.vmconf[0]? = some u ∧
      WindowTranslates .cleared 0x80000FE0 u.ramBase 64 MAPPED_INDEX NONCACHEABLE := by
  have hbuild : ((genConfVms .pic32mz (some pingPongGroups)).toOption.bind (·.vmconf[0]?)).any
      fun u => 8192 ∣ u.ramBase.toNat := by
    decide +kernel
  obtain ⟨u, hu, heven⟩ := (Option.any_eq_true _ _).mp hbuild
  obtain ⟨g, hgen, hu⟩ := Option.bind_eq_some_iff.mp hu
  have hgen := ok_of_toOption hgen
  refine ⟨g, u, hgen, hu, ?_⟩
  exact (windowTranslates_iff .pic32mz pingPongGroups g 0
    (bareMetal "ping" "MEM_SIZE_32KB" "MEM_SIZE_32KB") u hgen rfl hu .cleared 0x80000FE0 64
    MAPPED_INDEX NONCACHEABLE (by decide +kernel) (by decide) (by decide)).mpr
      (of_decide_eq_true heven)

/-- Two VMs with a RAM of one page. -/
def smallGroups : List VmGroup :=
  [bareMetal "ping" "MEM_SIZE_4KB" "MEM_SIZE_32KB", bareMetal "pong" "MEM_SIZE_4KB" "MEM_SIZE_32KB"]

/-- The base of the second VM is 0x80009000: the address that it is given for the first 64 bytes of
its RAM is in the invalid half of the entry. -/
theorem odd_window :
    ∃ g vm u, genConfVms .pic32mz (some smallGroups) = .ok g ∧ smallGroups[1]? = some vm ∧
      g.vmconf[1]? = some u ∧ InRam (ramSize vm).toNat 0x80000000 ∧
      ¬WindowTranslates .cleared 0x80000000 u.ramBase 64 MAPPED_INDEX CACHEABLE := by
  have hbuild : ((genConfVms .pic32mz (some smallGroups)).toOption.bind (·.vmconf[1]?)).any
      fun u => u.ramBase = 0x80009000 := by
    decide +kernel
  obtain ⟨u, hu, hbase⟩ := (Option.any_eq_true _ _).mp hbuild
  obtain ⟨g, hgen, hu⟩ := Option.bind_eq_some_iff.mp hu
  refine ⟨g, _, u, ok_of_toOption hgen, rfl, hu, by decide +kernel, fun hwindow => ?_⟩
  rw [of_decide_eq_true hbase] at hwindow
  exact absurd (hwindow 0 (by decide)).2 (by decide)

end PrplHypervisor.Drivers
