import PrplHypervisor.Config.Placement

/-! Where the images of the VMs are.  The firmware is laid out by the addresses of `vms.info`; the
code of a VM is mapped by an entry of the header.  Both addresses go from VM to VM, but on Baikal-T1
only the one of the RAM is always rounded up to a page. -/

namespace PrplHypervisor.Config

open Arch Kernel Lib.Layout Lib.Words Lib.Partial

/-- The start of the physical region that an entry maps. -/
def TlbText.regionStart (t : TlbText) : Nat := t.entrylo0.toNat * 4096

/-- The entry that maps the code of a VM: the first one with the virtual address of the code. -/
def VmText.codeEntry (p : Platform) (u : VmText) : Option TlbText :=
  u.tlb.find? fun t => t.entryhi = kseg0AddrToPhysical (VMS_CODE_VIRTUAL_BASE_ADDRESS p)

/-- The image of a VM is where its code is mapped from, which is `ram_base` on Baikal-T1. -/
structure ImageMapped (p : Platform) (u : VmText) (info : VmsInfo) : Prop where
  region : ∃ t, u.codeEntry p = some t ∧ t.regionStart = info.addressStart.toNat % 2 ^ 29
  ramBase : p = .baikalT1 → info.addressStart = u.ramBase

/-- The address of the code of `vm` from the variable of `gen_conf_vms`: only an entry for flash
memory rounds it up. -/
def codeStart (vm : VmGroup) (addr : Nat) : Nat :=
  if vm.flashSizeBytes = none then addr else alignUp (pageSizeOf (flashSize vm)) addr

/-- On Baikal-T1, the end of the RAM areas before a VM is rounded up for its RAM as for its code. -/
def ImagesFit (p : Platform) (vms : List VmGroup) : Prop :=
  p = .baikalT1 → ∀ (i : Nat) (vm : VmGroup), vms[i]? = some vm →
    codeStart vm (finish (dataBase p) (areas ramSize (vms.take i))) =
      areaStart ramSize (dataBase p) (vms.take i) vm

variable {p : Platform} {g g' : GenVms} {vm : VmGroup} {size : UInt32} {page : MemSizesDef}
variable {dual : Bool}

/-! ### One virtual machine -/

theorem PageOf.dvd_calculateMemBase (h : PageOf size page dual) (memBase : UInt32) :
    page.value.toNat ∣ (Config.calculateMemBase page memBase).toNat := by
  obtain ⟨k, -, -, hvalue, hmask⟩ := h.pow
  rw [Config.calculateMemBase]
  split_ifs with hdvd
  · rw [toNat_and_not_low hmask, hvalue]
    exact Nat.dvd_mul_left _ _
  · have hmod : (memBase % page.value).toNat = 0 := by rw [not_not.mp hdvd, UInt32.toNat_zero]
    exact Nat.dvd_of_mod_eq_zero (UInt32.toNat_mod _ _ ▸ hmod)

/-- An entry maps a region that starts where its area does. -/
theorem IsEntry.regionStart {t : TlbText} {memBase va : UInt32} {coherency : String}
    (h : IsEntry t size (calculateMemBase page memBase).toNat va.toNat coherency)
    (hpage : PageOf size page dual) :
    t.regionStart = (calculateMemBase page memBase).toNat % 2 ^ 29 := by
  have hdvd := hpage.dvd_page.trans (hpage.dvd_calculateMemBase memBase)
  rw [TlbText.regionStart, h.entrylo0]
  exact Nat.div_mul_cancel ((Nat.dvd_mod_iff (by decide)).mpr hdvd)

/-- The address of the code in `vms.info`. -/
theorem genFlash_start {addr : UInt32} {r : List TlbText × UInt32 × UInt32}
    (h : genFlash p vm addr = .ok r) (hroom : addr.toNat + 2 ^ 24 < 2 ^ 32) :
    r.2.2.toNat = codeStart vm addr.toNat := by
  rcases genFlash_ok h with ⟨hnone, rfl, -⟩ | ⟨page, dual, entry, hsome, hpage, rfl, -⟩
  · rw [genFlash, hnone] at h
    cases h
    rw [codeStart, if_pos hnone]
  · have hle := hpage.page_le
    rw [codeStart, if_neg hsome, hpage.calculateMemBase (by omega), pageSizeOf, hpage.select]

/-- What a VM adds to the header and to `vms.info`, and the addresses for the next one. -/
structure AddsImage (p : Platform) (g : GenVms) (vm : VmGroup) (g' : GenVms) (u : VmText)
    (info : VmsInfo) : Prop where
  vmconf : g'.vmconf = g.vmconf ++ [u]
  vmsInfo : g'.vmsInfo = g.vmsInfo ++ [info]
  region : ∃ t, u.codeEntry p = some t ∧ t.regionStart = match p with
    | .pic32mz => info.addressStart.toNat % 2 ^ 29
    | .baikalT1 => u.ramBase.toNat % 2 ^ 29
  data : ∃ page dual, PageOf (ramSize vm) page dual ∧
    u.ramBase = calculateMemBase page g.vmDataInterAddr
  code : g.vmCodeInterAddr.toNat + 2 ^ 24 < 2 ^ 32 →
    info.addressStart.toNat = codeStart vm g.vmCodeInterAddr.toNat
  next : p = .baikalT1 → g'.vmDataInterAddr = u.ramBase + ramSize vm ∧
    g'.vmCodeInterAddr = info.addressStart + ramSize vm

theorem genConfVm_image (h : genConfVm p g vm = .ok g') : ∃ u info, AddsImage p g vm g' u info := by
  obtain ⟨v, page, dual, hv⟩ := genConfVm_parts h
  obtain rfl := hv.result
  have hramVa : v.ram.entryhi = kseg0AddrToPhysical VMS_RAM_VIRTUAL_BASE_ADDRESS :=
    UInt32.toNat_inj.mp (hv.ram.entryhi.trans (toNat_kseg0AddrToPhysical _).symm)
  refine ⟨_, _, rfl, rfl, ?_, ⟨page, dual, hv.ramPage, rfl⟩, genFlash_start hv.flash, fun hp => ?_⟩
  · cases p with
    | pic32mz =>
      -- the entry of the RAM has another virtual address
      rcases genFlash_ok hv.flash with ⟨-, hne, -⟩ | ⟨page', dual', entry, -, hpage', hflash,
        hentry⟩
      · cases hne
      · have hva : entry.entryhi = kseg0AddrToPhysical (VMS_CODE_VIRTUAL_BASE_ADDRESS .pic32mz) :=
          UInt32.toNat_inj.mp (hentry.entryhi.trans (toNat_kseg0AddrToPhysical _).symm)
        refine ⟨entry, ?_, ?_⟩
        · rw [VmText.codeEntry, VmParts.text, hflash, List.cons_append,
            List.find?_cons_of_neg (by rw [hramVa]; decide), List.cons_append,
            List.find?_cons_of_pos (by rw [hva]; decide)]
        · rw [VmParts.info, hflash]
          exact hentry.regionStart hpage'
    | baikalT1 =>
      refine ⟨v.ram, ?_, hv.ram.regionStart hv.ramPage⟩
      rw [VmText.codeEntry, VmParts.text, List.cons_append,
        List.find?_cons_of_pos (by rw [hramVa]; decide)]
  · subst hp
    exact ⟨rfl, rfl⟩

/-! ### All virtual machines -/

variable {l : List VmGroup}

theorem AddsImage.mapped_pic32mz {u : VmText} {info : VmsInfo}
    (h : AddsImage .pic32mz g vm g' u info) : ImageMapped .pic32mz u info :=
  ⟨h.region, fun hp => by cases hp⟩

theorem AddsImage.mapped_iff {u : VmText} {info : VmsInfo}
    (h : AddsImage .baikalT1 g vm g' u info) :
    ImageMapped .baikalT1 u info ↔ info.addressStart = u.ramBase := by
  constructor
  · exact fun hmapped => hmapped.ramBase rfl
  · exact fun heq => ⟨heq ▸ h.region, fun _ => heq⟩

/-- Where the next address is the same for the code as for the RAM, the two are apart exactly when
they are rounded up to different addresses. -/
theorem AddsImage.start_iff {u : VmText} {info : VmsInfo} (h : AddsImage p g vm g' u info)
    (hplaced : Placed p l g) (hsame : g.vmCodeInterAddr = g.vmDataInterAddr)
    (hroom : (finish (dataBase p) (areas ramSize l)) + 2 ^ 24 < 2 ^ 32) :
    info.addressStart = u.ramBase ↔
      codeStart vm (finish (dataBase p) (areas ramSize l)) =
        areaStart ramSize (dataBase p) l vm := by
  obtain ⟨page, dual, hpage, hram⟩ := h.data
  have hle := hpage.page_le
  have hramBase : u.ramBase.toNat = areaStart ramSize (dataBase p) l vm := by
    rw [hram, hpage.calculateMemBase (by rw [hplaced.data]; omega), hplaced.data, areaStart,
      start, hpage.request]
  have hcode := h.code (by rw [hsame, hplaced.data]; omega)
  rw [hsame, hplaced.data] at hcode
  rw [← UInt32.toNat_inj, hcode, hramBase]

/-- The images of the VMs `l` on Baikal-T1. -/
structure Imaged (l : List VmGroup) (g : GenVms) : Prop where
  placed : Placed .baikalT1 l g
  mapped : List.Forall₂ (ImageMapped .baikalT1) g.vmconf g.vmsInfo ↔ ImagesFit .baikalT1 l
  same : List.Forall₂ (ImageMapped .baikalT1) g.vmconf g.vmsInfo →
    g.vmCodeInterAddr = g.vmDataInterAddr

theorem Imaged.step (h : Imaged l g) (hok : genConfVm .baikalT1 g vm = .ok g') :
    Imaged (l ++ [vm]) g' := by
  obtain ⟨u, info, hadds⟩ := genConfVm_image hok
  have hbound := (h.placed.bound (genConfVm_ok hok)).2.1
  have hroom := h.placed.ramPages.finish_le (dataBase .baikalT1)
  refine ⟨h.placed.step hok, ?_, ?_⟩
  · have hsplit : ImagesFit .baikalT1 (l ++ [vm]) ↔ ImagesFit .baikalT1 l ∧
        codeStart vm (finish (dataBase .baikalT1) (areas ramSize l)) =
          areaStart ramSize (dataBase .baikalT1) l vm := by
      simp only [ImagesFit, forall_prop_of_true]
      exact forall_prefix_concat (Q := fun before vm =>
        codeStart vm (finish (dataBase .baikalT1) (areas ramSize before)) =
          areaStart ramSize (dataBase .baikalT1) before vm) l vm
    rw [hadds.vmconf, hadds.vmsInfo, forall₂_concat_iff, hsplit, ← h.mapped]
    refine and_congr_right fun hall => ?_
    rw [hadds.mapped_iff, hadds.start_iff h.placed (h.same hall) (by omega)]
  · rw [hadds.vmconf, hadds.vmsInfo, forall₂_concat_iff]
    rintro ⟨-, hlast⟩
    obtain ⟨hdata, hcode⟩ := hadds.next rfl
    rw [hdata, hcode, hlast.ramBase rfl]

theorem genConfVms_imaged {vms : List VmGroup} (h : genConfVms .baikalT1 (some vms) = .ok g) :
    Imaged vms g := by
  refine foldlM_ok ?_ (fun _ _ _ _ => Imaged.step) h
  refine ⟨genConfVms_placed (genConfVms_nil _), iff_of_true .nil fun _ i vm hvm => ?_, fun _ => rfl⟩
  simp at hvm

/-- The images of all VMs are where their code is mapped from exactly when they fit. -/
theorem images_agree_iff (p : Platform) (vms : List VmGroup) (g : GenVms)
    (h : genConfVms p (some vms) = .ok g) :
    List.Forall₂ (ImageMapped p) g.vmconf g.vmsInfo ↔ ImagesFit p vms := by
  cases p with
  | pic32mz =>
    refine iff_of_true ?_ fun hp => by cases hp
    refine foldlM_ok (P := fun _ g => List.Forall₂ (ImageMapped .pic32mz) g.vmconf g.vmsInfo)
      .nil ?_ h
    intro _ vm g g' hall hok
    obtain ⟨u, info, hadds⟩ := genConfVm_image hok
    rw [hadds.vmconf, hadds.vmsInfo, forall₂_concat_iff]
    exact ⟨hall, hadds.mapped_pic32mz⟩
  | baikalT1 => exact (genConfVms_imaged h).mapped

/-- A bare-metal VM of Baikal-T1, with its code in RAM. -/
def inRam (appName ramSizeBytes : String) : VmGroup :=
  { bareMetal appName ramSizeBytes "" with flashSizeBytes := none }

theorem images_agree_32KB :
    ∃ g, genConfVms .baikalT1 (some [inRam "ping" "MEM_SIZE_32KB", inRam "pong" "MEM_SIZE_32KB"]) =
      .ok g ∧ List.Forall₂ (ImageMapped .baikalT1) g.vmconf g.vmsInfo := by
  have hbuild : (genConfVms .baikalT1
      (some [inRam "ping" "MEM_SIZE_32KB", inRam "pong" "MEM_SIZE_32KB"])).toOption.isSome := by
    decide +kernel
  obtain ⟨g, hg⟩ := Option.isSome_iff_exists.mp hbuild
  have hgen := ok_of_toOption hg
  refine ⟨g, hgen, (images_agree_iff .baikalT1 _ g hgen).mpr ?_⟩
  rintro - (_ | _ | i) vm hvm
  · cases hvm
    decide +kernel
  · cases hvm
    decide +kernel
  · simp at hvm

/-- The second VM has its RAM at 0x80014000 and its image at 0x80011000. -/
theorem image_not_mapped :
    ∃ g, genConfVms .baikalT1 (some [inRam "ping" "MEM_SIZE_4KB", inRam "pong" "MEM_SIZE_32KB"]) =
      .ok g ∧ ¬List.Forall₂ (ImageMapped .baikalT1) g.vmconf g.vmsInfo := by
  have hbuild : (genConfVms .baikalT1
      (some [inRam "ping" "MEM_SIZE_4KB", inRam "pong" "MEM_SIZE_32KB"])).toOption.any fun g =>
        (g.vmconf.zip g.vmsInfo).any fun x => x.2.addressStart ≠ x.1.ramBase := by
    decide +kernel
  obtain ⟨g, hg, hany⟩ := (Option.any_eq_true _ _).mp hbuild
  obtain ⟨⟨u, info⟩, hmem, hne⟩ := List.any_eq_true.mp hany
  refine ⟨g, ok_of_toOption hg, fun hall => ?_⟩
  exact of_decide_eq_true hne (((List.forall₂_iff_zip.mp hall).2 hmem).ramBase rfl)

end PrplHypervisor.Config
