import PrplHypervisor.Config.Isolation
import PrplHypervisor.Drivers.GuestBuffer

/-! Which buffers a guest can make the hypervisor map.  The temporary entry maps the page of the
buffer's address and, when the buffer ends in another page, that of its end.  The address is not
checked, so the pages are those of the VM only when both are addresses of its RAM. -/

namespace PrplHypervisor.Drivers

open Arch Kernel Config Lib.Layout Lib.Words Lib.Partial

/-- The physical address `pa` is in the RAM of `ram` bytes of a VM with the kseg0 address `base`. -/
def InRegion (base ram pa : Nat) : Prop := base ≤ pa + 2 ^ 31 ∧ pa + 2 ^ 31 < base + ram

instance (base ram pa : Nat) : Decidable (InRegion base ram pa) :=
  inferInstanceAs (Decidable (_ ∧ _))

/-- The guest address `a` is in a RAM of `ram` bytes. -/
def InRam (ram : Nat) (a : UInt32) : Prop := 2 ^ 31 ≤ a.toNat ∧ a.toNat < 2 ^ 31 + ram

instance (ram : Nat) (a : UInt32) : Decidable (InRam ram a) := inferInstanceAs (Decidable (_ ∧ _))

/-- The end of the buffer is in a page behind that of its start. -/
def Crosses (address size : UInt32) : Prop := address / 0x1000 < (address + size) / 0x1000

instance (address size : UInt32) : Decidable (Crosses address size) :=
  inferInstanceAs (Decidable (_ < _))

/-- The buffer starts in the RAM, and ends there when its end is in a page of its own. -/
def BufferFits (ram : Nat) (address size : UInt32) : Prop :=
  InRam ram address ∧ (Crosses address size → InRam ram (address + size))

instance (ram : Nat) (address size : UInt32) : Decidable (BufferFits ram address size) :=
  inferInstanceAs (Decidable (_ ∧ (_ → _)))

/-! ### The pages of the temporary entry -/

variable (address base size index useCache guestid : UInt32)

theorem toNat_created_entrylo0 : (createdEntry address base size index useCache).entrylo0.toNat =
    (base.toNat + address.toNat) % 2 ^ 32 / 4096 := by
  have hsum : (base - 0x80000000) + (address - 0x80000000) = base + address := by
    rw [← UInt32.toNat_inj]
    simp only [UInt32.toNat_add, UInt32.toNat_sub, UInt32.reduceToNat]
    omega
  show (((base - 0x80000000) + (address - 0x80000000)) >>> 12).toNat = _
  rw [hsum, toNat_shiftRight (k := 12) rfl (by decide), UInt32.toNat_add]
  rfl

theorem toNat_created_entrylo1 (hcrosses : Crosses address size) :
    (createdEntry address base size index useCache).entrylo1.toNat =
      (base.toNat + (address + size).toNat) % 2 ^ 32 / 4096 := by
  have hsum : (base - 0x80000000) + address + size - 0x80000000 = base + (address + size) := by
    rw [← UInt32.toNat_inj]
    simp only [UInt32.toNat_add, UInt32.toNat_sub, UInt32.reduceToNat]
    omega
  have hlo : (createdEntry address base size index useCache).entrylo1 =
      ((base - 0x80000000) + address + size - 0x80000000) >>> 12 := if_pos hcrosses
  rw [hlo, hsum, toNat_shiftRight (k := 12) rfl (by decide), UInt32.toNat_add]
  rfl

theorem created_paged : (createdEntry address base size index useCache).Paged 4096 := by
  have hlo1 : (createdEntry address base size index useCache).entrylo1.toNat < 2 ^ 24 := by
    by_cases hcrosses : Crosses address size
    · rw [toNat_created_entrylo1 address base size index useCache hcrosses]
      omega
    · have hzero : (createdEntry address base size index useCache).entrylo1 = 0 := if_neg hcrosses
      rw [hzero]
      decide
  constructor
  · rw [toNat_created_entrylo0]
    omega
  · show (ENTRYLO_V ||| ENTRYLO_D).toNat < 8
    decide
  · exact hlo1
  · show (if Crosses address size then ENTRYLO_V ||| ENTRYLO_D else 0).toNat < 8
    split_ifs <;> decide
  · show (if useCache ≠ 0 then (4 : UInt32) else 2).toNat < 8
    split_ifs <;> decide
  · show PAGEMASK_4KB.toNat < 2 ^ 16
    decide
  · show 4096 = (PAGEMASK_4KB.toNat + 1) * 4096
    decide

/-- A physical address in the 4 KB page of `x`. -/
def InPage (x pa : Nat) : Prop := x / 4096 * 4096 ≤ pa ∧ pa < x / 4096 * 4096 + 4096

theorem inFrame_iff {pfn : UInt32} {x : Nat} (h : pfn.toNat = x / 4096) (pa : Nat) :
    InFrame 4096 pfn pa ↔ InPage x pa := by
  rw [InFrame, InPage, h, Nat.mul_div_cancel _ (by decide)]

/-- The pages that the temporary entry makes valid. -/
theorem created_maps_iff (pa : Nat) :
    ((createdEntry address base size index useCache).toHw guestid).Maps pa ↔
      InPage ((base.toNat + address.toNat) % 2 ^ 32) pa ∨ Crosses address size ∧
        InPage ((base.toNat + (address + size).toNat) % 2 ^ 32) pa := by
  have hlo0 := toNat_created_entrylo0 address base size index useCache
  have hvalid0 : loValid (createdEntry address base size index useCache).lo0flags := by
    show loValid (ENTRYLO_V ||| ENTRYLO_D)
    decide
  rw [(created_paged address base size index useCache).maps_iff, inFrame_iff hlo0]
  by_cases hcrosses : Crosses address size
  · have hlo1 := toNat_created_entrylo1 address base size index useCache hcrosses
    have hvalid1 : loValid (createdEntry address base size index useCache).lo1flags := by
      show loValid (if Crosses address size then ENTRYLO_V ||| ENTRYLO_D else 0)
      rw [if_pos hcrosses]
      decide
    rw [inFrame_iff hlo1]
    simp only [hvalid0, hvalid1, hcrosses, true_and]
  · have hvalid1 : ¬loValid (createdEntry address base size index useCache).lo1flags := by
      show ¬loValid (if Crosses address size then ENTRYLO_V ||| ENTRYLO_D else 0)
      rw [if_neg hcrosses]
      decide
    simp only [hvalid0, hvalid1, hcrosses, true_and, false_and, or_false]

/-- A page is in the region of a VM when the guest address behind it is in its RAM. -/
theorem page_inRegion_iff {base ram : Nat} (hlow : 2 ^ 31 ≤ base) (hhigh : base + ram ≤ 2 ^ 32)
    (hbase : 4096 ∣ base) (hram : 4096 ∣ ram) (a : UInt32) :
    (∀ pa, InPage ((base + a.toNat) % 2 ^ 32) pa → InRegion base ram pa) ↔ InRam ram a := by
  have ha := a.toNat_lt
  constructor
  · intro hall
    have hfirst := hall ((base + a.toNat) % 2 ^ 32 / 4096 * 4096)
      ⟨le_refl _, Nat.lt_add_of_pos_right (by decide)⟩
    simp only [InRegion, InRam] at hfirst ⊢
    omega
  · intro hin pa hpa
    simp only [InPage, InRegion, InRam] at hin hpa ⊢
    omega

theorem created_confined_iff {base : UInt32} {ram : Nat} (hlow : 2 ^ 31 ≤ base.toNat)
    (hhigh : base.toNat + ram ≤ 2 ^ 32) (hbase : 4096 ∣ base.toNat) (hram : 4096 ∣ ram) :
    (∀ pa, ((createdEntry address base size index useCache).toHw guestid).Maps pa →
      InRegion base.toNat ram pa) ↔ BufferFits ram address size := by
  have hpage := page_inRegion_iff hlow hhigh hbase hram
  rw [BufferFits, ← hpage address, ← hpage (address + size)]
  simp only [created_maps_iff]
  constructor
  · exact fun hall => ⟨fun pa hpa => hall pa (Or.inl hpa),
      fun hcrosses pa hpa => hall pa (Or.inr ⟨hcrosses, hpa⟩)⟩
  · rintro ⟨hfirst, hsecond⟩ pa (hpa | ⟨hcrosses, hpa⟩)
    · exact hfirst pa hpa
    · exact hsecond hcrosses pa hpa

/-! ### The hypercalls -/

theorem ram_region {p : Platform} {vms : List VmGroup} {g : GenVms} (h : Placed p vms g) {i : Nat}
    {vm : VmGroup} {u : VmText} (hvm : vms[i]? = some vm) (hu : g.vmconf[i]? = some u) :
    2 ^ 31 ≤ u.ramBase.toNat ∧ u.ramBase.toNat + (ramSize vm).toNat ≤ 2 ^ 32 ∧
      4096 ∣ u.ramBase.toNat ∧ 4096 ∣ (ramSize vm).toNat := by
  obtain ⟨page, dual, hpage⟩ := h.ramPages vm (List.mem_of_getElem? hvm)
  have hlow := le_areaStart h.ramPages (dataBase p) hvm
  have hend := area_end h.ramPages (dataBase p) hvm
  have hlength := h.length_le.1
  have hbase : alignUp (2 ^ 24) (dataBase p) = 0x81000000 ∧ 2 ^ 31 ≤ dataBase p := by
    cases p <;> decide
  rw [(h.texts i vm u hvm hu).ramBase]
  refine ⟨by omega, by omega, hpage.dvd_page.trans (areaStart_dvd hpage _ _), ?_⟩
  rw [hpage.bytes]
  split_ifs
  · exact hpage.dvd_page.trans (Nat.dvd_mul_left _ _)
  · exact hpage.dvd_page

/-- A hypercall of a VM that reaches the mapping maps pages of the VM's RAM alone exactly when its
buffer fits in the RAM; one that does not maps nothing. -/
theorem hypercall_confined (p : Platform) (board : String → Option UInt32) (vms : List VmGroup)
    (g : GenVms) (confs : List VmConf) (power : Power) (i : Nat) (vm : VmGroup)
    (hgen : genConfVms p (some vms) = .ok g) (hconfs : VMCONF board g = some confs)
    (hvm : vms[i]? = some vm) (hv hv' : Hv) (caller : VcpuPtr) (call : MappingCall)
    (hexec : hv.executing = some caller)
    (hcaller : (hv.vcpus caller).vm = ((initializeMachines p power confs).vcpus i).vm)
    (hcall : call.handler p hv = .ok hv') :
    (¬call.ReachesMap p hv → hv'.cpu.tlb = hv.cpu.tlb) ∧
    (call.ReachesMap p hv →
      ((∀ pa, (hv'.cpu.tlb MAPPED_INDEX).Maps pa →
          InRegion (hv.vcpus caller).vm.baseAddr.toNat (ramSize vm).toNat pa) ↔
        BufferFits (ramSize vm).toNat (call.buffer p hv caller).1
          (call.buffer p hv caller).2)) := by
  have h := genConfVms_placed hgen
  have hforall := mapM_some hconfs
  obtain ⟨hlt, -⟩ := List.getElem?_eq_some_iff.mp hvm
  obtain ⟨u, hu⟩ : ∃ u, g.vmconf[i]? = some u :=
    ⟨_, List.getElem?_eq_getElem (by rw [h.length]; exact hlt)⟩
  obtain ⟨conf, hconf, hcompile⟩ := exists_right hforall hu
  obtain ⟨hlow, hhigh, hbase, hram⟩ := ram_region h hvm hu
  have haddr : (hv.vcpus caller).vm.baseAddr = u.ramBase := by
    obtain ⟨hltc, hget⟩ := List.getElem?_eq_some_iff.mp hconf
    have hfresh := (initializeMachines_booted p power confs).vcpus i hltc
    rw [hcaller, ← (compile_ok hcompile).ramBase, ← hget]
    exact hfresh.baseAddr
  refine ⟨call.refused hexec hcall, fun hreach => ?_⟩
  obtain ⟨guestid, hentry⟩ := call.maps hexec hcall hreach
  rw [hentry, haddr]
  exact created_confined_iff _ _ _ _ _ hlow hhigh hbase hram

/-- The VM `i` of `confs` makes a hypercall with the arguments `a0` and `a1`. -/
def calling (confs : List VmConf) (i : VcpuPtr) (a0 a1 : UInt32) : Hv :=
  let hv := initializeMachines .pic32mz .cleared confs
  let cpu := moveToPreviousGuestGPR .pic32mz hv.cpu REG_A0 a0
  { hv with executing := some i, cpu := moveToPreviousGuestGPR .pic32mz cpu REG_A1 a1 }

theorem hypercall_confined_pingPong :
    ∃ g confs hv', genConfVms .pic32mz (some pingPongGroups) = .ok g ∧
      VMCONF (fun _ => none) g = some confs ∧
      MappingCall.sendFrame.handler .pic32mz (calling confs 0 0x80000FE0 64) = .ok hv' ∧
      ∀ pa, (hv'.cpu.tlb MAPPED_INDEX).Maps pa →
        InRegion (hv'.vcpus 0).vm.baseAddr.toNat 32768 pa := by
  have hbuild : ((genConfVms .pic32mz (some pingPongGroups)).toOption.bind
      (VMCONF fun _ => none)).any fun confs =>
        let cpu := (calling confs 0 0x80000FE0 64).cpu
        BufferFits 32768 (moveFromPreviousGuestGPR .pic32mz cpu REG_A0)
          (moveFromPreviousGuestGPR .pic32mz cpu REG_A1) := by
    decide +kernel
  obtain ⟨confs, hconfs, hfits⟩ := (Option.any_eq_true _ _).mp hbuild
  obtain ⟨g, hgen, hconfs⟩ := Option.bind_eq_some_iff.mp hconfs
  have hgen := ok_of_toOption hgen
  refine ⟨g, confs, _, hgen, hconfs, rfl, ?_⟩
  exact ((hypercall_confined .pic32mz (fun _ => none) pingPongGroups g confs .cleared 0
    (bareMetal "ping" "MEM_SIZE_32KB" "MEM_SIZE_32KB") hgen hconfs rfl
    (calling confs 0 0x80000FE0 64) _ 0 .sendFrame rfl rfl rfl).2 trivial).mpr
      (of_decide_eq_true hfits)

/-- Ping sends a frame from the address behind its RAM: the first page of the RAM of pong is
mapped. -/
theorem next_ram_mapped :
    ∃ g confs hv', genConfVms .pic32mz (some pingPongGroups) = .ok g ∧
      VMCONF (fun _ => none) g = some confs ∧
      MappingCall.sendFrame.handler .pic32mz (calling confs 0 0x80008000 64) = .ok hv' ∧
      (hv'.cpu.tlb MAPPED_INDEX).Maps 0x10000 ∧
      ¬InRegion (hv'.vcpus 0).vm.baseAddr.toNat 32768 0x10000 ∧
      InRegion (hv'.vcpus 1).vm.baseAddr.toNat 32768 0x10000 := by
  have hbuild : ((genConfVms .pic32mz (some pingPongGroups)).toOption.bind
      (VMCONF fun _ => none)).any fun confs =>
        (MappingCall.sendFrame.handler .pic32mz (calling confs 0 0x80008000 64)).toOption.any
          fun hv' => loValid (hv'.cpu.tlb MAPPED_INDEX).entrylo0 ∧
          (hv'.cpu.tlb MAPPED_INDEX).pageBase (hv'.cpu.tlb MAPPED_INDEX).entrylo0 = 0x10000 ∧
          (hv'.cpu.tlb MAPPED_INDEX).pageSize = 4096 ∧
          (hv'.vcpus 0).vm.baseAddr = 0x80008000 ∧ (hv'.vcpus 1).vm.baseAddr = 0x80010000 := by
    decide +kernel
  obtain ⟨confs, hconfs, hcall⟩ := (Option.any_eq_true _ _).mp hbuild
  obtain ⟨g, hgen, hconfs⟩ := Option.bind_eq_some_iff.mp hconfs
  obtain ⟨hv', hcall, hentry⟩ := (Option.any_eq_true _ _).mp hcall
  obtain ⟨hvalid, hbase, hsize, hping, hpong⟩ := of_decide_eq_true hentry
  refine ⟨g, confs, hv', ok_of_toOption hgen, hconfs, ok_of_toOption hcall,
    ⟨_, Or.inl rfl, hvalid, ?_, ?_⟩, ?_, ?_⟩
  · rw [hbase]
  · rw [hbase, hsize]
    decide
  · rw [hping]
    decide
  · rw [hpong]
    decide

end PrplHypervisor.Drivers
