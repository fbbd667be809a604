import PrplHypervisor.Drivers.InterVm
import PrplHypervisor.Lib.Partial

/-! The hypercalls for virtualized I/O (`drivers/virtual-io.c`).  A guest may read and write the
registers of the devices that the configuration maps to its VM.  The size of a device is the
distance of its last register from its first one, as in the header of the processor, so that the
range has four bytes more. -/

namespace PrplHypervisor.Drivers

open Arch Kernel Lib.Partial

def HCALL_ADDRESS_NOT_ALLOWED : UInt32 := -4

/-- An access to a `volatile` word. -/
inductive Access
  | load (address : UInt32)
  | store (address value : UInt32)
  deriving DecidableEq, Repr

/-- `virtual_io_init`, behind the registration of the hypercalls: the array `vmconf_p` of
`nvmachines` pointers. -/
def virtualIoInit (hv : Hv) (nvmachines : Nat) : Except Fault (List VmConf) :=
  (List.range nvmachines).mapM fun i => do
    match ← getVcpuFromId hv (UInt32.ofNat (i + 1)) with
    | none => throw .nullPointer
    | some vcpu => return (hv.vcpus vcpu).vm.vmconf

/-- The check of an address against one device. -/
def Allows (device : DeviceMapping) (memoryAddr : UInt32) : Prop :=
  device.startAddr ≤ memoryAddr ∧ device.startAddr + device.size ≥ memoryAddr

instance (device : DeviceMapping) (memoryAddr : UInt32) : Decidable (Allows device memoryAddr) :=
  inferInstanceAs (Decidable (_ ∧ _))

/-- The configuration of the VM in execution.  The index is `id - 1` as a signed number, so that the
array has no place for the id 0. -/
def callerConf (vmconfP : List VmConf) (hv : Hv) : Except Fault VmConf :=
  match hv.executing with
  | none => .error .nullPointer
  | some v =>
    match vmconfP[((hv.vcpus v).id - 1).toNat]? with
    | none => .error .outOfBounds
    | some conf => .ok conf

/-- `read_address`, with the accesses that it makes.  `word` is what a load of an address
answers. -/
def readAddress (p : Platform) (vmconfP : List VmConf) (word : UInt32 → UInt32) (hv : Hv) :
    Except Fault (List Access × Hv) := do
  let memoryAddr := moveFromPreviousGuestGPR p hv.cpu REG_A0
  let conf ← callerConf vmconfP hv
  if ∃ device ∈ conf.devices, Allows device memoryAddr then
    return ([.load memoryAddr], setGuestGPR p hv REG_V0 (word memoryAddr))
  -- the guest is not told
  return ([], hv)

def writeAddress (p : Platform) (vmconfP : List VmConf) (hv : Hv) :
    Except Fault (List Access × Hv) := do
  let memoryAddr := moveFromPreviousGuestGPR p hv.cpu REG_A0
  let value := moveFromPreviousGuestGPR p hv.cpu REG_A1
  let conf ← callerConf vmconfP hv
  if ∃ device ∈ conf.devices, Allows device memoryAddr then
    return ([.store memoryAddr value], setGuestGPR p hv REG_V0 0)
  return ([], setGuestGPR p hv REG_V0 HCALL_ADDRESS_NOT_ALLOWED)

/-! ### Decisions -/

/-- Both hypercalls make their access. -/
def Grants (p : Platform) (vmconfP : List VmConf) (hv : Hv) : Prop :=
  let memoryAddr := moveFromPreviousGuestGPR p hv.cpu REG_A0
  (∀ word, readAddress p vmconfP word hv =
    .ok ([.load memoryAddr], setGuestGPR p hv REG_V0 (word memoryAddr))) ∧
  writeAddress p vmconfP hv =
    .ok ([.store memoryAddr (moveFromPreviousGuestGPR p hv.cpu REG_A1)], setGuestGPR p hv REG_V0 0)

/-- Neither hypercall makes an access. -/
def Refuses (p : Platform) (vmconfP : List VmConf) (hv : Hv) : Prop :=
  (∀ word, readAddress p vmconfP word hv = .ok ([], hv)) ∧
  writeAddress p vmconfP hv = .ok ([], setGuestGPR p hv REG_V0 HCALL_ADDRESS_NOT_ALLOWED)

/-- All four bytes at the address are in the `bytes` bytes from `start` on. -/
def WordIn (start bytes : Nat) (address : UInt32) : Prop :=
  start ≤ address.toNat ∧ address.toNat + 4 ≤ start + bytes

instance (start bytes : Nat) (address : UInt32) : Decidable (WordIn start bytes address) :=
  inferInstanceAs (Decidable (_ ∧ _))

/-- The last register starts below 2^32. -/
def RegistersFit (device : DeviceMapping) : Prop :=
  device.startAddr.toNat + device.size.toNat < 2 ^ 32

instance (device : DeviceMapping) : Decidable (RegistersFit device) :=
  inferInstanceAs (Decidable (_ < _))

theorem RegistersFit.allows_iff {device : DeviceMapping} (h : RegistersFit device)
    (memoryAddr : UInt32) : Allows device memoryAddr ↔
      WordIn device.startAddr.toNat (device.size.toNat + 4) memoryAddr := by
  have hend : (device.startAddr + device.size).toNat =
      device.startAddr.toNat + device.size.toNat := by
    rw [UInt32.toNat_add, Nat.mod_eq_of_lt h]
  rw [Allows, UInt32.le_iff_toNat_le, ge_iff_le, UInt32.le_iff_toNat_le, hend, WordIn]
  omega

theorem grants_or_refuses {p : Platform} {vmconfP : List VmConf} {hv : Hv} {conf : VmConf}
    (hconf : callerConf vmconfP hv = .ok conf) :
    ((∃ device ∈ conf.devices,
        Allows device (moveFromPreviousGuestGPR p hv.cpu REG_A0)) →
      Grants p vmconfP hv) ∧
    ((¬∃ device ∈ conf.devices,
        Allows device (moveFromPreviousGuestGPR p hv.cpu REG_A0)) →
      Refuses p vmconfP hv) := by
  constructor
  · intro hallows
    refine ⟨fun word => ?_, ?_⟩
    · simp only [readAddress, hconf, bind, Except.bind, if_pos hallows]
      rfl
    · simp only [writeAddress, hconf, bind, Except.bind, if_pos hallows]
      rfl
  · intro hnot
    refine ⟨fun word => ?_, ?_⟩
    · simp only [readAddress, hconf, bind, Except.bind, if_neg hnot]
      rfl
    · simp only [writeAddress, hconf, bind, Except.bind, if_neg hnot]
      rfl

/-! ### The table of configurations -/

/-- The VMs that were created have the configurations `confs`. -/
def Configured (b : Boot) (confs : List VmConf) : Prop :=
  ∀ v (h : v < confs.length), (b.hv.vcpus v).vm.vmconf = confs[v]

theorem Configured.createVm {b : Boot} {n : Nat} {confs : List VmConf} (h : Configured b confs)
    (hb : Booted b n confs) (p : Platform) (conf : VmConf) :
    Configured (createVm p b conf) (confs ++ [conf]) := by
  intro v hv
  simp only [Kernel.createVm, hb.nextVcpu, Hv.setVcpu_apply]
  by_cases hlast : v = confs.length
  · subst hlast
    rw [if_pos rfl, List.getElem_append_right (le_refl _)]
    simp only [createVcpu, Nat.sub_self, List.getElem_singleton]
  · have hlt : v < confs.length := by
      simp only [List.length_append, List.length_singleton] at hv
      omega
    rw [if_neg hlast, List.getElem_append_left hlt]
    exact h v hlt

theorem initializeMachines_configured (p : Platform) (power : Power) (vmconf : List VmConf) :
    Configured (vmconf.foldl (createVm p) (bootStart power vmconf.length)) vmconf := by
  have hboth : Booted (vmconf.foldl (createVm p) (bootStart power vmconf.length)) vmconf.length
      vmconf ∧ Configured (vmconf.foldl (createVm p) (bootStart power vmconf.length)) vmconf := by
    refine foldl_prefix (P := fun confs b => Booted b vmconf.length confs ∧ Configured b confs)
      ⟨bootStart_booted power vmconf.length, fun v hv => absurd hv (Nat.not_lt_zero v)⟩
      fun confs conf b hsplit h => ?_
    have hlength := hsplit.length_le
    rw [List.length_append, List.length_singleton] at hlength
    exact ⟨h.1.createVm (Nat.lt_of_succ_le hlength) p conf, h.2.createVm h.1 p conf⟩
  exact hboth.2

/-- The driver finds the configuration of every VM. -/
theorem virtualIoInit_eq (p : Platform) (power : Power) (vmconf : List VmConf)
    (halloc : AllocationsSucceed vmconf.length) :
    virtualIoInit (initializeMachines p power vmconf) vmconf.length = .ok vmconf := by
  have hready := (initializeMachines_booted p power vmconf).isReady
  have hconfigured := initializeMachines_configured p power vmconf
  refine mapM_range_eq_ok fun i h => ?_
  have hfound : getVcpuFromId (initializeMachines p power vmconf) (UInt32.ofNat (i + 1)) =
      .ok (some i) := hready.getVcpuFromId halloc h
  rw [hfound]
  exact congrArg Except.ok (hconfigured i h)

theorem callerConf_eq {vmconf : List VmConf} (halloc : AllocationsSucceed vmconf.length) {hv : Hv}
    {v : Nat} {w : VcpuPtr} (hv' : v < vmconf.length) (hexecuting : hv.executing = some w)
    (hid : (hv.vcpus w).id = UInt32.ofNat (v + 1)) : callerConf vmconf hv = .ok vmconf[v] := by
  have hindex : ((hv.vcpus w).id - 1).toNat = v := by
    have hnat : (hv.vcpus w).id.toNat = v + 1 := by rw [hid, toNat_vcpuId halloc hv']
    have hone : (1 : UInt32) ≤ (hv.vcpus w).id := by
      rw [UInt32.le_iff_toNat_le, hnat]
      exact Nat.succ_pos v
    rw [UInt32.toNat_sub_of_le _ _ hone, hnat]
    rfl
  simp only [callerConf, hexecuting, hindex, List.getElem?_eq_getElem hv']

/-- The driver's table has the configuration of every VM, and a VM whose VCPU is in execution gets
both accesses to an address when the four bytes there belong to the registers of one of its devices,
and none otherwise. -/
theorem virtualIo_controlled (p : Platform) (power : Power) (vmconf : List VmConf)
    (halloc : AllocationsSucceed vmconf.length)
    (hfit : ∀ conf ∈ vmconf, ∀ device ∈ conf.devices, RegistersFit device) :
    ∃ vmconfP, virtualIoInit (initializeMachines p power vmconf) vmconf.length = .ok vmconfP ∧
      ∀ (hv : Hv) (v : Nat) (w : VcpuPtr) (h : v < vmconf.length), hv.executing = some w →
        (hv.vcpus w).id = UInt32.ofNat (v + 1) →
        ((∃ device ∈ vmconf[v].devices, WordIn device.startAddr.toNat (device.size.toNat + 4)
            (moveFromPreviousGuestGPR p hv.cpu REG_A0)) → Grants p vmconfP hv) ∧
        ((¬∃ device ∈ vmconf[v].devices, WordIn device.startAddr.toNat (device.size.toNat + 4)
            (moveFromPreviousGuestGPR p hv.cpu REG_A0)) → Refuses p vmconfP hv) := by
  refine ⟨vmconf, virtualIoInit_eq p power vmconf halloc, fun hv v w h hexecuting hid => ?_⟩
  have hcases := grants_or_refuses (p := p) (callerConf_eq halloc h hexecuting hid)
  have hallows : (∃ device ∈ vmconf[v].devices,
        Allows device (moveFromPreviousGuestGPR p hv.cpu REG_A0)) ↔
      ∃ device ∈ vmconf[v].devices, WordIn device.startAddr.toNat (device.size.toNat + 4)
        (moveFromPreviousGuestGPR p hv.cpu REG_A0) := by
    refine exists_congr fun device => and_congr_right fun hdevice => ?_
    exact (hfit _ (List.getElem_mem h) device hdevice).allows_iff _
  rwa [hallows] at hcases

/-- A VM with one device. -/
def deviceVm (device : DeviceMapping) : VmConf :=
  { vmName := "ping", ramBase := 0x80008000, osType := BARE_METAL, priority := 100
    fastInterrupts := [], interruptRedirect := [], numTlbEntries := 0, tlb := []
    devices := [device] }

/-- Its VCPU calls with the address `memoryAddr`. -/
def deviceCall (device : DeviceMapping) (memoryAddr : UInt32) : Hv :=
  { initializeMachines .pic32mz .cleared [deviceVm device] with
    executing := some 0
    cpu := moveToPreviousGuestGPR .pic32mz Cpu.cleared REG_A0 memoryAddr }

/-- The second UART. -/
def uart2 : DeviceMapping := { startAddr := 0xbf822200, size := 0x4c }

theorem virtualIo_controlled_uart2 :
    ∃ vmconfP, virtualIoInit (initializeMachines .pic32mz .cleared [deviceVm uart2]) 1 =
        .ok vmconfP ∧ Grants .pic32mz vmconfP (deviceCall uart2 0xbf82224c) ∧
      Refuses .pic32mz vmconfP (deviceCall uart2 0xbf82224d) := by
  obtain ⟨vmconfP, hinit, hdecides⟩ := virtualIo_controlled .pic32mz .cleared [deviceVm uart2]
    (by decide) (by decide)
  refine ⟨vmconfP, hinit, ?_, ?_⟩
  · exact (hdecides (deviceCall uart2 0xbf82224c) 0 0 (by decide) rfl (by decide)).1
      ⟨uart2, by decide, by decide, by decide⟩
  · refine (hdecides (deviceCall uart2 0xbf82224d) 0 0 (by decide) rfl (by decide)).2 ?_
    rintro ⟨device, hdevice, -, hend⟩
    obtain rfl : device = uart2 := List.mem_singleton.mp hdevice
    exact absurd hend (by decide)

/-- The last register of the second UART is behind the `size` bytes of the device, and a range that
ends at 2^32 allows none of its addresses. -/
theorem last_register_allowed :
    (∃ vmconfP, virtualIoInit (initializeMachines .pic32mz .cleared [deviceVm uart2]) 1 =
        .ok vmconfP ∧ Grants .pic32mz vmconfP (deviceCall uart2 0xbf82224c) ∧
      ¬WordIn uart2.startAddr.toNat uart2.size.toNat 0xbf82224c) ∧
    ∃ vmconfP, virtualIoInit
        (initializeMachines .pic32mz .cleared [deviceVm ⟨0xFFFFFFF0, 0x10⟩]) 1 = .ok vmconfP ∧
      Refuses .pic32mz vmconfP (deviceCall ⟨0xFFFFFFF0, 0x10⟩ 0xFFFFFFF0) ∧
      WordIn (0xFFFFFFF0 : UInt32).toNat (0x10 : UInt32).toNat 0xFFFFFFF0 := by
  have hroom : AllocationsSucceed 1 := by decide
  have hcaller : ∀ device memoryAddr,
      callerConf [deviceVm device] (deviceCall device memoryAddr) = .ok (deviceVm device) := by
    intro device memoryAddr
    have halloc : AllocationsSucceed [deviceVm device].length := hroom
    have hone : 0 < [deviceVm device].length := Nat.one_pos
    have hready := (initializeMachines_booted .pic32mz .cleared [deviceVm device]).isReady
    have hexecuting : (deviceCall device memoryAddr).executing = some 0 := rfl
    have hid : ((deviceCall device memoryAddr).vcpus 0).id = UInt32.ofNat (0 + 1) :=
      hready.ids 0 hone
    exact callerConf_eq halloc hone hexecuting hid
  refine ⟨⟨_, virtualIoInit_eq .pic32mz .cleared [deviceVm uart2] (by decide), ?_, by decide⟩,
    ⟨_, virtualIoInit_eq .pic32mz .cleared [deviceVm ⟨0xFFFFFFF0, 0x10⟩] (by decide), ?_,
      by decide⟩⟩
  · exact (grants_or_refuses (hcaller uart2 0xbf82224c)).1
      ⟨uart2, List.mem_singleton_self _, by decide⟩
  · refine (grants_or_refuses (hcaller ⟨0xFFFFFFF0, 0x10⟩ 0xFFFFFFF0)).2 ?_
    rintro ⟨device, hdevice, hallows⟩
    obtain rfl : device = ⟨0xFFFFFFF0, 0x10⟩ := List.mem_singleton.mp hdevice
    exact absurd hallows (by decide)

end PrplHypervisor.Drivers
