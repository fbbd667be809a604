import PrplHypervisor.Kernel.Scheduler
import PrplHypervisor.Lib.Partial

/-! The creation of the virtual machines and their VCPUs (`sys/kernel/vm.c`).  `Booted` is what
`initializeMachines` leaves: the ready list holds the VCPUs in the order of the configuration, and
their ids count from 1. -/

namespace PrplHypervisor.Kernel

open Arch Lib.Partial

def BARE_METAL : UInt32 := 1
def LINUX : UInt32 := 2
def SRSCTL_HSS : UInt32 := (0xF : UInt32) <<< 26

def BARE_METAL_ENTRY_POINT : Platform → UInt32
  | .pic32mz => 0x9d001000
  | .baikalT1 => 0x80001000

def LINUX_ENTRY_POINT : UInt32 := 0x80100400

/-- The hypervisor while it creates VMs, with the static counters of `create_vm` and
`create_vcpu`.  The allocator hands out the VCPU structures in order, so the pointer to the next
one is their number. -/
structure Boot where
  hv : Hv
  vmId : UInt32
  tlbindex : UInt32
  vcpuId : UInt32
  nextVcpu : VcpuPtr

/-- A message ring after `memset`. -/
def emptyMessages : MessageBuffer where
  inIndex := 0
  outIndex := 0
  numMessages := 0
  messageList := fun _ => { sourceId := 0, size := 0, message := fun _ => 0 }

/-- `create_vcpu`: the structure of a new VCPU, for a processor with `numShadowGprs` shadow sets. -/
def createVcpu (vcpuId numShadowGprs : UInt32) (vm : Vm) (entryPoint priority : UInt32) : Vcpu where
  id := vcpuId
  priority := priority
  priorityRem := priority
  critical := 0
  state := .running
  bgjobs := 0
  gprshadowset :=
    if vcpuId > numShadowGprs then if numShadowGprs = 0 then 0 else 1 else vcpuId
  cp0Registers := fun _ => 0
  guestclt2 := 0
  pc := entryPoint
  init := 1
  gpr := if vcpuId > numShadowGprs then some fun _ => 0 else none
  vm := vm
  messages := emptyMessages

/-- The TLB entry that `create_vm` fills from the configuration, for the guest `guestid`.  A half
with frame number 0 gets no flags, so it stays invalid. -/
def fillTlbEntry (guestid index : UInt32) (tlb : TlbEntries) : TlbEntry where
  guestid := guestid
  index := index
  entrylo0 := tlb.entrylo0
  lo0flags := if tlb.entrylo0 ≠ 0 then ENTRYLO_V ||| ENTRYLO_D else 0
  entrylo1 := tlb.entrylo1
  lo1flags := if tlb.entrylo1 ≠ 0 then ENTRYLO_V ||| ENTRYLO_D else 0
  pagemask := tlb.pagemask
  entryhi := tlb.entryhi
  coherency := tlb.coherency

/-- The entries that `create_vm` fills for a VM: the first `num_tlb_entries` of its array, at
successive indexes of the TLB. -/
def fillTlbEntries (guestid tlbindex : UInt32) (conf : VmConf) : List TlbEntry :=
  (conf.tlb.take conf.numTlbEntries.toNat).mapIdx fun i tlb =>
    fillTlbEntry guestid (tlbindex + UInt32.ofNat i) tlb

def createVm (p : Platform) (b : Boot) (conf : VmConf) : Boot :=
  let entries := fillTlbEntries b.vmId b.tlbindex conf
  let vm : Vm := {
    id := b.vmId
    baseAddr := conf.ramBase
    osType := conf.osType
    init := 1
    vmconf := conf
    ntlbent := conf.numTlbEntries
    tlbentries := entries }
  let cpu := entries.foldl tlbEntryWrite b.hv.cpu
  let entryPoint :=
    if conf.osType = BARE_METAL then BARE_METAL_ENTRY_POINT p
    else if conf.osType = LINUX then LINUX_ENTRY_POINT else 0
  let numShadowGprs := (cpu.srsctl &&& SRSCTL_HSS) >>> 26
  let hv := ({ b.hv with cpu := cpu } : Hv).setVcpu b.nextVcpu
    (createVcpu b.vcpuId numShadowGprs vm entryPoint conf.priority)
  { hv := { hv with readyList := (queueAddtail hv.readyList (some b.nextVcpu)).2 }
    vmId := b.vmId + 1
    tlbindex := b.tlbindex + conf.numTlbEntries
    vcpuId := b.vcpuId + 1
    nextVcpu := b.nextVcpu + 1 }

/-- The memory and the processor before `initializeMachines`: what the allocators return is not
cleared. -/
structure Power where
  cpu : Cpu
  cpuIdle : UInt32
  vcpus : VcpuPtr → Vcpu
  fresh : Int → Option VcpuPtr

/-- A VM without memory, and memory and registers that are all zero. -/
def Vm.cleared : Vm where
  id := 0
  baseAddr := 0
  osType := 0
  init := 0
  vmconf := {
    vmName := "", ramBase := 0, osType := 0, priority := 0, fastInterrupts := []
    interruptRedirect := [], numTlbEntries := 0, tlb := [], devices := [] }
  ntlbent := 0
  tlbentries := []

def Power.cleared : Power where
  cpu := Cpu.cleared
  cpuIdle := 0
  vcpus := fun _ => createVcpu 0 0 Vm.cleared 0 0
  fresh := fun _ => none

/-- Two bare-metal VMs with 32 KB of RAM and of flash each, as they are generated for PIC32MZ. -/
def pingPong : List VmConf :=
  [{ vmName := "ping", ramBase := 0x80008000, osType := BARE_METAL, priority := 100
     fastInterrupts := [], interruptRedirect := [], numTlbEntries := 2
     tlb := [
      { entrylo0 := 0x8, entrylo1 := 0xC, pagemask := PAGEMASK_16KB, entryhi := 0
        coherency := 4 },
      { entrylo0 := 0x1D008, entrylo1 := 0x1D00C, pagemask := PAGEMASK_16KB, entryhi := 0x1D000
        coherency := 4 }]
     devices := [] },
   { vmName := "pong", ramBase := 0x80010000, osType := BARE_METAL, priority := 100
     fastInterrupts := [], interruptRedirect := [], numTlbEntries := 2
     tlb := [
      { entrylo0 := 0x10, entrylo1 := 0x14, pagemask := PAGEMASK_16KB, entryhi := 0
        coherency := 4 },
      { entrylo0 := 0x1D010, entrylo1 := 0x1D014, pagemask := PAGEMASK_16KB, entryhi := 0x1D000
        coherency := 4 }]
     devices := [] }]

/-- The static variables before the first VM is created. -/
def bootStart (power : Power) (nvmachines : Nat) : Boot where
  hv := {
    vcpus := power.vcpus
    readyList := queueCreate nvmachines power.fresh
    executing := none
    tickCount := 0
    pending := 0
    cpu := power.cpu
    cpuIdle := power.cpuIdle }
  vmId := 1
  tlbindex := 0
  vcpuId := 1
  nextVcpu := 0

/-- `initializeMachines`, on the configuration `VMCONF` of `NVMACHINES` VMs. -/
def initializeMachines (p : Platform) (power : Power) (vmconf : List VmConf) : Hv :=
  (vmconf.foldl (createVm p) (bootStart power vmconf.length)).hv

/-- The size of a `vcpu_t`: 27 words and a message ring of 3 words and 5 slots of 264 bytes. -/
def sizeofVcpu : Nat := 27 * 4 + (3 * 4 + 5 * 264) + 4

/-- The VCPU structures of `n` VMs have addresses of their own, so the allocations succeeded. -/
def AllocationsSucceed (n : Nat) : Prop := n * sizeofVcpu ≤ 2 ^ 32

instance (n : Nat) : Decidable (AllocationsSucceed n) := inferInstanceAs (Decidable (_ ≤ _))

/-- A VCPU as `create_vcpu` leaves it, the one with id `i` for the configuration `conf`. -/
structure Fresh (vcpu : Vcpu) (i : UInt32) (conf : VmConf) : Prop where
  id : vcpu.id = i
  vmId : vcpu.vm.id = i
  baseAddr : vcpu.vm.baseAddr = conf.ramBase
  priority : vcpu.priority = conf.priority
  priorityRem : vcpu.priorityRem = conf.priority
  critical : vcpu.critical = 0
  state : vcpu.state = .running
  guestclt2 : vcpu.guestclt2 = 0
  init : vcpu.init = 1
  messages : vcpu.messages = emptyMessages

/-- The state after the VMs of `confs` were created, out of `n`. -/
structure Booted (b : Boot) (n : Nat) (confs : List VmConf) : Prop where
  ready : b.hv.readyList.Holds n (List.range confs.length)
  vcpus : ∀ v (h : v < confs.length), Fresh (b.hv.vcpus v) (UInt32.ofNat (v + 1)) confs[v]
  vmId : b.vmId = UInt32.ofNat (confs.length + 1)
  vcpuId : b.vcpuId = UInt32.ofNat (confs.length + 1)
  nextVcpu : b.nextVcpu = confs.length
  executing : b.hv.executing = none
  pending : b.hv.pending = 0
  tickCount : b.hv.tickCount = 0

theorem bootStart_booted (power : Power) (n : Nat) : Booted (bootStart power n) n [] where
  ready := queueCreate_holds n power.fresh
  vcpus := fun v h => absurd h (Nat.not_lt_zero v)
  vmId := rfl
  vcpuId := rfl
  nextVcpu := rfl
  executing := rfl
  pending := rfl
  tickCount := rfl

theorem Booted.createVm {b : Boot} {n : Nat} {confs : List VmConf} (h : Booted b n confs)
    (room : confs.length < n) (p : Platform) (conf : VmConf) :
    Booted (createVm p b conf) n (confs ++ [conf]) := by
  have hadd := h.ready.addtail (by simpa using room) confs.length
  obtain ⟨q, hq, hholds⟩ := hadd
  constructor
  · simp only [Kernel.createVm, Hv.setVcpu_readyList, h.nextVcpu, hq]
    simpa [List.range_succ] using hholds
  · intro v hv
    simp only [Kernel.createVm, h.nextVcpu, Hv.setVcpu_apply]
    by_cases hlast : v = confs.length
    · subst hlast
      rw [if_pos rfl, List.getElem_append_right (le_refl _)]
      simp only [Nat.sub_self, List.getElem_singleton]
      constructor <;> simp [createVcpu, h.vcpuId, h.vmId]
    · have hlt : v < confs.length := by
        simp only [List.length_append, List.length_singleton] at hv
        omega
      rw [if_neg hlast, List.getElem_append_left hlt]
      exact h.vcpus v hlt
  · simp [Kernel.createVm, h.vmId]
  · simp [Kernel.createVm, h.vcpuId]
  · simp [Kernel.createVm, h.nextVcpu]
  · exact h.executing
  · exact h.pending
  · exact h.tickCount

theorem initializeMachines_booted (p : Platform) (power : Power) (vmconf : List VmConf) :
    Booted (vmconf.foldl (createVm p) (bootStart power vmconf.length)) vmconf.length vmconf := by
  refine foldl_prefix (P := fun confs b => Booted b vmconf.length confs)
    (bootStart_booted power vmconf.length) fun confs conf b hsplit h => ?_
  have hlength := hsplit.length_le
  rw [List.length_append, List.length_singleton] at hlength
  exact h.createVm (Nat.lt_of_succ_le hlength) p conf

end PrplHypervisor.Kernel
