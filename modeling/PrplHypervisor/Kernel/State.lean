import PrplHypervisor.Arch.Tlb
import PrplHypervisor.Kernel.Queue

/-! The hypervisor's data: virtual machines, VCPUs with their message rings, and the scheduler's
variables (`vm.h`, `vcpu.h`, `scheduler.h`).  VCPU structures are read and written through
pointers, so the state maps a pointer to the structure it points to. -/

namespace PrplHypervisor.Kernel

open Arch

def MESSAGELIST_SZ : UInt32 := 5
def MESSAGE_SZ : UInt32 := 256

inductive VcpuState
  | running
  | blocked
  deriving DecidableEq, Repr

/-- `struct tlb_entries`: a TLB entry of the generated configuration. -/
structure TlbEntries where
  entrylo0 : UInt32
  entrylo1 : UInt32
  pagemask : UInt32
  entryhi : UInt32
  coherency : UInt32
  deriving DecidableEq, Repr

structure DeviceMapping where
  startAddr : UInt32
  size : UInt32
  deriving DecidableEq, Repr

/-- `struct vmconf_t`: a VM of the generated configuration.  An array with its length is a list;
`num_tlb_entries` is kept apart from the entries because the two are emitted apart. -/
structure VmConf where
  vmName : String
  ramBase : UInt32
  osType : UInt32
  priority : UInt32
  fastInterrupts : List UInt32
  interruptRedirect : List UInt32
  numTlbEntries : UInt32
  tlb : List TlbEntries
  devices : List DeviceMapping
  deriving DecidableEq, Repr

/-- `struct vm_t`, which `create_vm` fills and nothing changes later. -/
structure Vm where
  id : UInt32
  baseAddr : UInt32
  osType : UInt32
  init : UInt32
  vmconf : VmConf
  ntlbent : UInt32
  tlbentries : List TlbEntry
  deriving DecidableEq, Repr

structure Message where
  sourceId : UInt32
  size : UInt32
  message : Nat → UInt8

/-- `message_buffer_t`; `inIndex` and `outIndex` are the fields `in` and `out`. -/
structure MessageBuffer where
  inIndex : UInt32
  outIndex : UInt32
  numMessages : UInt32
  messageList : Nat → Message

/-- The fields of `struct vcpu_t` that the scheduler uses. -/
structure VcpuSched where
  id : UInt32
  priority : UInt32
  priorityRem : UInt32
  critical : UInt32
  state : VcpuState
  bgjobs : UInt32
  deriving DecidableEq, Repr

/-- The fields of `struct vcpu_t` that a context switch uses. -/
structure VcpuContext where
  gprshadowset : UInt32
  cp0Registers : Nat → UInt32
  guestclt2 : UInt32
  pc : UInt32
  init : UInt32
  gpr : Option (Nat → UInt32)

/-- `struct vcpu_t`.  Each VCPU has a VM of its own, so the structure holds what its `vm` pointer
points to. -/
structure Vcpu extends VcpuSched, VcpuContext where
  vm : Vm
  messages : MessageBuffer

/-- A pointer to a VCPU. -/
abbrev VcpuPtr := Nat

/-- The state of the hypervisor: the VCPU structures, `scheduler_info`, the scheduler's static
variables, and the processor.  `cpuIdle` is the address of `cpu_idle`. -/
structure Hv where
  vcpus : VcpuPtr → Vcpu
  readyList : Queue VcpuPtr
  executing : Option VcpuPtr
  tickCount : UInt32
  pending : UInt32
  cpu : Cpu
  cpuIdle : UInt32

/-- A failure that the code does not return from: a call of `CRITICAL`, which waits for a reset, a
null pointer that is dereferenced, or an access outside an array. -/
inductive Fault
  | error1
  | error2
  | nullPointer
  | outOfBounds
  deriving DecidableEq, Repr

/-- Write the VCPU structure at `v`. -/
def Hv.setVcpu (hv : Hv) (v : VcpuPtr) (vcpu : Vcpu) : Hv :=
  { hv with vcpus := Function.update hv.vcpus v vcpu }

@[simp] theorem Hv.setVcpu_self (hv : Hv) (v : VcpuPtr) (vcpu : Vcpu) :
    (hv.setVcpu v vcpu).vcpus v = vcpu := by
  simp [Hv.setVcpu]

@[simp] theorem Hv.setVcpu_of_ne (hv : Hv) {v w : VcpuPtr} (vcpu : Vcpu) (h : w ≠ v) :
    (hv.setVcpu v vcpu).vcpus w = hv.vcpus w := by
  simp [Hv.setVcpu, h]

theorem Hv.setVcpu_apply (hv : Hv) (v w : VcpuPtr) (vcpu : Vcpu) :
    (hv.setVcpu v vcpu).vcpus w = if w = v then vcpu else hv.vcpus w := by
  simp [Hv.setVcpu, Function.update_apply]

@[simp] theorem Hv.setVcpu_readyList (hv : Hv) (v : VcpuPtr) (vcpu : Vcpu) :
    (hv.setVcpu v vcpu).readyList = hv.readyList := rfl

@[simp] theorem Hv.setVcpu_executing (hv : Hv) (v : VcpuPtr) (vcpu : Vcpu) :
    (hv.setVcpu v vcpu).executing = hv.executing := rfl

@[simp] theorem Hv.setVcpu_tickCount (hv : Hv) (v : VcpuPtr) (vcpu : Vcpu) :
    (hv.setVcpu v vcpu).tickCount = hv.tickCount := rfl

@[simp] theorem Hv.setVcpu_pending (hv : Hv) (v : VcpuPtr) (vcpu : Vcpu) :
    (hv.setVcpu v vcpu).pending = hv.pending := rfl

@[simp] theorem Hv.setVcpu_cpu (hv : Hv) (v : VcpuPtr) (vcpu : Vcpu) :
    (hv.setVcpu v vcpu).cpu = hv.cpu := rfl

end PrplHypervisor.Kernel
