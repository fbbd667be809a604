import Mathlib.Data.List.Chain
import PrplHypervisor.Drivers.VirtualInterrupts

/-! The timer ticks of the guests on PIC32MZ (`arch/mips/pic32mz/timer.c`), over runs in which time
goes on between the events and the 32-bit counter wraps.  All VMs share the ticks: each one is for
the VCPU that executes when it falls due. -/

namespace PrplHypervisor.Drivers

open Arch Kernel Lib.Runs

/-- `diff_time` of `timer_interrupt_handler`; it is one less when the counter has wrapped. -/
def diffTime (past now : UInt32) : UInt32 :=
  if now ≥ past then now - past else 0xffffffff - (past - now)

variable {quantum interval : UInt32} {last time : Nat}

variable {gap : Nat} {c d : Clocked}

end PrplHypervisor.Drivers
