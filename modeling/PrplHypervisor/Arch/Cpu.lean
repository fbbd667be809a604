import Mathlib.Logic.Function.Basic

/-! The processor as the hypervisor sees it (`arch/mips/common/hal.c` and
`include/gpr_context.h`): the root CP0 registers behind the HAL functions, the guest CP0 registers,
the guest's general registers, and the TLB. -/

namespace PrplHypervisor.Arch

/-- The two processor families the sources build for; `baikalT1` is a build with `BAIKAL_T1`. -/
inductive Platform
  | pic32mz
  | baikalT1
  deriving DecidableEq, Repr

/-- One entry of the TLB: what `tlb_commit` writes from the CP0 registers, with the guest the
entry belongs to. -/
structure HwTlbEntry where
  guestid : UInt32
  entrylo0 : UInt32
  entrylo1 : UInt32
  pagemask : UInt32
  entryhi : UInt32
  deriving DecidableEq, Repr

/-- The registers that the modelled code reads and writes. `guestCp0 r s` is guest CP0 register
`r`, select `s`; `shadowGpr s r` is general register `r` of shadow set `s`; `gprFrame` is the frame
of 34 words in which a processor without shadow sets keeps the guest's general registers. -/
structure Cpu where
  guestctl0 : UInt32
  guestctl1 : UInt32
  guestctl2 : UInt32
  guestctl3 : UInt32
  srsctl : UInt32
  epc : UInt32
  guestCp0 : Nat → Nat → UInt32
  shadowGpr : UInt32 → Nat → UInt32
  gprFrame : Nat → UInt32
  tlb : UInt32 → HwTlbEntry

/-- A processor whose registers are all zero. -/
def Cpu.cleared : Cpu where
  guestctl0 := 0
  guestctl1 := 0
  guestctl2 := 0
  guestctl3 := 0
  srsctl := 0
  epc := 0
  guestCp0 := fun _ _ => 0
  shadowGpr := fun _ _ => 0
  gprFrame := fun _ => 0
  tlb := fun _ => { guestid := 0, entrylo0 := 0, entrylo1 := 0, pagemask := 0, entryhi := 0 }

def SRSCTL_PSS : UInt32 := (0xF : UInt32) <<< 6
def GUESTCTL0_GM : UInt32 := (1 : UInt32) <<< 31
def GUESTCTL0_CP0 : UInt32 := (1 : UInt32) <<< 28
def GUESTCTL0_GT : UInt32 := (1 : UInt32) <<< 25
def GUESTCTL1_RID : UInt32 := (0xFF : UInt32) <<< 16
def GUESTCTL1_ID : UInt32 := 0xFF
def GUESTCLT2_GRIPL_SHIFT : UInt32 := 24
def GUESTCLT2_VIP_SHIFT : UInt32 := 10

def REG_V0 : Nat := 2
def REG_A0 : Nat := 4
def REG_A1 : Nat := 5
def REG_A2 : Nat := 6

def getGuestCTL2 (cpu : Cpu) : UInt32 := cpu.guestctl2

def setGuestCTL2 (cpu : Cpu) (guestclt2 : UInt32) : Cpu := { cpu with guestctl2 := guestclt2 }

def getEPC (cpu : Cpu) : UInt32 := cpu.epc

def setEPC (cpu : Cpu) (epc : UInt32) : Cpu := { cpu with epc := epc }

def setGuestRID (cpu : Cpu) (guestrid : UInt32) : Cpu :=
  { cpu with guestctl1 := (cpu.guestctl1 &&& ~~~GUESTCTL1_RID) ||| (guestrid <<< 16) }

def setGuestID (cpu : Cpu) (guestid : UInt32) : Cpu :=
  { cpu with guestctl1 := (cpu.guestctl1 &&& ~~~GUESTCTL1_ID) ||| guestid }

def setGuestMode (cpu : Cpu) : Cpu :=
  { cpu with
    guestctl0 := cpu.guestctl0 ||| GUESTCTL0_GM ||| GUESTCTL0_CP0 ||| GUESTCTL0_GT |||
      (1 : UInt32) <<< 12 }

def clearGuestMode (cpu : Cpu) : Cpu :=
  { cpu with guestctl0 := cpu.guestctl0 &&& ~~~GUESTCTL0_GM }

def setLowestGShadow (cpu : Cpu) (lowestshadow : UInt32) : Cpu :=
  { cpu with guestctl3 := lowestshadow &&& 0xF }

def setPreviousShadowSet (cpu : Cpu) (shadowSet : UInt32) : Cpu :=
  { cpu with srsctl := (cpu.srsctl &&& ~~~SRSCTL_PSS) ||| (shadowSet <<< 6) }

def getPreviousShadowSet (cpu : Cpu) : UInt32 := (cpu.srsctl &&& SRSCTL_PSS) >>> 6

/-- `mfgc0`: a guest CP0 register. -/
def mfgc0 (cpu : Cpu) (reg sel : Nat) : UInt32 := cpu.guestCp0 reg sel

/-- `mtgc0`: write a guest CP0 register. -/
def mtgc0 (cpu : Cpu) (reg sel : Nat) (value : UInt32) : Cpu :=
  { cpu with
    guestCp0 := Function.update cpu.guestCp0 reg (Function.update (cpu.guestCp0 reg) sel value) }

/-- `MoveFromPreviousGuestGPR`: on PIC32MZ the guest's register is read from the previous shadow
set, on Baikal-T1 from the frame on the stack. -/
def moveFromPreviousGuestGPR (p : Platform) (cpu : Cpu) (reg : Nat) : UInt32 :=
  match p with
  | .pic32mz => cpu.shadowGpr (getPreviousShadowSet cpu) reg
  | .baikalT1 => cpu.gprFrame reg

def moveToPreviousGuestGPR (p : Platform) (cpu : Cpu) (reg : Nat) (value : UInt32) : Cpu :=
  match p with
  | .pic32mz =>
    let set := getPreviousShadowSet cpu
    { cpu with
      shadowGpr := Function.update cpu.shadowGpr set
        (Function.update (cpu.shadowGpr set) reg value) }
  | .baikalT1 => { cpu with gprFrame := Function.update cpu.gprFrame reg value }

/-- `gpr_context_save`: the saved copy of the general registers.  The PIC32MZ routine is empty:
its guests keep their registers in shadow sets. -/
def gprContextSave (p : Platform) (cpu : Cpu) (gpr : Nat → UInt32) : Nat → UInt32 :=
  match p with
  | .pic32mz => gpr
  | .baikalT1 => fun j => if j < 34 then cpu.gprFrame j else gpr j

def gprContextRestore (p : Platform) (cpu : Cpu) (gpr : Nat → UInt32) : Cpu :=
  match p with
  | .pic32mz => cpu
  | .baikalT1 => { cpu with gprFrame := fun j => if j < 34 then gpr j else cpu.gprFrame j }

@[simp] theorem getGuestCTL2_setGuestCTL2 (cpu : Cpu) (x : UInt32) :
    getGuestCTL2 (setGuestCTL2 cpu x) = x := rfl

@[simp] theorem setEPC_guestctl2 (cpu : Cpu) (x : UInt32) :
    (setEPC cpu x).guestctl2 = cpu.guestctl2 := rfl

@[simp] theorem mtgc0_guestctl2 (cpu : Cpu) (r s : Nat) (x : UInt32) :
    (mtgc0 cpu r s x).guestctl2 = cpu.guestctl2 := rfl

@[simp] theorem gprContextRestore_guestctl2 (p : Platform) (cpu : Cpu) (g : Nat → UInt32) :
    (gprContextRestore p cpu g).guestctl2 = cpu.guestctl2 := by
  cases p <;> rfl

@[simp] theorem moveToPreviousGuestGPR_guestctl2 (p : Platform) (cpu : Cpu) (r : Nat) (x : UInt32) :
    (moveToPreviousGuestGPR p cpu r x).guestctl2 = cpu.guestctl2 := by
  cases p <;> rfl

@[simp] theorem moveFrom_moveTo (p : Platform) (cpu : Cpu) (r : Nat) (x : UInt32) :
    moveFromPreviousGuestGPR p (moveToPreviousGuestGPR p cpu r x) r = x := by
  cases p <;>
    simp [moveFromPreviousGuestGPR, moveToPreviousGuestGPR, getPreviousShadowSet]

end PrplHypervisor.Arch
