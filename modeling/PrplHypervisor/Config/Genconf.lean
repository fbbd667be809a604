import PrplHypervisor.Kernel.Vm

/-! The generator of the configuration (`platform/cfg_reader/genconf.c`): the sizes and TLB entries
of the virtual machines of an input file, and the places of their memories.  What it emits is a C
header, whose names stand for the values that the hypervisor's headers give them. -/

namespace PrplHypervisor.Config

open Arch Kernel

def VMS_RAM_VIRTUAL_BASE_ADDRESS : UInt32 := 0x80000000

def VMS_DATA_INTERMEDIATE_BASE_ADDRESS : Platform → UInt32
  | .pic32mz => 0x80008000
  | .baikalT1 => 0x80010000

def VMS_CODE_INTERMEDIATE_BASE_ADDRESS : Platform → UInt32
  | .pic32mz => 0x9D008000
  | .baikalT1 => 0x80010000

def VMS_CODE_VIRTUAL_BASE_ADDRESS : Platform → UInt32
  | .pic32mz => 0x9D000000
  | .baikalT1 => 0x80000000

def TOTAL_TLB_ENTRIES : Platform → Nat
  | .pic32mz => 15
  | .baikalT1 => 63

structure MemSizesDef where
  mask : UInt32
  value : UInt32
  name : String

def PageSizes : List MemSizesDef := [
  { name := "PAGEMASK_4KB", value := 4096, mask := 0xFFF },
  { name := "PAGEMASK_16KB", value := 16384, mask := 0x3FFF },
  { name := "PAGEMASK_64KB", value := 65536, mask := 0xFFFF },
  { name := "PAGEMASK_256KB", value := 262144, mask := 0x3FFFF },
  { name := "PAGEMASK_1MB", value := 1048576, mask := 0xFFFFF },
  { name := "PAGEMASK_4MB", value := 4194304, mask := 0x3FFFFF },
  { name := "PAGEMASK_16MB", value := 16777216, mask := 0xFFFFFF },
  { name := "PAGEMASK_256MB", value := 268435456, mask := 0xFFFFFFF }]

def MemSizes : List MemSizesDef := [
  { name := "MEM_SIZE_4KB", value := 4096, mask := 0 },
  { name := "MEM_SIZE_8KB", value := 8192, mask := 0 },
  { name := "MEM_SIZE_16KB", value := 16384, mask := 0 },
  { name := "MEM_SIZE_32KB", value := 32768, mask := 0 },
  { name := "MEM_SIZE_64KB", value := 65536, mask := 0 },
  { name := "MEM_SIZE_128KB", value := 131072, mask := 0 },
  { name := "MEM_SIZE_256KB", value := 262144, mask := 0 },
  { name := "MEM_SIZE_512KB", value := 524288, mask := 0 },
  { name := "MEM_SIZE_1MB", value := 1048576, mask := 0 },
  { name := "MEM_SIZE_2MB", value := 2097152, mask := 0 },
  { name := "MEM_SIZE_4MB", value := 4194304, mask := 0 },
  { name := "MEM_SIZE_8MB", value := 8388608, mask := 0 },
  { name := "MEM_SIZE_16MB", value := 16777216, mask := 0 },
  { name := "MEM_SIZE_32MB", value := 33554432, mask := 0 }]

def getValueFromStr (mdef : List MemSizesDef) (strName : String) : UInt32 :=
  match mdef.find? fun d => d.name = strName with
  | some d => d.value
  | none => 0

/-- `select_page_mask`: the page size for a memory area, and whether a dual entry is used. -/
def selectPageMask (memSize : UInt32) : Option (MemSizesDef × Bool) :=
  match PageSizes.find? fun d => d.value = memSize / 2 with
  | some d => some (d, true)
  | none =>
    match PageSizes.find? fun d => d.value = memSize with
    | some d => some (d, false)
    | none => none

def kseg0AddrToPhysical (addr : UInt32) : UInt32 := (addr &&& 0x1FFFFFFF) >>> 12

def calculateMemBase (pageSize : MemSizesDef) (memBase : UInt32) : UInt32 :=
  if memBase % pageSize.value ≠ 0 then (memBase + pageSize.value) &&& ~~~pageSize.mask
  else memBase

/-- A TLB entry of the header. -/
structure TlbText where
  entrylo0 : UInt32
  entrylo1 : UInt32
  pagemask : String
  entryhi : UInt32
  coherency : String
  deriving DecidableEq, Repr

/-- `process_tlb_entry`: the entry that it writes, and the base that it leaves in `mem_base`. -/
def processTlbEntry (memSize memBase va : UInt32) (coherency : String) :
    Except String (TlbText × UInt32) :=
  match selectPageMask memSize with
  | none =>
    .error ("The memory size 0x" ++ String.ofList (Nat.toDigits 16 memSize.toNat) ++
      " does not fit any TLB entry size.\n")
  | some (pageSize, dualEntry) =>
    let memBase := calculateMemBase pageSize memBase
    .ok ({
      entrylo0 := kseg0AddrToPhysical memBase
      entrylo1 := if dualEntry then kseg0AddrToPhysical (memBase + memSize / 2) else 0
      pagemask := pageSize.name
      entryhi := kseg0AddrToPhysical va
      coherency := coherency }, memBase)

/-! ### The input file -/

/-- A group of `memory_maps`. -/
structure MemoryMap where
  baseAddr : Option UInt32
  pageSize : Option String

/-- A group of `virtual_machines`. -/
structure VmGroup where
  appName : Option String
  osType : Option String
  priority : Option UInt32
  deviceMapping : Option (List String)
  fastInterrupts : Option (List String)
  interruptRedirect : Option (List String)
  ramSizeBytes : Option String
  flashSizeBytes : Option String
  coherency : Option String
  memoryMaps : Option (List MemoryMap)

/-! ### The output -/

/-- An element of `VMCONF` in the header. -/
structure VmText where
  vmName : String
  osType : String
  priority : UInt32
  devices : List String
  fastInterrupts : List String
  interruptRedirect : List String
  numTlbEntries : Nat
  tlb : List TlbText
  ramBase : UInt32

/-- A line of `vms.info`. -/
structure VmsInfo where
  appName : String
  codeSize : UInt32
  ramSize : UInt32
  addressStart : UInt32

/-- The variables of `gen_conf_vms` from one VM to the next, and what it has written. -/
structure GenVms where
  vmDataInterAddr : UInt32
  vmCodeInterAddr : UInt32
  totalTlbEntries : Nat
  appList : List String
  vmconf : List VmText
  vmsInfo : List VmsInfo

/-- A property that a group must have. -/
def required {α : Type} (property group : String) : Option α → Except String α
  | some a => .ok a
  | none => .error ("Missing " ++ property ++ " proprierty on " ++ group ++ " group.\n")

/-- A size of the file.  The message of a wrong `page_size` names `flash_size_bytes`. -/
def sizeValue (property str : String) : Except String UInt32 :=
  let value := getValueFromStr MemSizes str
  if value = 0 then .error ("Invalide value for " ++ property ++ ": " ++ str ++ ".\n")
  else .ok value

/-- The priority of a VM. -/
def vmPriority : Option UInt32 → UInt32
  | none => 100
  | some priority => if priority > 255 then 100 else priority

/-- The entry of an element of `memory_maps`.  The coherency is one of the VM, not of the map. -/
def genMap (vm : VmGroup) (mm : MemoryMap) : Except String TlbText := do
  let baseAddr ← required "base_addr" "virtual_machines.memory_maps" mm.baseAddr
  let str ← required "page_size" "virtual_machines.memory_maps" mm.pageSize
  let pageSize ← sizeValue "flash_size_bytes" str
  let entry ← processTlbEntry pageSize baseAddr baseAddr (vm.coherency.getD "UNCACHED")
  return entry.1

/-- The entry of the flash memory with its size and its base, or none without `flash_size_bytes`,
which only PIC32MZ requires. -/
def genFlash (p : Platform) (vm : VmGroup) (vmCodeInterAddr : UInt32) :
    Except String (List TlbText × UInt32 × UInt32) :=
  match vm.flashSizeBytes with
  | none =>
    match p with
    | .pic32mz => .error "Missing flash_size_bytes proprierty on virtual_machines group.\n"
    | .baikalT1 => .ok ([], 0, vmCodeInterAddr)
  | some str => do
    let flashSize ← sizeValue "flash_size_bytes" str
    let entry ← processTlbEntry flashSize vmCodeInterAddr (VMS_CODE_VIRTUAL_BASE_ADDRESS p)
      "WRITE_BACK"
    return ([entry.1], flashSize, entry.2)

/-- The number of TLB entries of a VM: those of its memory maps, of its RAM and, on PIC32MZ, of its
flash. -/
def numTlbEntries (p : Platform) (vm : VmGroup) : Nat :=
  (vm.memoryMaps.getD []).length + match p with
    | .pic32mz => 2
    | .baikalT1 => 1

/-- The number of TLB entries of the VMs up to `vm`. -/
def countTlbEntries (p : Platform) (totalTlbEntries : Nat) (vm : VmGroup) : Except String Nat :=
  let total := totalTlbEntries + numTlbEntries p vm
  if total > TOTAL_TLB_ENTRIES p then
    .error ("You are using more than " ++ toString (TOTAL_TLB_ENTRIES p) ++ " TLB entries.\n")
  else .ok total

/-- The body of the loop of `gen_conf_vms`. -/
def genConfVm (p : Platform) (g : GenVms) (vm : VmGroup) : Except String GenVms := do
  let appName ← required "app_name" "virtual_machines" vm.appName
  let osType ← required "os_type" "virtual_machines" vm.osType
  let total ← countTlbEntries p g.totalTlbEntries vm
  let str ← required "RAM_size_bytes" "virtual_machines" vm.ramSizeBytes
  let ramSize ← sizeValue "RAM_size_bytes" str
  let ram ← processTlbEntry ramSize g.vmDataInterAddr VMS_RAM_VIRTUAL_BASE_ADDRESS "WRITE_BACK"
  let flash ← genFlash p vm g.vmCodeInterAddr
  let maps ← (vm.memoryMaps.getD []).mapM (genMap vm)
  -- on Baikal-T1 the code addresses advance with the RAM, even behind an entry for flash memory
  let codeSize := match p with
    | .pic32mz => flash.2.1
    | .baikalT1 => ramSize
  return {
    vmDataInterAddr := ram.2 + ramSize
    vmCodeInterAddr := flash.2.2 + codeSize
    totalTlbEntries := total
    appList := if osType ≠ "LINUX" then g.appList ++ [appName] else g.appList
    vmconf := g.vmconf ++ [{
      vmName := appName
      osType := osType
      priority := vmPriority vm.priority
      devices := vm.deviceMapping.getD []
      fastInterrupts := vm.fastInterrupts.getD []
      interruptRedirect := vm.interruptRedirect.getD []
      numTlbEntries := numTlbEntries p vm
      tlb := ram.1 :: flash.1 ++ maps
      ramBase := ram.2 }]
    vmsInfo := g.vmsInfo ++ [{
      appName := appName
      codeSize := codeSize
      ramSize := ramSize
      addressStart := flash.2.2 }] }

def genConfVms (p : Platform) : Option (List VmGroup) → Except String GenVms
  | none => .error "Missing virtual_machines group configuration on the input file.\n"
  | some vms => vms.foldlM (genConfVm p) {
      vmDataInterAddr := VMS_DATA_INTERMEDIATE_BASE_ADDRESS p
      vmCodeInterAddr := VMS_CODE_INTERMEDIATE_BASE_ADDRESS p
      totalTlbEntries := 0
      appList := []
      vmconf := []
      vmsInfo := [] }

/-! ### The values of the names in the header -/

/-- The page masks of `tlb.h`. -/
def pagemasks : List (String × UInt32) := [
  ("PAGEMASK_4KB", PAGEMASK_4KB), ("PAGEMASK_16KB", PAGEMASK_16KB),
  ("PAGEMASK_64KB", PAGEMASK_64KB), ("PAGEMASK_256KB", PAGEMASK_256KB),
  ("PAGEMASK_1MB", PAGEMASK_1MB), ("PAGEMASK_4MB", PAGEMASK_4MB),
  ("PAGEMASK_16MB", PAGEMASK_16MB), ("PAGEMASK_256MB", PAGEMASK_256MB)]

/-- The cache coherency attributes of `tlb.h`. -/
def coherencies : List (String × UInt32) :=
  [("WRITE_BACK", 4), ("CWB", 5), ("CWBE", 4), ("WB", 3), ("UNCACHED", 2)]

def osTypes : List (String × UInt32) := [("BARE_METAL", BARE_METAL), ("LINUX", LINUX)]

def TlbText.compile (t : TlbText) : Option TlbEntries := do
  let pagemask ← pagemasks.lookup t.pagemask
  let coherency ← coherencies.lookup t.coherency
  return {
    entrylo0 := t.entrylo0
    entrylo1 := t.entrylo1
    pagemask := pagemask
    entryhi := t.entryhi
    coherency := coherency }

/-- An element of `VMCONF`, where `board` are the names of the board's headers, or none when one of
its names is not defined. -/
def VmText.compile (board : String → Option UInt32) (t : VmText) : Option VmConf := do
  let osType ← osTypes.lookup t.osType
  let fastInterrupts ← t.fastInterrupts.mapM board
  let interruptRedirect ← t.interruptRedirect.mapM board
  let tlb ← t.tlb.mapM TlbText.compile
  let devices ← t.devices.mapM fun device => do
    let startAddr ← board (device ++ "_BASE")
    let size ← board (device ++ "_SIZE")
    return { startAddr := startAddr, size := size }
  return {
    vmName := t.vmName
    ramBase := t.ramBase
    osType := osType
    priority := t.priority
    fastInterrupts := fastInterrupts
    interruptRedirect := interruptRedirect
    numTlbEntries := UInt32.ofNat t.numTlbEntries
    tlb := tlb
    devices := devices }

/-- The configuration that the hypervisor is built with. -/
def VMCONF (board : String → Option UInt32) (g : GenVms) : Option (List VmConf) :=
  g.vmconf.mapM (VmText.compile board)

/-! ### Samples -/

/-- A bare-metal VM with the default priority and no devices. -/
def bareMetal (appName ramSizeBytes flashSizeBytes : String) : VmGroup where
  appName := some appName
  osType := some "BARE_METAL"
  priority := none
  deviceMapping := none
  fastInterrupts := none
  interruptRedirect := none
  ramSizeBytes := some ramSizeBytes
  flashSizeBytes := some flashSizeBytes
  coherency := none
  memoryMaps := none

def pingPongGroups : List VmGroup :=
  [bareMetal "ping" "MEM_SIZE_32KB" "MEM_SIZE_32KB",
    bareMetal "pong" "MEM_SIZE_32KB" "MEM_SIZE_32KB"]

/-- The Linux VM of Baikal-T1 (`sample-linux.cfg`), with its UART, interrupt controller and power
management unit. -/
def linux : VmGroup where
  appName := some "linux"
  osType := some "LINUX"
  priority := some 100
  deviceMapping := none
  fastInterrupts := none
  interruptRedirect := none
  ramSizeBytes := some "MEM_SIZE_32MB"
  flashSizeBytes := none
  coherency := none
  memoryMaps := some [
    { baseAddr := some 0xBF04A000, pageSize := some "MEM_SIZE_4KB" },
    { baseAddr := some 0xBBDC0000, pageSize := some "MEM_SIZE_128KB" },
    { baseAddr := some 0xBF04D000, pageSize := some "MEM_SIZE_8KB" }]

example : (genConfVms .pic32mz (some pingPongGroups)).toOption.bind (VMCONF fun _ => none) =
    some pingPong := by
  decide +kernel

end PrplHypervisor.Config
