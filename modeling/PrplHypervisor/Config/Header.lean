import PrplHypervisor.Config.Images
import PrplHypervisor.Config.Mapping
import Mathlib.Data.UInt

/-! The lines of `config.h` that `strings_cat` puts together in a buffer of 128 bytes.  It stops at
the first string that has no room, and it has room for a string that fills the buffer up, though not
for its NUL.  What is stored behind a buffer is counted here and changes nothing else. -/

namespace PrplHypervisor.Config

open Arch Kernel Lib.Layout Lib.Words Lib.Partial

/-- What is at a pointer to characters, up to the NUL. -/
abbrev CString := List UInt8

def bytes (s : String) : CString := s.toByteArray.data.toList

def STRSZ : Int32 := 128

/-- The strings that the loop of `strings_cat` appends, behind `total` bytes. -/
def stringsCatLoop (size : Int32) : Int32 → List CString → List CString
  | _, [] => []
  | total, c :: arguments =>
    let total := total + Int32.ofNat c.length
    if size < total then [] else c :: stringsCatLoop size total arguments

/-- A call of `strings_cat`. -/
structure CatCall where
  size : Int32
  arguments : List CString

def CatCall.appended (c : CatCall) : List CString := stringsCatLoop c.size 0 c.arguments

/-- What the call leaves in `dest`. -/
def CatCall.dest (c : CatCall) : CString := c.appended.flatten

/-- The number of bytes that the call stores from `dest` on: `memset` clears `size` bytes, and the
last `strcat` adds a NUL. -/
def CatCall.stored (c : CatCall) : Nat := max c.size.toInt.toNat (c.dest.length + 1)

/-- The call stays in its buffer and appends all its arguments. -/
structure CatCall.Complete (c : CatCall) : Prop where
  stored : c.stored ≤ c.size.toInt.toNat
  appended : c.appended = c.arguments

/-- The calls of the generator. -/
def stringsCat (arguments : List CString) : CatCall := ⟨STRSZ, arguments⟩

/-! ### Numbers -/

/-- The format `%d`. -/
def decimal (i : Int) : CString :=
  ((if i < 0 then ['-'] else []) ++ Nat.toDigits 10 i.natAbs).map Char.toUInt8

/-- The format `0x%x`, with a minimum of `width` digits. -/
def hexadecimal (width : Nat) (n : UInt32) : CString :=
  let digits := Nat.toDigits 16 n.toNat
  bytes "0x" ++ (List.replicate (width - digits.length) '0' ++ digits).map Char.toUInt8

/-! ### The calls -/

/-- The group `system`. -/
structure SystemGroup where
  debug : Option (List String)
  uartSpeed : Option Int32
  schedulerQuantumMs : Option Int32
  guestQuantumMs : Option Int32

/-- `gen_system_configuration` -/
def genSystemConfiguration (s : SystemGroup) : Except String (List CatCall) :=
  if s.schedulerQuantumMs.any (· < 3) then .error "Minimal scheduler_quantum_ms is 3.\n\n"
  else .ok (
    (s.debug.getD []).map (fun flag => stringsCat [bytes "#define ", bytes flag, bytes "\n"]) ++
    [stringsCat [bytes "#define MILISECOND ", bytes "(", bytes "(CPU_FREQ/2)", bytes "/ 1000)",
      bytes "\n"]] ++
    (s.uartSpeed.map fun value =>
      stringsCat [bytes "#define UART_SPEED ", decimal value.toInt, bytes "\n"]).toList ++
    (s.schedulerQuantumMs.map fun value =>
      stringsCat [bytes "#define QUANTUM_SCHEDULER_MS ", decimal value.toInt,
        bytes " \n"]).toList ++
    (s.guestQuantumMs.map fun value =>
      stringsCat [bytes "#define GUEST_QUANTUM_MS ", decimal value.toInt, bytes " \n"]).toList)

/-- The calls of `process_tlb_entry` for an area of `memSize` bytes. -/
def TlbText.calls (memSize : UInt32) (t : TlbText) : List CatCall :=
  [stringsCat [bytes "\t\t\t\tentrylo0: ", hexadecimal 5 t.entrylo0, bytes ",\n"]] ++
  (if (selectPageMask memSize).any Prod.snd then
    [stringsCat [bytes "\t\t\t\tentrylo1: ", hexadecimal 5 t.entrylo1, bytes ",\n"]] else []) ++
  [stringsCat [bytes "\t\t\t\tpagemask: ", bytes t.pagemask, bytes ",\n"],
    stringsCat [bytes "\t\t\t\tentryhi: ", hexadecimal 5 t.entryhi, bytes ",\n"],
    stringsCat [bytes "\t\t\t\tcoherency: ", bytes t.coherency, bytes "\n"]]

/-- The calls for an element of `device_mapping`. -/
def deviceCalls (device : String) : List CatCall :=
  [stringsCat [bytes "\t\t\t\tstart_addr: ", bytes device, bytes "_BASE,\n"],
    stringsCat [bytes "\t\t\t\tsize: ", bytes device, bytes "_SIZE,\n"]]

/-- The buffer `app_name`: `strncpy` leaves out the NUL of a name that fills it, and what is
`behind` the buffer follows. -/
def appName (name : String) (behind : CString) : CString :=
  if (bytes name).length < 128 then bytes name else (bytes name).take 128 ++ behind

/-- The sizes of the areas that a VM has TLB entries for. -/
def tlbSizes (vm : VmGroup) : List UInt32 :=
  ramSize vm :: (if vm.flashSizeBytes = none then [] else [flashSize vm]) ++
    (vm.memoryMaps.getD []).map mapSize

/-- The calls of the body of the loop of `gen_conf_vms`, for the VM that it writes as `u` and
`info`. -/
def vmCalls (behind : CString) (vm : VmGroup) (u : VmText) (info : VmsInfo) : List CatCall :=
  [stringsCat [bytes "\t\tvm_name: \"", appName u.vmName behind, bytes "\",\n"],
    stringsCat [bytes "\t\tos_type: ", bytes u.osType, bytes ",\n"],
    stringsCat [bytes "\t\tpriority: ", decimal u.priority.toNat, bytes ",\n"]] ++
  u.devices.flatMap deviceCalls ++
  (List.zipWith TlbText.calls (tlbSizes vm) u.tlb).flatten ++
  [stringsCat [appName info.appName behind, bytes " \t",
    decimal info.codeSize.toNat ++ bytes " \t" ++ decimal info.ramSize.toNat ++ bytes " \t" ++
      hexadecimal 0 info.addressStart ++ bytes "\n"]]

/-- The calls of `gen_conf_vms`, from the VM with the index `i` on. -/
def vmsCalls (behind : Nat → CString) : Nat → List VmGroup → List (VmText × VmsInfo) → List CatCall
  | i, vm :: vms, (u, info) :: us => vmCalls (behind i) vm u info ++ vmsCalls behind (i + 1) vms us
  | _, _, _ => []

/-- The buffer `app_list`, to which `strncat` adds up to 128 bytes of each name and a space. -/
def appListText (names : List String) : CString :=
  names.flatMap fun name => (bytes name).take 128 ++ bytes " "

/-- `write_vm_number` -/
def writeVmNumber (vmCount : Nat) (appList : CString) : List CatCall :=
  [stringsCat [bytes "/* Virtual Machine names: ", appList, bytes " */\n"],
    stringsCat [bytes "#define NVMACHINES ", decimal vmCount, bytes "\n"]]

/-- The groups of an input file. -/
structure Configuration where
  system : SystemGroup
  virtualMachines : Option (List VmGroup)

/-- The calls of `strings_cat` for a configuration that is accepted.  `behind` is the memory behind
`app_name` while a VM is written. -/
def genconf (p : Platform) (behind : Nat → CString) (cfg : Configuration) :
    Except String (List CatCall) := do
  let system ← genSystemConfiguration cfg.system
  let g ← genConfVms p cfg.virtualMachines
  let vms := cfg.virtualMachines.getD []
  return system ++ vmsCalls behind 0 vms (g.vmconf.zip g.vmsInfo) ++
    writeVmNumber vms.length (appListText g.appList)

/-! ### What the header is to be -/

/-- The names of the VMs that are built with the hypervisor. -/
def vmNames (vms : List VmGroup) : List String :=
  (vms.filter fun vm => vm.osType ≠ some "LINUX").map fun vm => vm.appName.getD ""

/-- The line with the names of the VMs and the one with their number. -/
def namesLine (vms : List VmGroup) : CString :=
  bytes "/* Virtual Machine names: " ++
    ((vmNames vms).flatMap fun name => bytes name ++ bytes " ") ++ bytes " */\n"

def numberLine (vms : List VmGroup) : CString :=
  bytes "#define NVMACHINES " ++ decimal vms.length ++ bytes "\n"

structure HeaderComplete (vms : List VmGroup) (calls : List CatCall) : Prop where
  complete : ∀ c ∈ calls, c.Complete
  names : ∃ c ∈ calls, c.dest = namesLine vms
  number : ∃ c ∈ calls, c.dest = numberLine vms

/-- The number of decimal digits. -/
def digits (n : UInt32) : Nat := (Nat.toDigits 10 n.toNat).length

/-- The strings of a VM leave room for what goes with them. -/
structure VmFits (p : Platform) (vm : VmGroup) : Prop where
  appName : (vm.appName.getD "").utf8ByteSize + digits (codeSize p vm (flashSize vm)) +
    digits (ramSize vm) ≤ 110
  osType : (vm.osType.getD "").utf8ByteSize ≤ 114
  devices : ∀ device ∈ vm.deviceMapping.getD [], device.utf8ByteSize ≤ 104
  coherency : vm.memoryMaps.getD [] ≠ [] → (vm.coherency.getD "UNCACHED").utf8ByteSize ≤ 111

structure HeaderFits (p : Platform) (cfg : Configuration) : Prop where
  debug : ∀ flag ∈ cfg.system.debug.getD [], flag.utf8ByteSize ≤ 118
  vms : ∀ vm ∈ cfg.virtualMachines.getD [], VmFits p vm
  names : ((vmNames (cfg.virtualMachines.getD [])).map fun name => name.utf8ByteSize + 1).sum ≤ 97

/-! ### One call -/

theorem toInt_add_length {total : Int32} {n : Nat} (hlow : 0 ≤ total.toInt)
    (hroom : total.toInt + n ≤ 128) : (total + Int32.ofNat n).toInt = total.toInt + n := by
  have hn : (Int32.ofNat n).toInt = n := Int32.toInt_ofNat_of_lt (by omega)
  rw [Int32.toInt_add, hn]
  exact Int.bmod_eq_of_le (by omega) (by omega)

/-- Strings that have room are all appended. -/
theorem stringsCatLoop_all {total : Int32} {arguments : List CString} (hlow : 0 ≤ total.toInt)
    (hroom : total.toInt + arguments.flatten.length ≤ 128) :
    stringsCatLoop STRSZ total arguments = arguments := by
  induction arguments generalizing total with
  | nil => rfl
  | cons c arguments ih =>
    rw [List.flatten_cons, List.length_append, Nat.cast_add] at hroom
    have htotal := toInt_add_length hlow (n := c.length) (by omega)
    have hfits : ¬STRSZ < total + Int32.ofNat c.length := by
      rw [Int32.lt_iff_toInt_lt, htotal, show STRSZ.toInt = 128 from rfl]
      omega
    rw [stringsCatLoop, if_neg hfits, ih (by omega) (by omega)]

theorem complete_iff (arguments : List CString) :
    (stringsCat arguments).Complete ↔ arguments.flatten.length < 128 := by
  constructor
  · rintro ⟨hstored, happended⟩
    rw [CatCall.stored, CatCall.dest, happended] at hstored
    exact Nat.lt_of_succ_le ((Nat.le_max_right _ _).trans hstored)
  · intro hroom
    have hzero : (0 : Int32).toInt + arguments.flatten.length ≤ 128 := by
      rw [Int32.toInt_zero]
      omega
    have hall : (stringsCat arguments).appended = arguments :=
      stringsCatLoop_all (le_refl _) hzero
    refine ⟨?_, hall⟩
    rw [CatCall.stored, CatCall.dest, hall]
    exact max_le (le_refl _) hroom

/-- A call with a string between two others. -/
theorem complete_between (a b c : CString) :
    (stringsCat [a, b, c]).Complete ↔ a.length + b.length + c.length ≤ 127 := by
  rw [complete_iff]
  simp only [List.flatten_cons, List.flatten_nil, List.length_append, List.length_nil]
  omega

theorem length_bytes (s : String) : (bytes s).length = s.utf8ByteSize := rfl

/-- A string of the configuration between two of the generator. -/
theorem complete_string {before after : String} {k : Nat} (s : String)
    (hk : before.utf8ByteSize + after.utf8ByteSize + k = 127) :
    (stringsCat [bytes before, bytes s, bytes after]).Complete ↔ s.utf8ByteSize ≤ k := by
  rw [complete_between, length_bytes, length_bytes, length_bytes]
  omega

/-- A number between two strings of the generator has room. -/
theorem complete_short {a b c : CString} (hb : b.length ≤ 14) (hac : a.length + c.length ≤ 113) :
    (stringsCat [a, b, c]).Complete := by
  rw [complete_between]
  omega

theorem CatCall.Complete.dest {c : CatCall} (h : c.Complete) : c.dest = c.arguments.flatten := by
  rw [CatCall.dest, h.appended]

theorem length_appName_le_iff {name : String} {behind : CString} {k : Nat} (hk : k < 128) :
    (appName name behind).length ≤ k ↔ name.utf8ByteSize ≤ k := by
  rw [appName]
  split_ifs with hlt
  · rw [length_bytes]
  · rw [length_bytes] at hlt
    rw [List.length_append, List.length_take, length_bytes, Nat.min_eq_left (Nat.le_of_not_lt hlt)]
    omega

/-! ### The length of a number -/

theorem length_decimal_natCast (n : Nat) : (decimal n).length = (Nat.toDigits 10 n).length := by
  rw [decimal, if_neg (by omega), List.nil_append, List.length_map, Int.natAbs_natCast]

theorem length_decimal_le {i : Int} (h : i.natAbs < 10 ^ 10) : (decimal i).length ≤ 11 := by
  have hdigits := (Nat.length_toDigits_le_iff (b := 10) (by decide) (by decide)).mpr h
  rw [decimal, List.length_map, List.length_append]
  split_ifs
  · rw [List.length_singleton]
    omega
  · rw [List.length_nil]
    omega

theorem length_decimal_toInt (i : Int32) : (decimal i.toInt).length ≤ 11 := by
  have hlow := i.le_toInt
  have hhigh := i.toInt_lt
  exact length_decimal_le (by omega)

theorem length_hexadecimal (width : Nat) (n : UInt32) : (hexadecimal width n).length =
    2 + max width (Nat.toDigits 16 n.toNat).length := by
  rw [hexadecimal, List.length_append, List.length_map, List.length_append, List.length_replicate,
    show (bytes "0x").length = 2 from rfl]
  omega

theorem length_hexadecimal_le (n : UInt32) : (hexadecimal 5 n).length ≤ 10 := by
  have hdigits := (Nat.length_toDigits_le_iff (b := 16) (k := 8) (by decide) (by decide)).mpr
    n.toNat_lt
  rw [length_hexadecimal]
  omega

/-- An address with eight digits. -/
theorem length_hexadecimal_address {n : UInt32} (h : 2 ^ 28 ≤ n.toNat) :
    (hexadecimal 0 n).length = 10 := by
  have hle := (Nat.length_toDigits_le_iff (b := 16) (k := 8) (by decide) (by decide)).mpr n.toNat_lt
  have hgt := mt (Nat.length_toDigits_le_iff (b := 16) (k := 7) (by decide) (by decide)).mp
    (Nat.not_lt.mpr h)
  rw [length_hexadecimal]
  omega

/-! ### The addresses of the code -/

variable {p : Platform} {g g' : GenVms} {vm : VmGroup} {vms l : List VmGroup}

/-- What the code of a VM asks for: the page of its entry for flash memory, if it has one. -/
def codeRequest (p : Platform) (vm : VmGroup) : Request where
  page := if vm.flashSizeBytes = none then 1 else pageSizeOf (flashSize vm)
  size := (codeSize p vm (flashSize vm)).toNat

def codeAreas (p : Platform) (l : List VmGroup) : List Request := l.map (codeRequest p)

theorem codeStart_eq (p : Platform) (vm : VmGroup) (addr : Nat) :
    codeStart vm addr = alignUp (codeRequest p vm).page addr := by
  rw [codeStart, codeRequest]
  dsimp only
  split_ifs
  · exact (alignUp_of_dvd Nat.one_pos (one_dvd addr)).symm
  · rfl

theorem VmParts.Of.codeRequest {v : VmParts} {page : MemSizesDef} {dual : Bool}
    (hv : v.Of p g vm g' page dual) : 0 < (Config.codeRequest p vm).page ∧
      (Config.codeRequest p vm).page ∣ 2 ^ 24 ∧ (Config.codeRequest p vm).size ≤ 2 ^ 25 ∧
      codeSize p vm v.flash.2.1 = codeSize p vm (flashSize vm) := by
  rcases genFlash_ok hv.flash with ⟨hnone, rfl, -⟩ | ⟨page', dual', entry, hsome, hpage, hflash, -⟩
  · rw [Config.codeRequest, if_pos hnone]
    exact ⟨Nat.one_pos, one_dvd _, hv.ramPage.size_le, rfl⟩
  · rw [Config.codeRequest, if_neg hsome, hpage.pageSizeOf, hflash]
    refine ⟨hpage.pos, hpage.dvd (le_refl _), ?_, rfl⟩
    cases p with
    | pic32mz => exact hpage.size_le
    | baikalT1 => exact hv.ramPage.size_le

/-- The addresses of the code behind the VMs `l`. -/
structure CodePlaced (p : Platform) (l : List VmGroup) (g : GenVms) : Prop where
  placed : Placed p l g
  requests : ∀ r ∈ codeAreas p l, 0 < r.page ∧ r.page ∣ 2 ^ 24 ∧ r.size ≤ 2 ^ 25
  code : g.vmCodeInterAddr.toNat = finish (codeBase p) (codeAreas p l)

/-- The next VM has its code between the base and the end of the address space. -/
theorem CodePlaced.step {v : VmParts} {page : MemSizesDef} {dual : Bool} (h : CodePlaced p l g)
    (hok : genConfVm p g vm = .ok g') (hv : v.Of p g vm g' page dual) :
    CodePlaced p (l ++ [vm]) g' ∧ 2 ^ 28 ≤ v.flash.2.2.toNat := by
  obtain ⟨hpos, hdvd, hsize, hcode⟩ := hv.codeRequest
  have hrequests :
      ∀ r ∈ codeAreas p (l ++ [vm]), 0 < r.page ∧ r.page ∣ 2 ^ 24 ∧ r.size ≤ 2 ^ 25 := by
    rw [codeAreas, List.map_append, List.map_singleton, List.forall_mem_append,
      List.forall_mem_singleton]
    exact ⟨h.requests, hpos, hdvd, hsize⟩
  have hbound : ∀ {m : List VmGroup}, (∀ r ∈ codeAreas p m, 0 < r.page ∧ r.page ∣ 2 ^ 24 ∧
      r.size ≤ 2 ^ 25) → finish (codeBase p) (codeAreas p m) ≤
        alignUp (2 ^ 24) (codeBase p) + m.length * 2 ^ 25 := by
    intro m hm
    have hspace := finish_le (by decide) (by decide) (fun r hr => (hm r hr).2) (codeBase p)
    rwa [codeAreas, List.length_map] at hspace
  have hroom : alignUp (2 ^ 24) (codeBase p) + (l.length + 1) * 2 ^ 25 < 2 ^ 32 := by
    obtain ⟨-, hdata, hflash⟩ := h.placed.bound (genConfVm_ok hok)
    cases p with
    | pic32mz =>
      have hle := hflash rfl
      omega
    | baikalT1 => exact hdata
  have hbefore := hbound h.requests
  have hafter := hbound hrequests
  have hstart : v.flash.2.2.toNat =
      start (codeBase p) (codeAreas p l) (Config.codeRequest p vm) := by
    rw [genFlash_start hv.flash (by rw [h.code]; omega), codeStart_eq p, h.code, start]
  have hend : start (codeBase p) (codeAreas p l) (Config.codeRequest p vm) +
      (Config.codeRequest p vm).size = finish (codeBase p) (codeAreas p (l ++ [vm])) := by
    rw [codeAreas, codeAreas, List.map_append, List.map_singleton, finish_append]
  rw [List.length_append, List.length_singleton] at hafter
  refine ⟨⟨h.placed.step hok, hrequests, ?_⟩, ?_⟩
  · rw [hv.result, UInt32.toNat_add, hcode, hstart, Nat.mod_eq_of_lt]
    · exact hend
    · rw [show (codeSize p vm (flashSize vm)).toNat = (Config.codeRequest p vm).size from rfl, hend]
      omega
  · have hlow : 2 ^ 28 ≤ codeBase p := by cases p <;> decide
    have hle := le_finish (fun r hr => (h.requests r hr).1) (codeBase p)
    rw [hstart]
    exact (hlow.trans hle).trans (le_alignUp hpos _)

/-! ### The entries of a VM -/

/-- The entry `t` is for an area of `size` bytes. -/
def IsArea (size : UInt32) (coherency : String) (t : TlbText) : Prop :=
  ∃ page dual start va, PageOf size page dual ∧ IsEntry t size start va coherency

/-- The areas of a VM that have TLB entries, each with its coherency. -/
def tlbAreas (vm : VmGroup) : List (UInt32 × String) :=
  (ramSize vm, "WRITE_BACK") ::
    (if vm.flashSizeBytes = none then [] else [(flashSize vm, "WRITE_BACK")]) ++
    (vm.memoryMaps.getD []).map fun mm => (mapSize mm, vm.coherency.getD "UNCACHED")

theorem tlbSizes_eq (vm : VmGroup) : tlbSizes vm = (tlbAreas vm).map Prod.fst := by
  rw [tlbSizes, tlbAreas, List.map_append, List.map_cons, List.map_map]
  split_ifs <;> rfl

theorem PageOf.length_name_le {size : UInt32} {page : MemSizesDef} {dual : Bool}
    (h : PageOf size page dual) : page.name.utf8ByteSize ≤ 14 := by
  have hall : ∀ d ∈ PageSizes, d.name.utf8ByteSize ≤ 14 := by decide
  have hselect := h.select
  unfold selectPageMask at hselect
  split at hselect
  next d hfind =>
    obtain ⟨rfl, -⟩ := Prod.mk.inj (Option.some.inj hselect)
    exact hall d (List.mem_of_find?_eq_some hfind)
  next =>
    split at hselect
    next d hfind =>
      obtain ⟨rfl, -⟩ := Prod.mk.inj (Option.some.inj hselect)
      exact hall d (List.mem_of_find?_eq_some hfind)
    next => cases hselect

/-- Of the lines of an entry only the one with the coherency can be too long. -/
theorem calls_complete_iff {size : UInt32} {coherency : String} {t : TlbText}
    (h : IsArea size coherency t) :
    (∀ c ∈ t.calls size, c.Complete) ↔ coherency.utf8ByteSize ≤ 111 := by
  obtain ⟨page, dual, start, va, hpage, hentry⟩ := h
  have hnumber : ∀ n, (hexadecimal 5 n).length ≤ 14 :=
    fun n => (length_hexadecimal_le n).trans (by decide)
  have hmask : (bytes t.pagemask).length ≤ 14 := by
    rw [length_bytes, hentry.pagemask hpage]
    exact hpage.length_name_le
  have hsecond : ∀ c ∈ (if (selectPageMask size).any Prod.snd then
      [stringsCat [bytes "\t\t\t\tentrylo1: ", hexadecimal 5 t.entrylo1, bytes ",\n"]] else []),
      c.Complete := by
    split_ifs
    · exact List.forall_mem_singleton.mpr (complete_short (hnumber _) (by decide))
    · exact fun _ hc => absurd hc List.not_mem_nil
  rw [TlbText.calls, List.forall_mem_append, List.forall_mem_append, List.forall_mem_singleton,
    List.forall_mem_cons, List.forall_mem_cons, List.forall_mem_singleton, hentry.coherency,
    complete_string (k := 111) coherency (by decide)]
  constructor
  · exact fun hall => hall.2.2.2
  · intro hroom
    exact ⟨⟨complete_short (hnumber _) (by decide), hsecond⟩, complete_short hmask (by decide),
      complete_short (hnumber _) (by decide), hroom⟩

/-- The lines of all entries of a VM. -/
theorem tlbCalls_complete_iff {areas : List (UInt32 × String)} {tlb : List TlbText}
    (h : List.Forall₂ (fun x t => IsArea x.1 x.2 t) areas tlb) :
    (∀ c ∈ (List.zipWith TlbText.calls (areas.map Prod.fst) tlb).flatten, c.Complete) ↔
      ∀ x ∈ areas, x.2.utf8ByteSize ≤ 111 := by
  induction h with
  | nil => simp
  | cons harea _ ih =>
    rw [List.map_cons, List.zipWith_cons_cons, List.flatten_cons, List.forall_mem_append, ih,
      calls_complete_iff harea, List.forall_mem_cons]

theorem writeBack_fits : "WRITE_BACK".utf8ByteSize ≤ 111 := by decide

theorem tlbAreas_fit_iff (vm : VmGroup) : (∀ x ∈ tlbAreas vm, x.2.utf8ByteSize ≤ 111) ↔
    (vm.memoryMaps.getD [] ≠ [] → (vm.coherency.getD "UNCACHED").utf8ByteSize ≤ 111) := by
  have hflash : ∀ x ∈ (if vm.flashSizeBytes = none then [] else [(flashSize vm, "WRITE_BACK")]),
      x.2.utf8ByteSize ≤ 111 := by
    split_ifs
    · exact fun _ hx => absurd hx List.not_mem_nil
    · exact List.forall_mem_singleton.mpr writeBack_fits
  rw [tlbAreas, List.forall_mem_append, List.forall_mem_cons, List.forall_mem_map]
  constructor
  · rintro ⟨-, hmaps⟩ hne
    obtain ⟨mm, hmm⟩ := List.exists_mem_of_ne_nil _ hne
    exact hmaps mm hmm
  · exact fun hcoherency => ⟨⟨writeBack_fits, hflash⟩, fun mm hmm =>
      hcoherency (List.ne_nil_of_mem hmm)⟩

/-! ### One virtual machine -/

/-- What the generator writes as `u` and `info` for the group `vm`. -/
structure WritesVm (p : Platform) (vm : VmGroup) (u : VmText) (info : VmsInfo) : Prop where
  appName : vm.appName = some u.vmName
  osType : vm.osType = some u.osType
  priority : u.priority = vmPriority vm.priority
  devices : u.devices = vm.deviceMapping.getD []
  tlb : List.Forall₂ (fun x t => IsArea x.1 x.2 t) (tlbAreas vm) u.tlb
  infoName : info.appName = u.vmName
  codeSize : info.codeSize = codeSize p vm (flashSize vm)
  ramSize : info.ramSize = ramSize vm
  address : 2 ^ 28 ≤ info.addressStart.toNat

theorem VmParts.Of.areas {v : VmParts} {page : MemSizesDef} {dual : Bool}
    (hv : v.Of p g vm g' page dual) :
    List.Forall₂ (fun x t => IsArea x.1 x.2 t) (tlbAreas vm) (v.ram :: v.flash.1 ++ v.maps) := by
  have hmaps : List.Forall₂ (fun x t => IsArea x.1 x.2 t)
      ((vm.memoryMaps.getD []).map fun mm => (mapSize mm, vm.coherency.getD "UNCACHED"))
        v.maps := by
    refine List.forall₂_map_left_iff.mpr (hv.maps.imp fun mm t hmm => ?_)
    obtain ⟨baseAddr, str, page, dual, -, hstr, hpage, hentry⟩ := hmm.entry
    rw [show str = mm.pageSize.getD "" by rw [hstr, Option.getD_some]] at hpage hentry
    exact ⟨page, dual, _, _, hpage, hentry⟩
  refine List.rel_append (List.Forall₂.cons ⟨page, dual, _, _, hv.ramPage, hv.ram⟩ ?_) hmaps
  rcases genFlash_ok hv.flash with ⟨hnone, -, hnil⟩ | ⟨page', dual', entry, hsome, hpage, hflash,
    hentry⟩
  · rw [if_pos hnone, hnil]
    exact .nil
  · rw [if_neg hsome, hflash]
    exact .cons ⟨page', dual', _, _, hpage, hentry⟩ .nil

theorem vmPriority_le (priority : Option UInt32) : (vmPriority priority).toNat ≤ 255 := by
  unfold vmPriority
  split
  next => decide
  next value =>
    split_ifs with hbig
    · decide
    · exact UInt32.le_iff_toNat_le.mp (UInt32.not_lt.mp hbig)

theorem digits_le (n : UInt32) : digits n ≤ 10 :=
  (Nat.length_toDigits_le_iff (by decide) (by decide)).mpr (n.toNat_lt.trans (by decide))

/-- The line of `vms.info`. -/
theorem infoCall_complete_iff {u : VmText} {info : VmsInfo} (h : WritesVm p vm u info)
    (behind : CString) : (stringsCat [appName info.appName behind, bytes " \t",
      decimal info.codeSize.toNat ++ bytes " \t" ++ decimal info.ramSize.toNat ++ bytes " \t" ++
        hexadecimal 0 info.addressStart ++ bytes "\n"]).Complete ↔
      u.vmName.utf8ByteSize + digits (Config.codeSize p vm (flashSize vm)) +
        digits (Config.ramSize vm) ≤ 110 := by
  have hcode := digits_le (Config.codeSize p vm (flashSize vm))
  have hram := digits_le (Config.ramSize vm)
  have hname : (appName u.vmName behind).length ≤
      110 - digits (Config.codeSize p vm (flashSize vm)) - digits (Config.ramSize vm) ↔
        u.vmName.utf8ByteSize ≤
          110 - digits (Config.codeSize p vm (flashSize vm)) - digits (Config.ramSize vm) :=
    length_appName_le_iff (by omega)
  rw [complete_between, h.infoName, h.codeSize, h.ramSize, List.length_append, List.length_append,
    List.length_append, List.length_append, List.length_append,
    length_hexadecimal_address h.address, length_decimal_natCast, length_decimal_natCast,
    show (bytes " \t").length = 2 from rfl, show (bytes "\n").length = 1 from rfl,
    ← digits, ← digits]
  omega

theorem vmCalls_complete_iff {u : VmText} {info : VmsInfo} (h : WritesVm p vm u info)
    (behind : CString) : (∀ c ∈ vmCalls behind vm u info, c.Complete) ↔ VmFits p vm := by
  have hpriority : (stringsCat [bytes "\t\tpriority: ", decimal u.priority.toNat,
      bytes ",\n"]).Complete := by
    have hle := vmPriority_le vm.priority
    have hlength := length_decimal_le (i := u.priority.toNat) (by rw [h.priority]; omega)
    exact complete_short (by omega) (by decide)
  have hname : (stringsCat [bytes "\t\tvm_name: \"", appName u.vmName behind,
      bytes "\",\n"]).Complete ↔ u.vmName.utf8ByteSize ≤ 112 := by
    have hle : (appName u.vmName behind).length ≤ 112 ↔ u.vmName.utf8ByteSize ≤ 112 :=
      length_appName_le_iff (by decide)
    rw [complete_between, ← hle, show (bytes "\t\tvm_name: \"").length = 12 from rfl,
      show (bytes "\",\n").length = 3 from rfl]
    omega
  have hdevices : (∀ c ∈ u.devices.flatMap deviceCalls, c.Complete) ↔
      ∀ device ∈ vm.deviceMapping.getD [], device.utf8ByteSize ≤ 104 := by
    rw [List.forall_mem_flatMap, h.devices]
    refine forall₂_congr fun device _ => ?_
    rw [deviceCalls, List.forall_mem_cons, List.forall_mem_singleton,
      complete_string (k := 104) device (by decide), complete_string (k := 110) device (by decide)]
    omega
  rw [vmCalls, List.forall_mem_append, List.forall_mem_append, List.forall_mem_append,
    List.forall_mem_cons, List.forall_mem_cons, List.forall_mem_singleton,
    List.forall_mem_singleton, hname, complete_string (k := 114) u.osType (by decide), hdevices,
    tlbSizes_eq, tlbCalls_complete_iff h.tlb, tlbAreas_fit_iff, infoCall_complete_iff h]
  constructor
  · rintro ⟨⟨⟨⟨-, hos, -⟩, hdev⟩, htlb⟩, hinfo⟩
    refine ⟨?_, ?_, hdev, htlb⟩
    · rwa [h.appName, Option.getD_some]
    · rwa [h.osType, Option.getD_some]
  · intro hfits
    have hinfo := hfits.appName
    have hos := hfits.osType
    rw [h.appName, Option.getD_some] at hinfo
    rw [h.osType, Option.getD_some] at hos
    exact ⟨⟨⟨⟨by omega, hos, hpriority⟩, hfits.devices⟩, hfits.coherency⟩, hinfo⟩

/-! ### All virtual machines -/

/-- What the generator has written for the VMs `l`. -/
structure WritesVms (p : Platform) (l : List VmGroup) (g : GenVms) : Prop where
  code : CodePlaced p l g
  length : g.vmconf.length = g.vmsInfo.length
  names : g.appList = vmNames l
  vms : List.Forall₂ (fun vm x => WritesVm p vm x.1 x.2) l (g.vmconf.zip g.vmsInfo)

theorem WritesVms.step (h : WritesVms p l g) (hok : genConfVm p g vm = .ok g') :
    WritesVms p (l ++ [vm]) g' := by
  obtain ⟨v, page, dual, hv⟩ := genConfVm_parts hok
  obtain ⟨hcode, haddress⟩ := h.code.step hok hv
  have hwrites : WritesVm p vm (v.text p vm (calculateMemBase page g.vmDataInterAddr))
      (v.info p vm) :=
    ⟨hv.appName, hv.osType, rfl, rfl, hv.areas, rfl, hv.codeRequest.2.2.2, rfl, haddress⟩
  refine ⟨hcode, ?_, ?_, ?_⟩
  · rw [hv.result, List.length_append, List.length_append, h.length]
    rfl
  · rw [hv.result, vmNames, List.filter_append, List.map_append, h.names]
    by_cases hlinux : v.osType = "LINUX"
    · rw [if_neg (not_not.mpr hlinux)]
      simp [vmNames, hv.osType, hlinux]
    · rw [if_pos hlinux]
      simp [vmNames, hv.osType, hlinux, hv.appName]
  · rw [hv.result, List.zip_append h.length, List.zip_cons_cons, List.zip_nil_left]
    exact forall₂_concat_iff.mpr ⟨h.vms, hwrites⟩

theorem genConfVms_writes (h : genConfVms p (some vms) = .ok g) : WritesVms p vms g := by
  refine foldlM_ok ?_ (fun _ _ _ _ => WritesVms.step) h
  exact ⟨⟨genConfVms_placed (genConfVms_nil p), fun _ hr => absurd hr List.not_mem_nil, rfl⟩, rfl,
    rfl, .nil⟩

theorem vmsCalls_complete_iff (behind : Nat → CString) (i : Nat)
    {us : List (VmText × VmsInfo)} (h : List.Forall₂ (fun vm x => WritesVm p vm x.1 x.2) vms us) :
    (∀ c ∈ vmsCalls behind i vms us, c.Complete) ↔ ∀ vm ∈ vms, VmFits p vm := by
  induction h generalizing i with
  | nil => simp [vmsCalls]
  | cons hvm _ ih =>
    rw [vmsCalls, List.forall_mem_append, vmCalls_complete_iff hvm, ih, List.forall_mem_cons]

/-! ### The header -/

theorem genSystemConfiguration_complete_iff {s : SystemGroup} {calls : List CatCall}
    (h : genSystemConfiguration s = .ok calls) :
    (∀ c ∈ calls, c.Complete) ↔ ∀ flag ∈ s.debug.getD [], flag.utf8ByteSize ≤ 118 := by
  rw [genSystemConfiguration] at h
  split_ifs at h
  obtain rfl := Except.ok.inj h
  -- a setting with a number
  have hnumber : ∀ {before after : CString} (value : Option Int32),
      before.length + after.length ≤ 113 → ∀ c ∈ (value.map fun value =>
        stringsCat [before, decimal value.toInt, after]).toList, c.Complete := by
    intro before after value hroom c hc
    obtain ⟨value, -, rfl⟩ := Option.map_eq_some_iff.mp (Option.mem_toList.mp hc)
    exact complete_short ((length_decimal_toInt value).trans (by decide)) hroom
  have hmilisecond : (stringsCat [bytes "#define MILISECOND ", bytes "(", bytes "(CPU_FREQ/2)",
      bytes "/ 1000)", bytes "\n"]).Complete := (complete_iff _).mpr (by decide)
  simp only [List.forall_mem_append, List.forall_mem_singleton, List.forall_mem_map]
  constructor
  · rintro ⟨⟨⟨⟨hdebug, -⟩, -⟩, -⟩, -⟩ flag hflag
    exact (complete_string flag (by decide)).mp (hdebug flag hflag)
  · intro hdebug
    exact ⟨⟨⟨⟨fun flag hflag =>
      (complete_string (k := 118) flag (by decide)).mpr (hdebug flag hflag), hmilisecond⟩,
        hnumber _ (by decide)⟩, hnumber _ (by decide)⟩, hnumber _ (by decide)⟩

/-- Names that fit `app_name` are in the list of names as they are. -/
theorem appListText_eq {names : List String} (h : ∀ name ∈ names, name.utf8ByteSize < 128) :
    appListText names = names.flatMap fun name => bytes name ++ bytes " " := by
  refine List.flatMap_congr fun name hname => ?_
  have hlt := h name hname
  rw [← length_bytes] at hlt
  rw [List.take_of_length_le (Nat.le_of_lt hlt)]

theorem length_names (names : List String) :
    (names.flatMap fun name => bytes name ++ bytes " ").length =
      (names.map fun name => name.utf8ByteSize + 1).sum := by
  rw [List.length_flatMap]
  refine congrArg List.sum (List.map_congr_left fun name _ => ?_)
  rw [List.length_append, length_bytes]
  rfl

theorem VmFits.names_lt (h : ∀ vm ∈ vms, VmFits p vm) :
    ∀ name ∈ vmNames vms, name.utf8ByteSize < 128 := by
  intro name hname
  obtain ⟨vm, hvm, rfl⟩ := List.mem_map.mp hname
  have hfits := (h vm (List.mem_of_mem_filter hvm)).appName
  omega

/-- The two lines that `write_vm_number` puts together, where the names fit `app_name`. -/
theorem writeVmNumber_complete_iff (hnames : ∀ name ∈ vmNames vms, name.utf8ByteSize < 128)
    (hlength : vms.length ≤ 63) :
    (∀ c ∈ writeVmNumber vms.length (appListText (vmNames vms)), c.Complete) ↔
      ((vmNames vms).map fun name => name.utf8ByteSize + 1).sum ≤ 97 := by
  have hnumber : (stringsCat [bytes "#define NVMACHINES ", decimal vms.length,
      bytes "\n"]).Complete := by
    have hle := length_decimal_le (i := vms.length) (by omega)
    exact complete_short (by omega) (by decide)
  rw [writeVmNumber, List.forall_mem_cons, List.forall_mem_singleton, and_iff_left hnumber,
    complete_between, appListText_eq hnames, length_names,
    show (bytes "/* Virtual Machine names: ").length = 26 from rfl,
    show (bytes " */\n").length = 4 from rfl]
  omega

theorem writeVmNumber_lines (hnames : ∀ name ∈ vmNames vms, name.utf8ByteSize < 128)
    (h : ∀ c ∈ writeVmNumber vms.length (appListText (vmNames vms)), c.Complete) :
    ∃ names number, writeVmNumber vms.length (appListText (vmNames vms)) = [names, number] ∧
      names.dest = namesLine vms ∧ number.dest = numberLine vms := by
  rw [writeVmNumber, List.forall_mem_cons, List.forall_mem_singleton] at h
  refine ⟨_, _, rfl, ?_, ?_⟩
  · rw [h.1.dest, namesLine, ← appListText_eq hnames]
    simp [stringsCat]
  · rw [h.2.dest, numberLine]
    simp [stringsCat]

/-- The calls for a configuration that is accepted. -/
theorem genconf_ok {behind : Nat → CString} {cfg : Configuration} {calls : List CatCall}
    (h : genconf p behind cfg = .ok calls) :
    ∃ system vms g, cfg.virtualMachines = some vms ∧ WritesVms p vms g ∧
      genSystemConfiguration cfg.system = .ok system ∧
      calls = system ++ vmsCalls behind 0 vms (g.vmconf.zip g.vmsInfo) ++
        writeVmNumber vms.length (appListText (vmNames vms)) := by
  rw [genconf] at h
  obtain ⟨system, hsystem, h⟩ := bind_ok.mp h
  obtain ⟨g, hgen, h⟩ := bind_ok.mp h
  obtain rfl := Except.ok.inj h
  cases hvms : cfg.virtualMachines with
  | none =>
    rw [hvms] at hgen
    cases hgen
  | some vms =>
    rw [hvms] at hgen
    have hwrites := genConfVms_writes hgen
    exact ⟨system, vms, g, rfl, hwrites, hsystem, by rw [hwrites.names, Option.getD_some]⟩

/-- The header is complete exactly when the strings of the configuration leave room. -/
theorem header_complete_iff (p : Platform) (behind : Nat → CString) (cfg : Configuration)
    (calls : List CatCall) (h : genconf p behind cfg = .ok calls) :
    HeaderComplete (cfg.virtualMachines.getD []) calls ↔ HeaderFits p cfg := by
  obtain ⟨system, vms, g, hcfg, hwrites, hsystem, rfl⟩ := genconf_ok h
  have hlength := hwrites.code.placed.length_le.1
  have hdebug := genSystemConfiguration_complete_iff hsystem
  have hvms := vmsCalls_complete_iff behind 0 hwrites.vms
  rw [hcfg, Option.getD_some]
  constructor
  · rintro ⟨hcomplete, -, -⟩
    rw [List.forall_mem_append, List.forall_mem_append] at hcomplete
    obtain ⟨⟨hsystem, hall⟩, hlast⟩ := hcomplete
    have hfits := hvms.mp hall
    refine ⟨hdebug.mp hsystem, ?_, ?_⟩
    · rwa [hcfg, Option.getD_some]
    · rw [hcfg, Option.getD_some]
      exact (writeVmNumber_complete_iff (VmFits.names_lt hfits) hlength).mp hlast
  · rintro ⟨hflags, hfits, hnames⟩
    rw [hcfg, Option.getD_some] at hfits hnames
    have hlt := VmFits.names_lt hfits
    have hlast := (writeVmNumber_complete_iff hlt hlength).mpr hnames
    obtain ⟨names, number, hlines, hnamesLine, hnumberLine⟩ := writeVmNumber_lines hlt hlast
    rw [hlines] at hlast ⊢
    refine ⟨?_, ⟨names, List.mem_append_right _ List.mem_cons_self, hnamesLine⟩, number, ?_,
      hnumberLine⟩
    · rw [List.forall_mem_append, List.forall_mem_append]
      exact ⟨⟨hdebug.mpr hflags, hvms.mpr hfits⟩, hlast⟩
    · exact List.mem_append_right _ (List.mem_cons_of_mem _ List.mem_cons_self)

/-- The system group of the samples. -/
def sampleSystem : SystemGroup where
  debug := some ["WARNINGS", "INFOS", "ERRORS"]
  uartSpeed := some 115200
  schedulerQuantumMs := some 5
  guestQuantumMs := some 1

theorem header_complete_pingPong :
    ∃ calls, genconf .pic32mz (fun _ => []) ⟨sampleSystem, some pingPongGroups⟩ = .ok calls ∧
      HeaderComplete pingPongGroups calls := by
  have hbuild : (genconf .pic32mz (fun _ => [])
      ⟨sampleSystem, some pingPongGroups⟩).toOption.isSome := by
    decide +kernel
  obtain ⟨calls, hcalls⟩ := Option.isSome_iff_exists.mp hbuild
  have hgen := ok_of_toOption hcalls
  refine ⟨calls, hgen, (header_complete_iff .pic32mz (fun _ => [])
    ⟨sampleSystem, some pingPongGroups⟩ calls hgen).mpr ⟨by decide, ?_, by decide⟩⟩
  rw [Option.getD_some, pingPongGroups, List.forall_mem_cons, List.forall_mem_singleton]
  exact ⟨⟨by decide, by decide, by decide, by decide⟩, by decide, by decide, by decide, by decide⟩

/-- Two VMs with names of fifty characters. -/
def longNames : List VmGroup :=
  [bareMetal "abcdefghijabcdefghijabcdefghijabcdefghijabcdefghij" "MEM_SIZE_32KB" "MEM_SIZE_32KB",
    bareMetal "klmnopqrstklmnopqrstklmnopqrstklmnopqrstklmnopqrst" "MEM_SIZE_32KB" "MEM_SIZE_32KB"]

/-- The comment with the names has no room for its end. -/
theorem names_truncated :
    ∃ calls, genconf .pic32mz (fun _ => []) ⟨sampleSystem, some longNames⟩ = .ok calls ∧
      ¬HeaderComplete longNames calls := by
  have hbuild : (genconf .pic32mz (fun _ => []) ⟨sampleSystem, some longNames⟩).toOption.any
      fun calls => calls.any fun c => c.appended ≠ c.arguments := by
    decide +kernel
  obtain ⟨calls, hcalls, hany⟩ := (Option.any_eq_true _ _).mp hbuild
  obtain ⟨c, hc, hne⟩ := List.any_eq_true.mp hany
  exact ⟨calls, ok_of_toOption hcalls, fun h => of_decide_eq_true hne (h.complete c hc).appended⟩

end PrplHypervisor.Config
