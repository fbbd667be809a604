import PrplHypervisor.Drivers.GuestBuffer
import PrplHypervisor.Drivers.VirtualInterrupts
import PrplHypervisor.Drivers.VirtualIo
import PrplHypervisor.Lib.Registry

/-! The table of hypercalls (`sys/kernel/hypercall.c`), the drivers that register in it when they
are initialized (`sys/kernel/driver.c`), and the execution of a hypercall.  The linker decides in
which order the drivers are initialized. -/

namespace PrplHypervisor.Drivers

open Arch Kernel Lib.Registry

def HCALL_TABLE_SIZE : UInt32 := 30
def HCALL_CODE_INVALID : Int := -1
def HCALL_CODE_USED : Int := -2
def HCALL_NOT_IMPLEMENTED : UInt32 := -3

def HCALL_GET_VM_ID : UInt32 := 0
def HCALL_IPC_RECV_MSG : UInt32 := 1
def HCALL_IPC_SEND_MSG : UInt32 := 2
def HCALL_GUEST_UP : UInt32 := 3
def HCALL_ETHERNET_WATCHDOG : UInt32 := 4
def HCALL_ETHERNET_SEND : UInt32 := 5
def HCALL_ETHERNET_RECV : UInt32 := 6
def HCALL_ETHERNET_GET_MAC : UInt32 := 7
def HCALL_USB_POLLING : UInt32 := 8
def HCALL_USB_GET_DESCRIPTOR : UInt32 := 9
def HCALL_USB_SEND_DATA : UInt32 := 10
def HCALL_WRITE_ADDRESS : UInt32 := 11
def HCALL_READ_ADDRESS : UInt32 := 12
def HCALL_REENABLE_INTERRUPT : UInt32 := 13
def HCALL_FLASH_READ : UInt32 := 14
def HCALL_FLASH_WRITE : UInt32 := 15
def HCALL_PERFORMANCE_COUNTER_START : UInt32 := 16
def HCALL_PERFORMANCE_COUNTER_STOP : UInt32 := 17
def HCALL_UART_SEND : UInt32 := 18

/-- The functions that the drivers register.  No driver registers one for `HCALL_UART_RECV`. -/
inductive Hypercall
  | getVmId
  | intervmSendMsg
  | intervmRecvMsg
  | guestIsUp
  | writeAddress
  | readAddress
  | reenableInterrupt
  | flashRead
  | flashWrite
  | performanceCounterStart
  | performanceCounterStop
  | enWatchdog
  | enGetMac
  | sendFrame
  | receiveFrame
  | usbPolling
  | getDescriptor
  | usbSendData
  | uartSend
  deriving DecidableEq, Repr

/-- The drivers with hypercalls; each processor has a UART driver of its own. -/
inductive Driver
  | interVmComm
  | virtualIo
  | interruptRedirect
  | pufFlash
  | performanceCounter
  | ethernet
  | ethernetShared
  | usb
  | uart
  deriving DecidableEq, Repr

/-- `hypercall_table`.  A function is told by its driver and its name there. -/
abbrev HypercallTable := UInt32 → Option (Driver × Hypercall)

def registerHypercall (table : HypercallTable) (hyper : Driver × Hypercall) (code : UInt32) :
    Int × HypercallTable :=
  if code > HCALL_TABLE_SIZE - 1 then (HCALL_CODE_INVALID, table)
  else
    match table code with
    | some _ => (HCALL_CODE_USED, table)
    | none => (code.toNat, Function.update table code (some hyper))

/-- The init function of a driver registers its hypercalls and returns at the first error. -/
def registerHypercalls (table : HypercallTable) :
    List (UInt32 × (Driver × Hypercall)) → HypercallTable
  | [] => table
  | (code, hyper) :: l =>
    let (ret, table) := registerHypercall table hyper code
    if ret < 0 then table else registerHypercalls table l

/-- What the init functions find: an interrupt that the configuration redirects, and a PHY that
answers the Ethernet driver. -/
structure Found where
  redirects : Bool
  phy : Bool
  deriving DecidableEq, Repr

/-- What the init function of a driver registers, in its order.  The redirection driver registers
its hypercall only when an interrupt is redirected, and the Ethernet drivers theirs only when there
is a PHY. -/
def Driver.hypercalls (found : Found) : Driver → List (UInt32 × Hypercall)
  | .interVmComm => [(HCALL_GET_VM_ID, .getVmId), (HCALL_IPC_SEND_MSG, .intervmSendMsg),
      (HCALL_IPC_RECV_MSG, .intervmRecvMsg), (HCALL_GUEST_UP, .guestIsUp)]
  | .virtualIo => [(HCALL_WRITE_ADDRESS, .writeAddress), (HCALL_READ_ADDRESS, .readAddress)]
  | .interruptRedirect =>
    if found.redirects then [(HCALL_REENABLE_INTERRUPT, .reenableInterrupt)] else []
  | .pufFlash => [(HCALL_FLASH_READ, .flashRead), (HCALL_FLASH_WRITE, .flashWrite)]
  | .performanceCounter => [(HCALL_PERFORMANCE_COUNTER_START, .performanceCounterStart),
      (HCALL_PERFORMANCE_COUNTER_STOP, .performanceCounterStop)]
  | .ethernet | .ethernetShared =>
    if found.phy then
      [(HCALL_ETHERNET_WATCHDOG, .enWatchdog), (HCALL_ETHERNET_GET_MAC, .enGetMac),
        (HCALL_ETHERNET_SEND, .sendFrame), (HCALL_ETHERNET_RECV, .receiveFrame)]
    else []
  | .usb => [(HCALL_USB_POLLING, .usbPolling), (HCALL_USB_GET_DESCRIPTOR, .getDescriptor),
      (HCALL_USB_SEND_DATA, .usbSendData)]
  | .uart => [(HCALL_UART_SEND, .uartSend)]

/-- The entries of a driver in the table. -/
def Driver.entries (found : Found) (d : Driver) : List (UInt32 × (Driver × Hypercall)) :=
  (d.hypercalls found).map fun x => (x.1, (d, x.2))

/-- `drivers_initialization`, on the drivers in the order of the init table. -/
def driversInitialization (found : Found) (drivers : List Driver) : HypercallTable :=
  drivers.foldl (fun table d => registerHypercalls table (d.entries found)) fun _ => none

/-! ### Handlers -/

/-- What the memory of the guest and the devices answer during a hypercall. -/
structure Answers where
  buffer : Nat → UInt8
  word : UInt32 → UInt32
  sent : UInt32
  framesz : UInt32
  isUp : UInt32
  descriptorAvailable : UInt32
  idle : Bool
  flash : UInt32

def getVmId (p : Platform) (hv : Hv) : Except Fault Hv :=
  match hv.executing with
  | none => .error .nullPointer
  | some v => .ok (setGuestGPR p hv REG_V0 (hv.vcpus v).vm.id)

def guestIsUp (p : Platform) (hv : Hv) : Except Fault Hv := do
  let targetId := moveFromPreviousGuestGPR p hv.cpu REG_A0
  match ← getVcpuFromId hv targetId with
  | none => return setGuestGPR p hv REG_V0 MESSAGE_VCPU_NOT_FOUND
  | some v =>
    return setGuestGPR p hv REG_V0 (if (hv.vcpus v).init ≠ 0 then MESSAGE_VCPU_NOT_INIT else 1)

/-- `en_watchdog`, when the link of the device is found to be `isUp`. -/
def enWatchdogCall (p : Platform) (isUp : UInt32) (hv : Hv) : Hv := setGuestGPR p hv REG_V0 isUp

/-- `usb_polling`, with the flag that the state machines of the device leave. -/
def usbPollingCall (p : Platform) (descriptorAvailable : UInt32) (hv : Hv) : Hv :=
  setGuestGPR p hv REG_V0 descriptorAvailable

/-- `performance_counter_start`.  The counters are registers of the root. -/
def performanceCounterStart (p : Platform) (hv : Hv) : Hv := setGuestGPR p hv REG_V0 0

/-- The registered function on the hypervisor.  `vmconfP` is the array of the virtual I/O driver. -/
def Hypercall.handler (p : Platform) (vmconfP : List VmConf) (answers : Answers) (s : Virtual) :
    Hypercall → Except Fault Virtual
  | .getVmId => s.setHv <$> Drivers.getVmId p s.hv
  | .intervmSendMsg => s.setHv <$> (MappingCall.intervmSendMsg answers.buffer).handler p s.hv
  | .intervmRecvMsg => s.setHv <$> MappingCall.intervmRecvMsg.handler p s.hv
  | .guestIsUp => s.setHv <$> Drivers.guestIsUp p s.hv
  | .writeAddress => (fun r => s.setHv r.2) <$> Drivers.writeAddress p vmconfP s.hv
  | .readAddress => (fun r => s.setHv r.2) <$> Drivers.readAddress p vmconfP answers.word s.hv
  | .reenableInterrupt => .ok { s with redirect := Drivers.reenableInterrupt s.redirect }
  | .flashRead => s.setHv <$> (MappingCall.flashRead answers.flash).handler p s.hv
  | .flashWrite => s.setHv <$> (MappingCall.flashWrite answers.flash).handler p s.hv
  | .performanceCounterStart => .ok (s.setHv (Drivers.performanceCounterStart p s.hv))
  | .performanceCounterStop => s.setHv <$> MappingCall.performanceCounterStop.handler p s.hv
  | .enWatchdog => .ok (s.setHv (enWatchdogCall p answers.isUp s.hv))
  | .enGetMac => s.setHv <$> MappingCall.enGetMac.handler p s.hv
  | .sendFrame => s.setHv <$> MappingCall.sendFrame.handler p s.hv
  | .receiveFrame => s.setHv <$> (MappingCall.receiveFrame answers.framesz).handler p s.hv
  | .usbPolling => .ok (s.setHv (usbPollingCall p answers.descriptorAvailable s.hv))
  | .getDescriptor => s.setHv <$> MappingCall.getDescriptor.handler p s.hv
  | .usbSendData => s.setHv <$> (MappingCall.usbSendData answers.idle).handler p s.hv
  | .uartSend => s.setHv <$> (MappingCall.uartSend answers.sent).handler p s.hv

/-! ### Execution -/

def HYPCODE : UInt32 := (0x3FF : UInt32) <<< 11
def HYPCODE_SHIFT : UInt32 := 11

/-- `getHypercallCode`, from the instruction that `BadInstr` holds. -/
def getHypercallCode (badinstr : UInt32) : UInt32 := (badinstr &&& HYPCODE) >>> HYPCODE_SHIFT

/-- What the initialized drivers keep: the table of hypercalls and the array of the virtual I/O
driver. -/
structure Installed where
  hypercallTable : HypercallTable
  vmconfP : List VmConf

/-- `hypercall_execution`. -/
def hypercallExecution (p : Platform) (drivers : Installed) (answers : Answers) (badinstr : UInt32)
    (s : Virtual) : Except Fault Virtual :=
  let code := getHypercallCode badinstr
  if code > HCALL_TABLE_SIZE - 1 then
    .ok (s.setHv (setGuestGPR p s.hv REG_V0 HCALL_NOT_IMPLEMENTED))
  else
    match drivers.hypercallTable code with
    | none => .ok (s.setHv (setGuestGPR p s.hv REG_V0 HCALL_NOT_IMPLEMENTED))
    | some (_, hyper) => hyper.handler p drivers.vmconfP answers s

/-! ### The table after the initialization -/

theorem not_gt_of_valid {code : UInt32} (h : code < HCALL_TABLE_SIZE) :
    ¬code > HCALL_TABLE_SIZE - 1 := by
  have hlast : (HCALL_TABLE_SIZE - 1).toNat + 1 = HCALL_TABLE_SIZE.toNat := by decide
  rw [UInt32.lt_iff_toNat_lt] at h
  rw [gt_iff_lt, UInt32.lt_iff_toNat_lt]
  omega

theorem registerHypercalls_eq (table : HypercallTable) (l : List (UInt32 × (Driver × Hypercall)))
    (hvalid : ∀ x ∈ l, x.1 < HCALL_TABLE_SIZE) : registerHypercalls table l = enter table l := by
  induction l generalizing table with
  | nil => rfl
  | cons x l ih =>
    obtain ⟨code, hyper⟩ := x
    have hcode := not_gt_of_valid (hvalid (code, hyper) List.mem_cons_self)
    cases hentry : table code with
    | some old =>
      simp only [registerHypercalls, registerHypercall, if_neg hcode, hentry, enter]
      rfl
    | none =>
      have hret : ¬(code.toNat : Int) < 0 := by omega
      simp only [registerHypercalls, registerHypercall, if_neg hcode, hentry, enter, if_neg hret]
      exact ih _ fun x hx => hvalid x (List.mem_cons_of_mem _ hx)

theorem entries_valid (found : Found) (d : Driver) :
    ∀ x ∈ d.entries found, x.1 < HCALL_TABLE_SIZE := by
  obtain ⟨redirects, phy⟩ := found
  cases redirects <;> cases phy <;> cases d <;> decide

theorem entries_nodup (found : Found) (d : Driver) :
    ((d.entries found).map Prod.fst).Nodup := by
  obtain ⟨redirects, phy⟩ := found
  cases redirects <;> cases phy <;> cases d <;> decide

/-- The driver of the device that a driver is for, which is another one for the shared Ethernet. -/
def Driver.device : Driver → Driver
  | .ethernetShared => .ethernet
  | d => d

/-- The codes count up from device to device. -/
def deviceOfCode (code : UInt32) : Driver :=
  if code < HCALL_ETHERNET_WATCHDOG then .interVmComm
  else if code < HCALL_USB_POLLING then .ethernet
  else if code < HCALL_WRITE_ADDRESS then .usb
  else if code < HCALL_REENABLE_INTERRUPT then .virtualIo
  else if code < HCALL_FLASH_READ then .interruptRedirect
  else if code < HCALL_PERFORMANCE_COUNTER_START then .pufFlash
  else if code < HCALL_UART_SEND then .performanceCounter
  else .uart

theorem deviceOfCode_entries (found : Found) (d : Driver) :
    ∀ x ∈ d.entries found, deviceOfCode x.1 = d.device := by
  obtain ⟨redirects, phy⟩ := found
  cases redirects <;> cases phy <;> cases d <;> decide

theorem eq_or_ethernet_of_device {d d' : Driver} (h : d.device = d'.device) :
    d = d' ∨ d = .ethernet ∧ d' = .ethernetShared ∨ d = .ethernetShared ∧ d' = .ethernet := by
  revert h
  cases d <;> cases d' <;> simp [Driver.device]

/-- Only the two Ethernet drivers have a code in common. -/
theorem eq_or_ethernet_or_apart (found : Found) (d d' : Driver) :
    d = d' ∨ (d = .ethernet ∧ d' = .ethernetShared ∨ d = .ethernetShared ∧ d' = .ethernet) ∨
      ∀ code ∈ (d.entries found).map Prod.fst, code ∉ (d'.entries found).map Prod.fst := by
  by_cases hdevice : d.device = d'.device
  · exact (eq_or_ethernet_of_device hdevice).imp_right Or.inl
  · refine Or.inr (Or.inr fun code hcode hcode' => hdevice ?_)
    obtain ⟨x, hx, rfl⟩ := List.mem_map.mp hcode
    obtain ⟨y, hy, hxy⟩ := List.mem_map.mp hcode'
    rw [← deviceOfCode_entries found d x hx, ← deviceOfCode_entries found d' y hy, hxy]

/-- The two Ethernet drivers register the same codes. -/
theorem codes_ethernet (found : Found) : (Driver.ethernet.entries found).map Prod.fst =
    (Driver.ethernetShared.entries found).map Prod.fst := by
  simp only [Driver.entries, List.map_map]
  rfl

theorem groups_entries (found : Found) (drivers : List Driver) :
    Groups (drivers.map fun d => d.entries found) := by
  constructor
  · intro g hg
    obtain ⟨d, -, rfl⟩ := List.mem_map.mp hg
    exact entries_nodup found d
  · intro g hg g' hg'
    obtain ⟨d, -, rfl⟩ := List.mem_map.mp hg
    obtain ⟨d', -, rfl⟩ := List.mem_map.mp hg'
    rcases eq_or_ethernet_or_apart found d d' with rfl | (⟨rfl, rfl⟩ | ⟨rfl, rfl⟩) | hapart
    · exact Or.inl rfl
    · exact Or.inl (codes_ethernet found)
    · exact Or.inl (codes_ethernet found).symm
    · exact Or.inr hapart

/-- A code has the function of the first driver that registers one for it. -/
theorem driversInitialization_eq (found : Found) (drivers : List Driver) (code : UInt32) :
    driversInitialization found drivers code =
      (drivers.map fun d => d.entries found).flatten.lookup code := by
  have hfold : driversInitialization found drivers =
      (drivers.map fun d => d.entries found).foldl enter fun _ => none := by
    rw [driversInitialization, List.foldl_map]
    congr 1
    funext table d
    exact registerHypercalls_eq table _ (entries_valid found d)
  rw [hfold, foldl_enter (groups_entries found drivers) (fun g _ => Or.inr fun _ _ => rfl),
    Option.none_or]

theorem mem_entries {found : Found} {d d' : Driver} {code : UInt32} {h : Hypercall} :
    (code, (d', h)) ∈ d.entries found ↔ d' = d ∧ (code, h) ∈ d.hypercalls found := by
  simp only [Driver.entries, List.mem_map, Prod.mk.injEq]
  constructor
  · rintro ⟨x, hx, rfl, rfl, rfl⟩
    exact ⟨rfl, hx⟩
  · rintro ⟨rfl, hx⟩
    exact ⟨(code, h), hx, rfl, rfl, rfl⟩

theorem mem_of_driversInitialization {found : Found} {drivers : List Driver} {code : UInt32}
    {d : Driver} {h : Hypercall} (hentry : driversInitialization found drivers code = some (d, h)) :
    d ∈ drivers ∧ (code, h) ∈ d.hypercalls found := by
  rw [driversInitialization_eq] at hentry
  obtain ⟨l₁, l₂, hsplit, -⟩ := List.lookup_eq_some_iff.mp hentry
  have hmem : (code, (d, h)) ∈ (drivers.map fun d => d.entries found).flatten := by
    rw [hsplit]
    exact List.mem_append_right _ List.mem_cons_self
  obtain ⟨l, hl, hin⟩ := List.mem_flatten.mp hmem
  obtain ⟨d', hd', rfl⟩ := List.mem_map.mp hl
  obtain ⟨rfl, hh⟩ := mem_entries.mp hin
  exact ⟨hd', hh⟩

theorem driversInitialization_ne_none {found : Found} {drivers : List Driver} {code : UInt32}
    {d : Driver} {h : Hypercall} (hd : d ∈ drivers) (hh : (code, h) ∈ d.hypercalls found) :
    driversInitialization found drivers code ≠ none := by
  rw [driversInitialization_eq]
  have hmem : (code, (d, h)) ∈ d.entries found := mem_entries.mpr ⟨rfl, hh⟩
  exact lookup_of_key_mem
    (List.mem_map.mpr ⟨_, List.mem_flatten.mpr ⟨_, List.mem_map_of_mem hd, hmem⟩, rfl⟩)

/-- At most one of the two Ethernet drivers is built. -/
def OneEthernet (drivers : List Driver) : Prop :=
  ¬(.ethernet ∈ drivers ∧ .ethernetShared ∈ drivers)

instance (drivers : List Driver) : Decidable (OneEthernet drivers) :=
  inferInstanceAs (Decidable (¬_))

/-- Two drivers that are built have no code in common. -/
theorem OneEthernet.inj {found : Found} {drivers : List Driver} (hone : OneEthernet drivers)
    {d d' : Driver} {code : UInt32} {h h' : Hypercall} (hd : d ∈ drivers) (hd' : d' ∈ drivers)
    (hh : (code, h) ∈ d.hypercalls found) (hh' : (code, h') ∈ d'.hypercalls found) :
    d = d' ∧ h = h' := by
  have hmem : (code, (d, h)) ∈ d.entries found := mem_entries.mpr ⟨rfl, hh⟩
  have hmem' : (code, (d', h')) ∈ d'.entries found := mem_entries.mpr ⟨rfl, hh'⟩
  have hcode : code ∈ (d.entries found).map Prod.fst := List.mem_map_of_mem hmem
  have hcode' : code ∈ (d'.entries found).map Prod.fst := List.mem_map_of_mem hmem'
  rcases eq_or_ethernet_or_apart found d d' with rfl | (⟨rfl, rfl⟩ | ⟨rfl, rfl⟩) | hapart
  · have hinj := List.inj_on_of_nodup_map (entries_nodup found d) hmem hmem' rfl
    exact ⟨rfl, (Prod.mk.inj (Prod.mk.inj hinj).2).2⟩
  · exact absurd ⟨hd, hd'⟩ hone
  · exact absurd ⟨hd', hd⟩ hone
  · exact absurd hcode' (hapart code hcode)

/-- In whatever order the drivers are initialized, the table holds the functions of their lists. -/
theorem driversInitialization_eq_some_iff {found : Found} {drivers : List Driver}
    (hone : OneEthernet drivers) (code : UInt32) (d : Driver) (h : Hypercall) :
    driversInitialization found drivers code = some (d, h) ↔
      d ∈ drivers ∧ (code, h) ∈ d.hypercalls found := by
  refine ⟨mem_of_driversInitialization, ?_⟩
  rintro ⟨hd, hh⟩
  obtain ⟨⟨d', h'⟩, hsome⟩ :=
    Option.ne_none_iff_exists'.mp (driversInitialization_ne_none hd hh)
  obtain ⟨hd', hh'⟩ := mem_of_driversInitialization hsome
  obtain ⟨rfl, rfl⟩ := hone.inj hd hd' hh hh'
  exact hsome

/-- A hypercall runs the function that a driver of the build has for its code, however the linker
has ordered the drivers, and without one it only answers that it is not implemented. -/
theorem hypercallExecution_dispatch (p : Platform) (found : Found) (drivers : List Driver)
    (hone : OneEthernet drivers) (vmconfP : List VmConf) (answers : Answers) (badinstr : UInt32)
    (s : Virtual) :
    let installed : Installed := ⟨driversInitialization found drivers, vmconfP⟩
    (∀ d ∈ drivers, ∀ h, (getHypercallCode badinstr, h) ∈ d.hypercalls found →
      hypercallExecution p installed answers badinstr s = h.handler p vmconfP answers s) ∧
    ((∀ d ∈ drivers, ∀ h, (getHypercallCode badinstr, h) ∉ d.hypercalls found) →
      hypercallExecution p installed answers badinstr s =
        .ok (s.setHv (setGuestGPR p s.hv REG_V0 HCALL_NOT_IMPLEMENTED))) := by
  constructor
  · intro d hd h hh
    have hvalid := not_gt_of_valid (entries_valid found d _ (mem_entries.mpr ⟨rfl, hh⟩))
    have hentry := (driversInitialization_eq_some_iff hone _ d h).mpr ⟨hd, hh⟩
    simp only [hypercallExecution, if_neg hvalid, hentry]
  · intro hnone
    have hentry : driversInitialization found drivers (getHypercallCode badinstr) = none := by
      cases hsome : driversInitialization found drivers (getHypercallCode badinstr) with
      | none => rfl
      | some entry =>
        obtain ⟨hd, hh⟩ := mem_of_driversInitialization hsome
        exact absurd hh (hnone _ hd _)
    simp only [hypercallExecution, hentry]
    exact ite_self _

/-- Code 3 with the UART driver in front of the inter-VM one. -/
theorem hypercallExecution_dispatch_guestIsUp :
    let s : Virtual := ⟨redirectStart .cleared pingPong (fun _ => 0) (fun _ => 0), 0⟩
    let answers : Answers := ⟨fun _ => 0, fun _ => 0, 0, 0, 0, 0, true, 0⟩
    hypercallExecution .pic32mz ⟨driversInitialization ⟨false, false⟩ [.uart, .interVmComm], []⟩
      answers
      0x42001828 s = Hypercall.guestIsUp.handler .pic32mz [] answers s :=
  (hypercallExecution_dispatch .pic32mz ⟨false, false⟩ [.uart, .interVmComm]
    (by decide) [] _ 0x42001828 _).1
    .interVmComm (by decide) .guestIsUp (by decide)

end PrplHypervisor.Drivers
