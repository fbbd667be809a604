import Mathlib.Algebra.BigOperators.Group.Finset.Basic
import Mathlib.Algebra.Order.BigOperators.Group.Finset
import PrplHypervisor.Lib.Ring
import PrplHypervisor.Lib.Runs

/-! The shared Ethernet driver (`drivers/pic32mz-ethernet-shared.c`).  A VM that asks for a frame
reads frames from the controller until one is for itself, and leaves those of the other VMs in their
rings.  The rings refer to buffers that count how many of them do.  A ring is advanced without a
test whether it is full, and a full ring of `NUMBER_OF_FRAMES` looks empty. -/

namespace PrplHypervisor.Drivers

open Lib.Ring Lib.Runs

def NUMBER_OF_VM : UInt32 := 2
def NUMBER_OF_FRAMES : UInt32 := 10
def MAC_ADDRESS_SIZE : Nat := 6
def MTU : Nat := 1536

def MACH_VIRT_TO_PHYS (x : UInt32) : UInt32 := x &&& 0x1fffffff

def MACH_PHYS_TO_VIRT (x : UInt32) : UInt32 := x ||| 0xa0000000

/-- A frame: a destination at least, and no more than a buffer holds. -/
structure Frame where
  bytes : List UInt8
  header : MAC_ADDRESS_SIZE ≤ bytes.length
  fits : bytes.length ≤ MTU
  deriving DecidableEq

/-- The byte at a place of the frame. -/
def Frame.byte (f : Frame) (i : Nat) : UInt8 := f.bytes.getD i 0

structure BoundedBuffer where
  used : UInt32
  frameSize : UInt32
  frame : Nat → UInt8

/-- `struct vm_ctrl_buffer`.  The elements of `frame_list` point into `b_buf`. -/
structure VmCtrlBuffer where
  vmId : UInt32
  mac : Nat → UInt8
  input : UInt32
  output : UInt32
  frameList : Nat → Nat

/-- The static variables of the driver, and the frames that `en_ll_input` offers from the next call
on. -/
structure Eth where
  bBuf : Nat → BoundedBuffer
  vmctrl : Nat → VmCtrlBuffer
  vmCounter : UInt32
  numberUsedBuffers : UInt32
  dma : List Frame

/-- An access outside an array. -/
inductive EthFault
  | outOfBounds
  deriving DecidableEq, Repr

/-- The address of a VM, for a port with the address `macaddr`. -/
def vmMac (macaddr : Nat → UInt8) (vmCounter : UInt32) : Nat → UInt8 :=
  Function.update macaddr 5 (macaddr 5 + vmCounter.toUInt8)

/-- `en_get_mac`, called by the VM `id`. -/
def enGetMac (macaddr : Nat → UInt8) (e : Eth) (id : UInt32) : Eth :=
  let mac := vmMac macaddr e.vmCounter
  if e.vmCounter < NUMBER_OF_VM then
    let i := e.vmCounter.toNat
    { e with
      vmctrl := Function.update e.vmctrl i { e.vmctrl i with mac := mac, vmId := id }
      vmCounter := e.vmCounter + 1 }
  else e

/-- The first of `n` places with a property, or -1. -/
def firstIndex (p : Nat → Bool) (n : Nat) : Int :=
  match (List.range n).find? p with
  | some i => i
  | none => -1

def getVmBufferPos (e : Eth) (id : UInt32) : Int :=
  firstIndex (fun i => (e.vmctrl i).vmId = id) e.vmCounter.toNat

def getFreeBuffer (e : Eth) : Int :=
  firstIndex (fun i => (e.bBuf i).used = 0) NUMBER_OF_FRAMES.toNat

def maccmp (mac1 mac2 : Nat → UInt8) : Bool :=
  (List.range MAC_ADDRESS_SIZE).all fun i => mac1 i = mac2 i

def isBroadcast (f : Nat → UInt8) : Bool := maccmp f fun _ => 0xff

def getVmDestination (e : Eth) (f : Nat → UInt8) : Int :=
  firstIndex (fun i => maccmp (e.vmctrl i).mac f) e.vmCounter.toNat

/-- A frame that `en_ll_input` offers, in the buffer that it writes to. -/
def writeFrame (e : Eth) (freebuf : Nat) (f : Frame) : Eth :=
  let buffer := e.bBuf freebuf
  { e with bBuf := Function.update e.bBuf freebuf { buffer with
      frame := fun i => if i < f.bytes.length then f.byte i else buffer.frame i } }

/-- The buffer `freebuf` goes into the ring of the `i`-th VM, which takes it into account. -/
def pushBuffer (e : Eth) (i freebuf : Nat) : Eth :=
  let vm := e.vmctrl i
  let buffer := e.bBuf freebuf
  { e with
    vmctrl := Function.update e.vmctrl i { vm with
      frameList := Function.update vm.frameList vm.input.toNat freebuf
      input := (vm.input + 1) % NUMBER_OF_FRAMES }
    bBuf := Function.update e.bBuf freebuf { buffer with used := buffer.used + 1 } }

def setFrameSize (e : Eth) (freebuf : Nat) (framesz : UInt32) : Eth :=
  { e with bBuf := Function.update e.bBuf freebuf { e.bBuf freebuf with frameSize := framesz } }

/-- The loop of `receive_frame` over the frames that `en_ll_input` offers, for the `j`-th VM:
the size and the bytes that the VM gets.  The indices are unsigned, so -1 is the largest of them. -/
def receiveLoop (j : Nat) : List Frame → Eth → Except EthFault ((UInt32 × List UInt8) × Eth)
  | [], e => .ok ((0, []), { e with dma := [] })
  | f :: dma, e =>
    let freebuf := UInt32.ofInt (getFreeBuffer e)
    -- never true: the variable is unsigned
    if freebuf < 0 then .ok ((0, []), { e with dma := f :: dma })
    else if NUMBER_OF_FRAMES ≤ freebuf then .error .outOfBounds
    else
      let b := freebuf.toNat
      let framesz := UInt32.ofNat f.bytes.length
      let e := writeFrame e b f
      let frame := (e.bBuf b).frame
      if maccmp frame (e.vmctrl j).mac || isBroadcast frame then
        let e :=
          if isBroadcast frame then
            let e := setFrameSize e b framesz
            let e := ((List.range e.vmCounter.toNat).filter (· ≠ j)).foldl
              (fun e i => pushBuffer e i b) e
            { e with numberUsedBuffers := e.numberUsedBuffers + 1 }
          else e
        .ok ((framesz, (List.range framesz.toNat).map frame), { e with dma := dma })
      else
        let i := UInt32.ofInt (getVmDestination e frame)
        if i < 0 then receiveLoop j dma e
        else if NUMBER_OF_VM ≤ i then .error .outOfBounds
        else
          let e := setFrameSize (pushBuffer e i.toNat b) b framesz
          receiveLoop j dma { e with numberUsedBuffers := e.numberUsedBuffers + 1 }

/-- The frame at the output of the ring of the `j`-th VM leaves the ring. -/
def popBuffer (e : Eth) (j : Nat) : Eth :=
  let vm := e.vmctrl j
  let b := vm.frameList vm.output.toNat
  let buffer := e.bBuf b
  let used := buffer.used - 1
  { e with
    bBuf := Function.update e.bBuf b { buffer with used := used }
    numberUsedBuffers := if used = 0 then e.numberUsedBuffers - 1 else e.numberUsedBuffers
    vmctrl := Function.update e.vmctrl j { vm with output := (vm.output + 1) % NUMBER_OF_FRAMES } }

/-- `receive_frame`, called by the VM `id`. -/
def receiveFrame (e : Eth) (id : UInt32) : Except EthFault ((UInt32 × List UInt8) × Eth) :=
  let j := UInt32.ofInt (getVmBufferPos e id)
  if j < 0 then .ok ((0, []), e)
  else if NUMBER_OF_VM ≤ j then .error .outOfBounds
  else
    let j := j.toNat
    let vm := e.vmctrl j
    if vm.input ≠ vm.output then
      let buffer := e.bBuf (vm.frameList vm.output.toNat)
      .ok ((buffer.frameSize, (List.range buffer.frameSize.toNat).map buffer.frame), popBuffer e j)
    else receiveLoop j e.dma e

end PrplHypervisor.Drivers
