import PrplHypervisor.Kernel.ReadyList
import PrplHypervisor.Kernel.Progress
import PrplHypervisor.Drivers.InterVm
import PrplHypervisor.Kernel.Critical
import PrplHypervisor.Drivers.MessageQueue
import PrplHypervisor.Guest.Delivery
import PrplHypervisor.Kernel.Malloc
import PrplHypervisor.Drivers.Ethernet
import PrplHypervisor.Drivers.EthernetDelivery
import PrplHypervisor.Config.Genconf
import PrplHypervisor.Config.Placement
import PrplHypervisor.Config.Isolation
import PrplHypervisor.Config.Mapping
import PrplHypervisor.Drivers.GuestBuffer
import PrplHypervisor.Drivers.Confinement
import PrplHypervisor.Drivers.Uart
import PrplHypervisor.Drivers.UartRuns
import PrplHypervisor.Kernel.Transparency
import PrplHypervisor.Drivers.VirtualInterrupts
import PrplHypervisor.Config.TlbBudget
import PrplHypervisor.Drivers.CopyBounds
import PrplHypervisor.Arch.Interrupts
import PrplHypervisor.Kernel.QueueFifo
import PrplHypervisor.Kernel.HeapUnits
import PrplHypervisor.Kernel.HeapBytes
import PrplHypervisor.Drivers.VirtualIo
import PrplHypervisor.Drivers.EthernetErrors
import PrplHypervisor.Drivers.EthernetInput
import PrplHypervisor.Drivers.Usb
import PrplHypervisor.Drivers.Window
import PrplHypervisor.Drivers.GuestWindow
import PrplHypervisor.Guest.MallocRuns
import PrplHypervisor.Arch.Emulation
import PrplHypervisor.Guest.Division
import PrplHypervisor.Guest.Multiply
import PrplHypervisor.Kernel.CopyPaths
import PrplHypervisor.Guest.Numerals
import PrplHypervisor.Drivers.UsbTransfer
import PrplHypervisor.Config.Images
import PrplHypervisor.Kernel.Print
import PrplHypervisor.Config.Header
import PrplHypervisor.Guest.Floats
import PrplHypervisor.Drivers.CallRings
import PrplHypervisor.Drivers.CallMemory
import PrplHypervisor.Drivers.CallFits
import PrplHypervisor.Drivers.Exits
import PrplHypervisor.Drivers.EthernetReceiveRuns
import PrplHypervisor.Drivers.EthernetTransmit
import PrplHypervisor.Guest.PingPong
import PrplHypervisor.Drivers.HwintRuns
import PrplHypervisor.Guest.Isr
import PrplHypervisor.Arch.Startup
import PrplHypervisor.Drivers.Flash
import PrplHypervisor.Drivers.GuestTicks
import PrplHypervisor.Guest.Interrupts
import PrplHypervisor.Guest.Strings
