import DzOS.Drivers.DeviceManager
import Mathlib

/-!
# `DzOS.Drivers.Pci`: the PCI scan of `hw_pci.c`

The scan reaches the configuration space through two ports. It writes the address of a register to
the first one, and the second one is the register then. `PciHost` is the bus behind the ports, with
the interrupt flag of the CPU. The hardware takes the address apart (`decodeAddress`), and what a
register keeps of a write depends on the device (`onWrite`).

The scan prints what it finds, and `pci_get_class_name` is only for that, so they do not appear.
Whether `kmalloc` has memory for a function is an argument.
-/

set_option autoImplicit false

namespace DzOS.Drivers

/-! ### The bus -/

/-- A register of 32 bits in the configuration space. -/
structure PciRegister where
  bus : ℕ
  device : ℕ
  function : ℕ
  offset : ℕ
  deriving DecidableEq

/-- The bus. `onWrite` says what a register has after a write, from what it had and what is
written. -/
structure PciHost where
  address : UInt32
  config : PciRegister → UInt32
  onWrite : PciRegister → UInt32 → UInt32 → UInt32
  interruptsEnabled : Bool

/-- The register of an address. -/
def decodeAddress (address : UInt32) : PciRegister where
  bus := address.toNat / 2 ^ 16 % 2 ^ 8
  device := address.toNat / 2 ^ 11 % 2 ^ 5
  function := address.toNat / 2 ^ 8 % 2 ^ 3
  offset := address.toNat / 2 ^ 2 % 2 ^ 6 * 2 ^ 2

/-- The bit of an address that makes the second port a register. -/
def PciHost.enabled (h : PciHost) : Bool := h.address.toNat.testBit 31

/-- `outl`. -/
def PciHost.outl (h : PciHost) (port : UInt16) (value : UInt32) : PciHost :=
  if port = 0xCF8 then { h with address := value }
  else if port = 0xCFC ∧ h.enabled then
    let r := decodeAddress h.address
    { h with config := Function.update h.config r (h.onWrite r (h.config r) value) }
  else h

/-- `inl`. -/
def PciHost.inl (h : PciHost) (port : UInt16) : UInt32 :=
  if port = 0xCFC ∧ h.enabled then h.config (decodeAddress h.address) else 0xFFFFFFFF

/-- `cli`. -/
def PciHost.cli (h : PciHost) : PciHost := { h with interruptsEnabled := false }

/-- `sti`, if the interrupts were enabled. -/
def PciHost.stiIf (h : PciHost) (interruptsEnabled : Bool) : PciHost :=
  if interruptsEnabled then { h with interruptsEnabled := true } else h

/-! ### The configuration space -/

def PCI_VENDOR_ID : UInt8 := 0x00

def PCI_DEVICE_ID : UInt8 := 0x02

def PCI_PROG_IF : UInt8 := 0x09

def PCI_SUBCLASS : UInt8 := 0x0A

def PCI_CLASS_CODE : UInt8 := 0x0B

def PCI_HEADER_TYPE : UInt8 := 0x0E

def PCI_BAR0 : UInt8 := 0x10

def PCI_SUBSYSTEM_VENDOR_ID : UInt8 := 0x2C

def PCI_SUBSYSTEM_ID : UInt8 := 0x2E

def PCI_INTERRUPT_LINE : UInt8 := 0x3C

def PCI_INTERRUPT_PIN : UInt8 := 0x3D

def PCI_HEADER_MULTIFUNCTION : UInt8 := 0x80

/-- The address that the four functions below compute. -/
def configAddress (bus slot func offset : UInt8) : UInt32 :=
  (bus.toUInt32 <<< 16) ||| (slot.toUInt32 <<< 11) ||| (func.toUInt32 <<< 8) |||
    (offset &&& 0xFC).toUInt32 ||| 0x80000000

/-- `pci_config_read_word`. -/
def pciConfigReadWord (h : PciHost) (bus slot func offset : UInt8) : UInt16 × PciHost :=
  let interruptsEnabled := h.interruptsEnabled
  let h := h.cli.outl 0xCF8 (configAddress bus slot func offset)
  let result := ((h.inl 0xCFC >>> ((offset &&& 2).toUInt32 * 8)) &&& 0xFFFF).toUInt16
  (result, h.stiIf interruptsEnabled)

/-- `pci_config_read_dword`. -/
def pciConfigReadDword (h : PciHost) (bus slot func offset : UInt8) : UInt32 × PciHost :=
  let interruptsEnabled := h.interruptsEnabled
  let h := h.cli.outl 0xCF8 (configAddress bus slot func offset)
  let result := h.inl 0xCFC
  (result, h.stiIf interruptsEnabled)

/-- `pci_config_read_byte`. -/
def pciConfigReadByte (h : PciHost) (bus slot func offset : UInt8) : UInt8 × PciHost :=
  let (word, h) := pciConfigReadWord h bus slot func (offset &&& ~~~1)
  (if offset &&& 1 ≠ 0 then (word >>> 8).toUInt8 else (word &&& 0xFF).toUInt8, h)

/-- `pci_config_write_dword`. -/
def pciConfigWriteDword (h : PciHost) (bus slot func offset : UInt8) (value : UInt32) : PciHost :=
  let interruptsEnabled := h.interruptsEnabled
  let h := h.cli.outl 0xCF8 (configAddress bus slot func offset)
  (h.outl 0xCFC value).stiIf interruptsEnabled

/-- The size that `pci_get_bar_size` computes from what it reads back. -/
def sizeOfMask (bar sizeMask : UInt32) : UInt32 :=
  if sizeMask = 0 ∨ sizeMask = 0xFFFFFFFF then 0
  else if bar &&& 0x1 ≠ 0 then ~~~(sizeMask &&& 0xFFFFFFFC) + 1
  else ~~~(sizeMask &&& 0xFFFFFFF0) + 1

/-- `pci_get_bar_size`. -/
def pciGetBarSize (h : PciHost) (bus device func barOffset : UInt8) (bar : UInt32) :
    UInt32 × PciHost :=
  let h := pciConfigWriteDword h bus device func barOffset 0xFFFFFFFF
  let (sizeMask, h) := pciConfigReadDword h bus device func barOffset
  let h := pciConfigWriteDword h bus device func barOffset bar
  (sizeOfMask bar sizeMask, h)

/-! ### The scan -/

/-- `pci_device_info_t`. -/
structure PciFunctionInfo extends PciDeviceInfo where
  bus : UInt8
  device : UInt8
  function : UInt8
  vendorId : UInt16
  deviceId : UInt16
  subclass : UInt8
  progIf : UInt8
  irqPin : UInt8
  subsystemVendor : UInt16
  subsystemId : UInt16
  bar : List UInt32
  barSize : List UInt32

/-- `PCI_BAR0 + (i * 4)`. -/
def barOffset (i : ℕ) : UInt8 := PCI_BAR0 + UInt8.ofNat i * 4

/-- The loop that reads the base address registers. -/
def readBars (h : PciHost) (bus device func : UInt8) : List ℕ → List UInt32 × PciHost
  | [] => ([], h)
  | i :: rest =>
    let (bar, h) := pciConfigReadDword h bus device func (barOffset i)
    let (bars, h) := readBars h bus device func rest
    (bar :: bars, h)

/-- The loop that gets their sizes. `bars` are those of the registers in the list. -/
def sizeBars (h : PciHost) (bus device func : UInt8) : List ℕ → List UInt32 →
    List UInt32 × PciHost
  | i :: rest, bar :: bars =>
    let (size, h) := pciGetBarSize h bus device func (barOffset i) bar
    let (sizes, h) := sizeBars h bus device func rest bars
    (size :: sizes, h)
  | _, _ => ([], h)

/-- The state of the scan: the functions that `device_register_from_pci` got, and `*found`. -/
structure PciScan where
  host : PciHost
  dm : DeviceManager
  reported : List PciFunctionInfo
  found : ℕ

variable (hasMemory : UInt8 → UInt8 → Bool)

/-- `pci_scan_function`. -/
def pciScanFunction (s : PciScan) (bus device func : UInt8) : PciScan :=
  let (vendor, h) := pciConfigReadWord s.host bus device func PCI_VENDOR_ID
  if vendor = 0xFFFF then { s with host := h }
  else
    let (deviceId, h) := pciConfigReadWord h bus device func PCI_DEVICE_ID
    let (classCode, h) := pciConfigReadByte h bus device func PCI_CLASS_CODE
    let (subclass, h) := pciConfigReadByte h bus device func PCI_SUBCLASS
    let (progIf, h) := pciConfigReadByte h bus device func PCI_PROG_IF
    let (irq, h) := pciConfigReadByte h bus device func PCI_INTERRUPT_LINE
    let (irqPin, h) := pciConfigReadByte h bus device func PCI_INTERRUPT_PIN
    let (subsystemVendor, h) := pciConfigReadWord h bus device func PCI_SUBSYSTEM_VENDOR_ID
    let (subsystemId, h) := pciConfigReadWord h bus device func PCI_SUBSYSTEM_ID
    let (bar, h) := readBars h bus device func (List.range 6)
    if !hasMemory device func then { s with host := h }
    else
      let (barSize, h) := sizeBars h bus device func (List.range 6) bar
      let info : PciFunctionInfo :=
        { bus, device, function := func, vendorId := vendor, deviceId, classCode, subclass,
          progIf, irq, irqPin, subsystemVendor, subsystemId, bar, barSize }
      { host := h
        dm := (deviceRegisterFromPci s.dm info.toPciDeviceInfo).2
        reported := s.reported ++ [info]
        found := s.found + 1 }

/-- The loop of `pci_scan_device` over the functions behind the first. -/
def scanFunctions (bus device : UInt8) : List UInt8 → PciScan → PciScan
  | [], s => s
  | func :: rest, s =>
    let (vendor, h) := pciConfigReadWord s.host bus device func PCI_VENDOR_ID
    let s := { s with host := h }
    scanFunctions bus device rest
      (if vendor ≠ 0xFFFF then pciScanFunction hasMemory s bus device func else s)

/-- `pci_scan_device`. -/
def pciScanDevice (s : PciScan) (bus device : UInt8) : PciScan :=
  let (vendor, h) := pciConfigReadWord s.host bus device 0 PCI_VENDOR_ID
  let s := { s with host := h }
  if vendor = 0xFFFF then s
  else
    let s := pciScanFunction hasMemory s bus device 0
    let (headerType, h) := pciConfigReadByte s.host bus device 0 PCI_HEADER_TYPE
    let s := { s with host := h }
    if headerType &&& PCI_HEADER_MULTIFUNCTION ≠ 0 then
      scanFunctions hasMemory bus device [1, 2, 3, 4, 5, 6, 7] s
    else s

/-- The loop of `hw_detect_pci_scan` over the devices of the bus 0. -/
def scanDevices : List ℕ → PciScan → PciScan
  | [], s => s
  | device :: rest, s => scanDevices rest (pciScanDevice hasMemory s 0 (UInt8.ofNat device))

/-- `hw_detect_pci_scan`. -/
def hwDetectPciScan (host : PciHost) (dm : DeviceManager) : PciScan :=
  scanDevices hasMemory (List.range 32) ⟨host, dm, [], 0⟩

end DzOS.Drivers
