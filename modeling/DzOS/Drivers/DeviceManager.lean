import DzOS.Drivers.Driver

/-!
# `DzOS.Drivers.DeviceManager`: the registry of `device_manager.c`

The device manager keeps an array of devices and an array of pointers to drivers. A driver is
its address, and `memory` has the `driver_t` that lies there. The results of the `probe` and
`init` functions of the drivers are arguments of the calls that make them: an `int` for the
driver and the place of the device.

The list of devices is the array up to `device_count`, and the list of drivers the array up to
`driver_count`. The printing is left out.
-/

set_option autoImplicit false

namespace DzOS.Drivers

def MAX_DEVICES : ℕ := 256

/-- `device_manager_t`. -/
structure DeviceManager where
  devices : List Device
  drivers : List ℕ
  deriving DecidableEq

/-- `g_dm` at the start. -/
def DeviceManager.boot : DeviceManager :=
  { devices := [], drivers := [] }

/-! ### Devices -/

/-- The next free device is filled in, unless the array is full. -/
def DeviceManager.addDevice (dm : DeviceManager) (dev : Device) : Int × DeviceManager :=
  if MAX_DEVICES ≤ dm.devices.length then (-1, dm)
  else (0, { dm with devices := dm.devices ++ [dev] })

/-- What the manager reads of `pci_device_info_t`. -/
structure PciDeviceInfo where
  classCode : UInt8
  irq : UInt8

/-- The class of a PCI device. -/
def pciClass (classCode : UInt8) : DriverClass :=
  if classCode = 0x01 then .block
  else if classCode = 0x02 then .net
  else if classCode = 0x03 then .display
  else if classCode = 0x09 then .input
  else .misc

/-- `device_register_from_pci`. -/
def deviceRegisterFromPci (dm : DeviceManager) (info : PciDeviceInfo) : Int × DeviceManager :=
  dm.addDevice
    { name := none, class_ := pciClass info.classCode, bus := .pci, drv := none, irq := info.irq,
      initialized := false }

/-- `device_register_from_ps2`. The argument is the interrupt line of the hardware. -/
def deviceRegisterFromPs2 (dm : DeviceManager) (irq : UInt8) : Int × DeviceManager :=
  dm.addDevice
    { name := some (if irq = 1 then "ps2_keyboard" else "ps2_mouse"), class_ := .input,
      bus := .ps2, drv := none, irq, initialized := false }

/-- `device_find_by_name`. -/
def deviceFindByName (dm : DeviceManager) (name : Option String) : Option Device :=
  match name with
  | none => none
  | some name => dm.devices.find? fun dev => dev.name = some name

/-- `device_register_platform`. A name that is in use is left alone. -/
def deviceRegisterPlatform (dm : DeviceManager) (name : Option String) (class_ : DriverClass) :
    Int × DeviceManager :=
  if MAX_DEVICES ≤ dm.devices.length then (-1, dm)
  else if (deviceFindByName dm name).isSome then (0, dm)
  else
    dm.addDevice
      { name, class_, bus := .platform, drv := none, irq := 0, initialized := false }

/-- `device_register_framebuffer`. -/
def deviceRegisterFramebuffer (dm : DeviceManager) : Int × DeviceManager :=
  dm.addDevice
    { name := some "framebuffer", class_ := .display, bus := .platform, drv := none, irq := 0,
      initialized := false }

/-! ### Drivers -/

/-- `driver_register_verified`. -/
def driverRegisterVerified (dm : DeviceManager) (drv : ℕ) : Int × DeviceManager :=
  if MAX_DEVICES ≤ dm.drivers.length then (-1, dm)
  else if drv ∈ dm.drivers then (0, dm)
  else (0, { dm with drivers := dm.drivers ++ [drv] })

/-- The loops of `driver_unregister`: the first entry of the driver goes, and the later ones move
up. There is no result when there is no entry. -/
def removeDriver (drv : ℕ) : List ℕ → Option (List ℕ)
  | [] => none
  | d :: rest => if d = drv then some rest else (removeDriver drv rest).map (d :: ·)

/-- `driver_unregister`. The devices stay as they are. -/
def driverUnregister (dm : DeviceManager) (drv : ℕ) : Int × DeviceManager :=
  match removeDriver drv dm.drivers with
  | some drivers => (0, { dm with drivers })
  | none => (-1, dm)

/-! ### Binding -/

variable (memory : ℕ → Driver)

/-- The driver is for the bus and the class of the device. -/
def Matches (dev : Device) (drv : ℕ) : Prop :=
  (memory drv).bus = dev.bus ∧ (memory drv).class_ = dev.class_

instance (dev : Device) (drv : ℕ) : Decidable (Matches memory dev drv) :=
  inferInstanceAs (Decidable (_ ∧ _))

/-- The driver that `device_driver_match_and_bind` leaves at the device: the one already bound,
or else the first registered one that matches. -/
def chosenDriver (drivers : List ℕ) (dev : Device) : Option ℕ :=
  match dev.drv with
  | some drv => some drv
  | none => drivers.find? fun drv => decide (Matches memory dev drv)

/-- `device_driver_match_and_bind` for the device at a place. -/
def deviceDriverMatchAndBind (dm : DeviceManager) (place : ℕ) : DeviceManager :=
  { dm with
    devices := dm.devices.modify place fun dev =>
      { dev with drv := chosenDriver memory dm.drivers dev } }

/-- The driver has no `probe`, or its `probe` returns 0 for the device at the place. -/
def Accepts (results : ℕ → ℕ → Int) (place drv : ℕ) : Prop :=
  (memory drv).hasProbe = true → results drv place = 0

instance (results : ℕ → ℕ → Int) (place drv : ℕ) :
    Decidable (Accepts memory results place drv) :=
  inferInstanceAs (Decidable (_ → _))

/-- The turn of `device_manager_probe_all` for the device at a place. -/
def probeDevice (drivers : List ℕ) (results : ℕ → ℕ → Int) (place : ℕ) (dev : Device) : Device :=
  if dev.initialized then dev
  else
    match chosenDriver memory drivers dev with
    | none => dev
    | some drv =>
      if Accepts memory results place drv then { dev with drv := some drv }
      else { dev with drv := none }

/-- `device_manager_probe_all`. The turn of a device reads no other device. -/
def deviceManagerProbeAll (dm : DeviceManager) (results : ℕ → ℕ → Int) : DeviceManager :=
  { dm with devices := dm.devices.mapIdx (probeDevice memory dm.drivers results) }

/-- The turn of `device_manager_init_all` for the device at a place. -/
def initDevice (results : ℕ → ℕ → Int) (place : ℕ) (dev : Device) : Device :=
  if dev.initialized then dev
  else
    match dev.drv with
    | none => dev
    | some drv =>
      if (memory drv).hasInit = true → results drv place = 0 then { dev with initialized := true }
      else dev

/-- `device_manager_init_all`. -/
def deviceManagerInitAll (dm : DeviceManager) (results : ℕ → ℕ → Int) : DeviceManager :=
  { dm with devices := dm.devices.mapIdx (initDevice memory results) }

/-! ### Calls -/

/-- A call into the device manager. -/
inductive RegistryCall where
  | register (drv : ℕ)
  | unregister (drv : ℕ)
  | pci (info : PciDeviceInfo)
  | ps2 (irq : UInt8)
  | platform (name : Option String) (class_ : DriverClass)
  | framebuffer
  | matchAndBind (place : ℕ)
  | probeAll (results : ℕ → ℕ → Int)
  | initAll (results : ℕ → ℕ → Int)

/-- The state after a call. -/
def registryCall (dm : DeviceManager) : RegistryCall → DeviceManager
  | .register drv => (driverRegisterVerified dm drv).2
  | .unregister drv => (driverUnregister dm drv).2
  | .pci info => (deviceRegisterFromPci dm info).2
  | .ps2 irq => (deviceRegisterFromPs2 dm irq).2
  | .platform name class_ => (deviceRegisterPlatform dm name class_).2
  | .framebuffer => (deviceRegisterFramebuffer dm).2
  | .matchAndBind place => deviceDriverMatchAndBind memory dm place
  | .probeAll results => deviceManagerProbeAll memory dm results
  | .initAll results => deviceManagerInitAll memory dm results

end DzOS.Drivers
