import Mathlib.Data.List.Basic

/-!
# `DzOS.Drivers.Driver`: the types of `driver.h`

The bus and the class of devices and drivers, the records of both, and the signed manifest of a
driver. Of the operations of a driver, only the presence of `probe` and `init` matters here.
-/

set_option autoImplicit false

namespace DzOS.Drivers

/-- `driver_bus_t`. -/
inductive DriverBus where
  | none
  | ps2
  | pci
  | platform
  | virtual
  deriving DecidableEq

/-- The number of the bus. -/
def DriverBus.code : DriverBus → UInt8
  | none => 0
  | ps2 => 1
  | pci => 2
  | platform => 3
  | virtual => 4

/-- `driver_class_t`. -/
inductive DriverClass where
  | misc
  | input
  | block
  | net
  | display
  | char
  deriving DecidableEq

/-- The number of the class. -/
def DriverClass.code : DriverClass → UInt8
  | misc => 0
  | input => 1
  | block => 2
  | net => 3
  | display => 4
  | char => 5

/-- `driver_manifest_t`. The name is the memory at the pointer, up to a zero byte. -/
structure DriverManifest where
  name : List UInt8
  version : UInt32
  bus : DriverBus
  class_ : DriverClass
  pubkeyId : Vector UInt8 32
  codeHash : Vector UInt8 32
  signature : Vector UInt8 64

/-- `driver_t`: what the device manager reads of it. -/
structure Driver where
  bus : DriverBus
  class_ : DriverClass
  hasProbe : Bool
  hasInit : Bool
  deriving DecidableEq

/-- `device_t`, without the data of the driver and of the hardware. `drv` is the address of a
`driver_t`. -/
structure Device where
  name : Option String
  class_ : DriverClass
  bus : DriverBus
  drv : Option ℕ
  irq : UInt8
  initialized : Bool
  deriving DecidableEq

end DzOS.Drivers
