import Mathlib.Data.List.Basic

/-!
# `DzOS.Drivers.Serial`: the input buffer of `drv_serial.c`

The interrupt handler puts the received bytes into a ring of 128 bytes, and `serial_read_op`
takes them out. Both hold the lock of `cv`, so each is one step.

The indices are `uint8_t`. The data carry that they are inside the buffer. The bytes that the
handler echoes to the port are its second result. The null check of the device data is left out:
`serial_init` stores them before the device gets an interrupt line.
-/

set_option autoImplicit false

namespace DzOS.Drivers

def SERIAL_BUFFER_LENGTH : ℕ := 128

/-- `serial_device_data_t`, without the lock. -/
structure SerialDeviceData where
  inputBuffer : Vector UInt8 SERIAL_BUFFER_LENGTH
  readIndex : UInt8
  writeIndex : UInt8
  initialized : Bool
  readIndex_lt : readIndex.toNat < SERIAL_BUFFER_LENGTH
  writeIndex_lt : writeIndex.toNat < SERIAL_BUFFER_LENGTH

/-- `(index + 1) % SERIAL_BUFFER_LENGTH`, stored as `uint8_t`. -/
def nextIndex (index : UInt8) : UInt8 :=
  UInt8.ofNat ((index.toNat + 1) % SERIAL_BUFFER_LENGTH)

@[simp] theorem nextIndex_toNat (index : UInt8) :
    (nextIndex index).toNat = (index.toNat + 1) % SERIAL_BUFFER_LENGTH := by
  have hlt : (index.toNat + 1) % SERIAL_BUFFER_LENGTH < 2 ^ 8 :=
    Nat.lt_of_lt_of_le (Nat.mod_lt _ (by decide)) (by decide)
  exact UInt8.toNat_ofNat_of_lt hlt

theorem nextIndex_lt (index : UInt8) : (nextIndex index).toNat < SERIAL_BUFFER_LENGTH := by
  rw [nextIndex_toNat]
  exact Nat.mod_lt _ (by decide)

/-- The data after `serial_init`. The bytes of the buffer are those of the allocation. -/
def serialInit (inputBuffer : Vector UInt8 SERIAL_BUFFER_LENGTH) : SerialDeviceData :=
  { inputBuffer, readIndex := 0, writeIndex := 0, initialized := true,
    readIndex_lt := by decide, writeIndex_lt := by decide }

/-- The byte at the read index. -/
def SerialDeviceData.next (data : SerialDeviceData) : UInt8 :=
  data.inputBuffer.get ⟨data.readIndex.toNat, data.readIndex_lt⟩

/-- The read index is moved on. -/
def SerialDeviceData.drop (data : SerialDeviceData) : SerialDeviceData :=
  { data with readIndex := nextIndex data.readIndex, readIndex_lt := nextIndex_lt _ }

/-- The copy loop of `serial_read_op`: the bytes it stores, and the data after it. -/
def copyOut : ℕ → SerialDeviceData → List UInt8 × SerialDeviceData
  | 0, data => ([], data)
  | n + 1, data =>
    let rest := copyOut n data.drop
    (data.next :: rest.1, rest.2)

/-- The bytes that `serial_read_op` counts, in `size_t`. -/
def available (data : SerialDeviceData) : UInt64 :=
  if data.writeIndex < data.readIndex then
    data.writeIndex.toUInt64 + (UInt64.ofNat SERIAL_BUFFER_LENGTH - data.readIndex.toUInt64)
  else data.writeIndex.toUInt64 - data.readIndex.toUInt64

/-- `serial_read_op`: the bytes it stores in the buffer of the caller, whose number it returns,
and the data. There is no result while it waits for data. -/
def serialReadOp (data : SerialDeviceData) (len : UInt64) :
    Option (List UInt8 × SerialDeviceData) :=
  if len = 0 then some ([], data)
  else if data.readIndex = data.writeIndex then none
  else
    let toRead := if len > available data then available data else len
    some (copyOut toRead.toNat data)

/-- The byte that is stored for a received one: `'\r'` becomes `'\n'`. -/
def newline (received : UInt8) : UInt8 :=
  if received = 0x0D then 0x0A else received

/-- A byte is stored at the write index, which is moved on. -/
def SerialDeviceData.store (data : SerialDeviceData) (c : UInt8) : SerialDeviceData :=
  { data with
    inputBuffer := data.inputBuffer.set data.writeIndex.toNat c data.writeIndex_lt
    writeIndex := nextIndex data.writeIndex
    writeIndex_lt := nextIndex_lt _ }

/-- `serial_irq_handler`: the data, and the bytes echoed to the port. -/
def serialIrqHandler (data : SerialDeviceData) (received : UInt8) :
    SerialDeviceData × List UInt8 :=
  if data.initialized = false then (data, [])
  else if nextIndex data.writeIndex ≠ data.readIndex then
    (data.store (newline received), [newline received])
  else (data, [])

/-- The port under interrupts and reads, with the bytes accepted and returned so far. -/
structure SerialPort where
  data : SerialDeviceData
  /-- The bytes that the handler has put into the buffer: it echoes them. -/
  accepted : List UInt8
  /-- The bytes that the reads have returned. -/
  returned : List UInt8

/-- A step that holds the lock. -/
inductive SerialStep where
  | irq (received : UInt8)
  | read (len : UInt64)

/-- One step. A read that finds no data does not take one. -/
def serialStep (port : SerialPort) : SerialStep → Option SerialPort
  | .irq received =>
    let result := serialIrqHandler port.data received
    some { port with data := result.1, accepted := port.accepted ++ result.2 }
  | .read len =>
    match serialReadOp port.data len with
    | none => none
    | some (bytes, data) => some { port with data, returned := port.returned ++ bytes }

end DzOS.Drivers
