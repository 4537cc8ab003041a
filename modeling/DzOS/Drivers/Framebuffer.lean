import DzOS.Fs.Syscall
import DzOS.Mem.Vmm

/-!
# `DzOS.Drivers.Framebuffer`: the framebuffer of `drv_framebuffer.c`

`fbWrite` copies rows of pixels from a buffer to the screen, and `fbControl` answers the commands
of `ioctl`. `sysIoctlFb` is `sys_ioctl` for a descriptor of the framebuffer: it checks the data of
every command as a pointer, and calls `fbControl`.

Byte offsets on the screen count from `fb->address`, and those of the source from its start. A
copy is the two offsets and the length, and a store through the argument is its address and its
value. `size_t` has 64 bits.
-/

set_option autoImplicit false

namespace DzOS.Drivers

open DzOS.Lib DzOS.Mem

/-- What the driver reads of `struct limine_framebuffer`. -/
structure LimineFramebuffer where
  width : UInt64
  height : UInt64
  pitch : UInt64
  bpp : UInt16
  deriving DecidableEq, Repr

/-- `fb_device_data_t`. `fb_init` starts with the whole screen. -/
structure FbDeviceData where
  fb : LimineFramebuffer
  currentWidth : UInt64
  currentHeight : UInt64
  deriving DecidableEq, Repr

/-- `fb_init`. -/
def fbInit (fb : LimineFramebuffer) : FbDeviceData :=
  { fb, currentWidth := fb.width, currentHeight := fb.height }

/-! ### Writing -/

/-- One `memcpy` from the buffer to the screen, in bytes. -/
structure FbCopy where
  dst : Nat
  src : Nat
  len : Nat
  deriving DecidableEq, Repr

/-- The variables of `fb_write_op`. `given` counts the pixels up to `given_buffer`. -/
structure FbCursor where
  row : Nat
  given : Nat
  size : Nat
  displayed : Nat
  copies : List FbCopy
  deriving DecidableEq, Repr

/-- `memcpy(&fb_ptr[row * (fb->pitch / 4)], given_buffer, pixels * 4)`. -/
def rowCopy (fb : LimineFramebuffer) (row given pixels : Nat) : FbCopy where
  dst := 4 * (row * (fb.pitch.toNat / 4) % 2 ^ 64) % 2 ^ 64
  src := 4 * given
  len := pixels * 4 % 2 ^ 64

/-- The loop that copies whole rows. -/
def fbWriteRows (data : FbDeviceData) : Nat → FbCursor → FbCursor
  | 0, c => c
  | fuel + 1, c =>
    if data.currentWidth.toNat < c.size ∧ c.row < data.currentHeight.toNat then
      fbWriteRows data fuel
        { row := c.row + 1
          given := c.given + data.currentWidth.toNat
          -- `size` is in bytes, but a row takes its width in pixels from it.
          size := c.size - data.currentWidth.toNat
          displayed := c.displayed + data.currentWidth.toNat
          copies := c.copies ++ [rowCopy data.fb c.row c.given data.currentWidth.toNat] }
    else c

/-- `fb_write_op`: the return value, an `int`, and the copies in their order. -/
def fbWriteOp (data : FbDeviceData) (size : UInt64) : Int × List FbCopy :=
  let c := fbWriteRows data data.currentHeight.toNat ⟨0, 0, size.toNat, 0, []⟩
  if c.row < data.currentHeight.toNat ∧ c.size ≠ 0 then
    -- The rest of the source is the last row.
    (Int.bmod (c.displayed + c.size) (2 ^ 32), c.copies ++ [rowCopy data.fb c.row c.given c.size])
  else (Int.bmod c.displayed (2 ^ 32), c.copies)

/-- `fb_write`. `gFbDev` is the data of the global device, and `none` without a device, a driver
or a framebuffer. -/
def fbWrite (gFbDev : Option FbDeviceData) (size : UInt64) : Int × List FbCopy :=
  match gFbDev with
  | none => (-1, [])
  | some data => fbWriteOp data size

/-- The screen after the copies. -/
def applyCopies (source screen : Bytes) (copies : List FbCopy) : Bytes :=
  copies.foldl (fun screen copy => screen.blit copy.dst (source.slice copy.src copy.len)) screen

/-! ### Commands -/

/-- `FB_CTL_GET_WIDTH`. -/
def FB_CTL_GET_WIDTH : UInt32 := 0

/-- `FB_CTL_GET_MAX_WIDTH`. -/
def FB_CTL_GET_MAX_WIDTH : UInt32 := 1

/-- `FB_CTL_SET_WIDTH`. -/
def FB_CTL_SET_WIDTH : UInt32 := 2

/-- `FB_CTL_GET_HEIGHT`. -/
def FB_CTL_GET_HEIGHT : UInt32 := 3

/-- `FB_CTL_GET_MAX_HEIGHT`. -/
def FB_CTL_GET_MAX_HEIGHT : UInt32 := 4

/-- `FB_CTL_SET_HEIGHT`. -/
def FB_CTL_SET_HEIGHT : UInt32 := 5

/-- `FB_CTL_CLEAR`. -/
def FB_CTL_CLEAR : UInt32 := 6

/-- The effect of a command: the return value, the device, the store through the argument, and
the length of the screen that is set to 0. -/
structure FbReply where
  ret : Int
  data : FbDeviceData
  stores : List (UInt64 × UInt64)
  cleared : Nat
  deriving DecidableEq, Repr

/-- A reply without an effect. -/
def FbDeviceData.fails (data : FbDeviceData) (ret : Int) : FbReply := ⟨ret, data, [], 0⟩

/-- A reply that stores a value at the argument. -/
def FbDeviceData.answers (data : FbDeviceData) (arg value : UInt64) : FbReply :=
  ⟨0, data, [(arg, value)], 0⟩

/-- `fb_ioctl_op`. -/
def fbIoctlOp (data : FbDeviceData) (cmd : UInt32) (arg : UInt64) : FbReply :=
  if cmd = FB_CTL_GET_WIDTH then data.answers arg data.currentWidth
  else if cmd = FB_CTL_GET_MAX_WIDTH then data.answers arg data.fb.width
  else if cmd = FB_CTL_SET_WIDTH then
    if arg ≤ data.fb.width then ⟨0, { data with currentWidth := arg }, [], 0⟩ else data.fails (-3)
  else if cmd = FB_CTL_GET_HEIGHT then data.answers arg data.currentHeight
  else if cmd = FB_CTL_GET_MAX_HEIGHT then data.answers arg data.fb.height
  else if cmd = FB_CTL_SET_HEIGHT then
    if arg ≤ data.fb.height then ⟨0, { data with currentHeight := arg }, [], 0⟩ else data.fails (-3)
  else if cmd = FB_CTL_CLEAR then
    ⟨0, data, [], (data.fb.width * data.fb.height * data.fb.bpp.toUInt64 / 8).toNat⟩
  else data.fails (-2)

/-- `sys_ioctl` for a descriptor of the framebuffer: `fb_control` after the check of the argument.
The command is an `int`, which `driver_ioctl` takes as a `uint32_t`. -/
def sysIoctlFb (s : MemState) (pagetable : UInt64) (dev : FbDeviceData) (command : UInt32)
    (data : UInt64) : Except String FbReply :=
  -- `NULL` is not checked.
  if data = 0 then .ok (fbIoctlOp dev command data)
  else
    match vmmValidateUserPtr s pagetable data 8 true with
    | .error e => .error e
    | .ok false => .ok (dev.fails (-1))
    | .ok true => .ok (fbIoctlOp dev command data)

end DzOS.Drivers
