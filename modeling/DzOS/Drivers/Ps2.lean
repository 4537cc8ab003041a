import Mathlib.Data.List.Basic

/-!
# `DzOS.Drivers.Ps2`: the keyboard half of `drv_ps2.c`

`keyboardHandler` is the interrupt handler. It reads the status port and the data port, decodes
the byte after the scancode set that `detect_scancode_set` has stored, tracks the modifiers and
gives the code point of a pressed key to `emitUtf8`. The two readings are arguments.

The state is that of the static variables, with two logs: the bytes given to `kputc`, and the
indices of the table lookups. C does not check an index, so a lookup behind a table reads what
lies there. `PastTables` has these values.

The end-of-interrupt messages are left out. So are the two last columns of `us_layout`, which
are zero and which nothing reads.
-/

set_option autoImplicit false

namespace DzOS.Drivers

/-- The code points of a text. -/
def codepoints (text : String) : List UInt32 :=
  text.toList.map Char.val

/-- Adjacent entries of `us_layout`: the first scancode, the plain column and the shifted
column. -/
def usLayoutRows : List (UInt8 × String × String) :=
  [(0x02, "1234567890-=\x08\t", "!@#$%^&*()_+\x08\t"),
    (0x10, "qwertyuiop[]\n", "QWERTYUIOP\x7b\x7d\n"),
    (0x1E, "asdfghjkl;'`", "ASDFGHJKL:\"~"),
    (0x2B, "\\zxcvbnm,./", "|ZXCVBNM<>?"),
    (0x39, " ", " ")]

/-- Columns 0 and 1 of `us_layout`: 128 entries, zero where the source names none. -/
def usLayout (scancode : UInt8) : UInt32 × UInt32 :=
  usLayoutRows.foldr (fun row entry =>
    if scancode < row.1 then entry
    else
      match (codepoints row.2.1)[(scancode - row.1).toNat]?,
          (codepoints row.2.2)[(scancode - row.1).toNat]? with
      | some plain, some shifted => (plain, shifted)
      | _, _ => entry) (0, 0)

/-- `us_set2_to_set1`: the scancode of set 1 for each make code of set 2. -/
def usSet2ToSet1 : List UInt8 :=
  [0x00, 0x3B, 0x00, 0x3F, 0x3D, 0x3B, 0x3C, 0x58, 0x00, 0x44, 0x42, 0x40, 0x3E, 0x0F, 0x29, 0x00,
    0x00, 0x38, 0x2A, 0x00, 0x1D, 0x10, 0x02, 0x00, 0x00, 0x00, 0x2C, 0x1F, 0x1E, 0x11, 0x03, 0x00,
    0x00, 0x2E, 0x2D, 0x20, 0x12, 0x05, 0x04, 0x00, 0x00, 0x39, 0x2F, 0x21, 0x14, 0x13, 0x06, 0x00,
    0x00, 0x31, 0x30, 0x23, 0x22, 0x15, 0x07, 0x00, 0x00, 0x00, 0x32, 0x24, 0x16, 0x08, 0x09, 0x00,
    0x00, 0x33, 0x25, 0x17, 0x18, 0x0B, 0x0A, 0x00, 0x00, 0x34, 0x35, 0x26, 0x27, 0x19, 0x0C, 0x00,
    0x00, 0x00, 0x28, 0x00, 0x1A, 0x0D, 0x00, 0x00, 0x3A, 0x36, 0x1C, 0x1B, 0x00, 0x2B, 0x00, 0x00,
    0x00, 0x00, 0x00, 0x00, 0x00, 0x00, 0x0E, 0x00, 0x00, 0x4F, 0x00, 0x4B, 0x47, 0x00, 0x00, 0x00,
    0x52, 0x53, 0x50, 0x4C, 0x4E, 0x48, 0x01, 0x45, 0x57, 0x4E, 0x4D, 0x4A, 0x37, 0x49, 0x46, 0x00]

/-- What the memory behind the two tables holds. -/
structure PastTables where
  set2ToSet1 : UInt8 → UInt8
  layout : UInt8 → UInt32 × UInt32

/-- A table lookup, with its index. -/
inductive Lookup where
  | set2ToSet1 (index : UInt8)
  | layout (index : UInt8)
  deriving DecidableEq

/-- The index of a lookup. -/
def Lookup.index : Lookup → UInt8
  | set2ToSet1 index => index
  | layout index => index

/-- The static variables of the handler, and the logs. -/
structure KeyboardState where
  shiftPressed : Bool
  ctrlPressed : Bool
  altPressed : Bool
  capslockOn : Bool
  releaseNext : Bool
  /-- The bytes that `kputc` has been given. -/
  output : List UInt8
  lookups : List Lookup

/-- The state before the first interrupt. -/
def KeyboardState.boot : KeyboardState :=
  { shiftPressed := false, ctrlPressed := false, altPressed := false, capslockOn := false,
    releaseNext := false, output := [], lookups := [] }

/-- A lookup is logged. -/
def KeyboardState.logLookup (s : KeyboardState) (lookup : Lookup) : KeyboardState :=
  { s with lookups := s.lookups ++ [lookup] }

/-- `us_set2_to_set1[scancode]`. -/
def set2ToSet1 (past : PastTables) (scancode : UInt8) : UInt8 :=
  usSet2ToSet1.getD scancode.toNat (past.set2ToSet1 scancode)

/-- `map[scancode]`, where `map` is `us_layout`. -/
def layoutEntry (past : PastTables) (scancode : UInt8) : UInt32 × UInt32 :=
  if scancode < 128 then usLayout scancode else past.layout scancode

/-- A byte of `emit_utf8`: the bits of the mask, under the mark of the byte. -/
def utf8Byte (mark : UInt8) (bits mask : UInt32) : UInt8 :=
  mark ||| (bits &&& mask).toUInt8

/-- `emit_utf8`: the bytes given to `kputc`. -/
def emitUtf8 (codepoint : UInt32) : List UInt8 :=
  if codepoint ≤ 0x7F then [codepoint.toUInt8]
  else if codepoint ≤ 0x7FF then
    [utf8Byte 0xC0 (codepoint >>> 6) 0x1F, utf8Byte 0x80 codepoint 0x3F]
  else if codepoint ≤ 0xFFFF then
    [utf8Byte 0xE0 (codepoint >>> 12) 0x0F, utf8Byte 0x80 (codepoint >>> 6) 0x3F,
      utf8Byte 0x80 codepoint 0x3F]
  else
    [utf8Byte 0xF0 (codepoint >>> 18) 0x07, utf8Byte 0x80 (codepoint >>> 12) 0x3F,
      utf8Byte 0x80 (codepoint >>> 6) 0x3F, utf8Byte 0x80 codepoint 0x3F]

/-- The end of `keyboard_handler`: the modifiers, and the code point of a pressed key. -/
def handleKey (past : PastTables) (s : KeyboardState) (scancode : UInt8) (keyReleased : Bool) :
    KeyboardState :=
  if scancode = 0x2A ∨ scancode = 0x36 then { s with shiftPressed := !keyReleased }
  else if scancode = 0x1D then { s with ctrlPressed := !keyReleased }
  else if scancode = 0x38 then { s with altPressed := !keyReleased }
  else if scancode = 0x3A ∧ keyReleased = false then { s with capslockOn := !s.capslockOn }
  else if keyReleased then s
  else
    let s := s.logLookup (.layout scancode)
    let codepoint :=
      if s.shiftPressed != s.capslockOn then (layoutEntry past scancode).2
      else (layoutEntry past scancode).1
    if codepoint ≠ 0 then { s with output := s.output ++ emitUtf8 codepoint } else s

/-- `keyboard_handler`. `status` and `data` are the readings of the two ports. -/
def keyboardHandler (past : PastTables) (scancodeSet : UInt8) (s : KeyboardState)
    (status data : UInt8) : KeyboardState :=
  if status &&& 0x01 = 0 then s
  else if scancodeSet = 2 then
    if data = 0xF0 then { s with releaseNext := true }
    else if s.releaseNext then
      -- the code of a released key is not cut to seven bits
      let s := { s with releaseNext := false }
      handleKey past (s.logLookup (.set2ToSet1 data)) (set2ToSet1 past data) true
    else if data &&& 0x80 ≠ 0 then
      let scancode := data &&& 0x7F
      handleKey past (s.logLookup (.set2ToSet1 scancode)) (set2ToSet1 past scancode) true
    else
      handleKey past (s.logLookup (.set2ToSet1 data)) (set2ToSet1 past data) false
  else if scancodeSet = 1 then
    handleKey past s (data &&& 0x7F) (data &&& 0x80 ≠ 0)
  else
    -- a set other than 1 and 2: the byte is the scancode
    handleKey past s data false

/-- The state after the interrupts of a list. Each has the readings of the two ports. -/
def keyboardRun (past : PastTables) (scancodeSet : UInt8) (interrupts : List (UInt8 × UInt8)) :
    KeyboardState :=
  interrupts.foldl (fun s ports => keyboardHandler past scancodeSet s ports.1 ports.2) .boot

/-- The bytes that the handler reads: an interrupt without the output flag in the status has
none. -/
def delivered (interrupts : List (UInt8 × UInt8)) : List UInt8 :=
  (interrupts.filter fun ports => ports.1 &&& 0x01 ≠ 0).map Prod.snd

end DzOS.Drivers
