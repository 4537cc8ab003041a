import DzOS.Common.Printf

/-!
# `DzOS.Libc.Stdio`: `vsnprintf` of the user library

`vsnprintf` has one cursor, `str`, and one limit, `string_end`, the last byte of the buffer. A byte
of the format, a string, a percent sign and a character are stored while `str <= string_end`.
`sprint_int` and `sprint_ptr` store while `str != string_end`.

The format is `parseFormat`, the items in their order, and `vsnprintfItems` is the loop over them.
The arguments are those of the kernel's `printf.c`. The string arguments do not overlap the buffer.

`sprint_int` has a local buffer of 64 bytes. An access behind its end is an error with its index.
-/

set_option autoImplicit false

namespace DzOS.Libc

open DzOS.Lib DzOS.Common

/-! ### The arguments -/

/-- The type at which an integer is fetched. `long` is for all types of 64 bits. -/
inductive Fetch where
  | int
  | unsignedInt
  | long
  deriving DecidableEq, Repr

/-- The next word at a type, as a `long long`. -/
def fetch (va : VaList) : Fetch → Int
  | .int => toInt (va.word 0)
  | .unsignedInt => ((va.word 0).toNat % 2 ^ 32 : Nat)
  | .long => toLongLong (va.word 0)

/-! ### The format -/

/-- A piece of a format. `decimal` and `hex` are for `sprint_int`. -/
inductive Item where
  | literal (cx : UInt8)
  | decimal (type : Fetch) (sign : Bool) (padding : Int)
  | hex (type : Fetch)
  | pointer
  | string
  | percent
  | char
  | unknown (c0 : UInt8)
  deriving DecidableEq, Repr

/-- The conversion that starts with the bytes `c0`, `c1` and `c2`, and how many of them it takes,
or `none` at the end of the format. -/
def conversion (c0 c1 c2 : UInt8) : Option (Item × Nat) :=
  if c0 = ch 'd' ∨ c0 = ch 'i' then some (.decimal .int true 0, 1)
  -- The byte between the point and the `d` can be any one, so the padding can be negative.
  else if c0 = ch '.' ∧ c2 = ch 'd' then some (.decimal .int true ((c1.toNat : Int) - 48), 3)
  else if c0 = ch 'l' ∧ c1 = ch 'd' then some (.decimal .long true 0, 2)
  else if c0 = ch 'l' ∧ c1 = ch 'l' ∧ c2 = ch 'd' then some (.decimal .long true 0, 3)
  else if c0 = ch 'u' then some (.decimal .unsignedInt false 0, 1)
  else if c0 = ch 'l' ∧ c1 = ch 'u' then some (.decimal .long false 0, 2)
  else if c0 = ch 'l' ∧ c1 = ch 'l' ∧ c2 = ch 'u' then some (.decimal .long false 0, 3)
  else if c0 = ch 'x' then some (.hex .unsignedInt, 1)
  else if c0 = ch 'l' ∧ c1 = ch 'x' then some (.hex .long, 2)
  else if c0 = ch 'l' ∧ c1 = ch 'l' ∧ c2 = ch 'x' then some (.hex .long, 3)
  else if c0 = ch 'p' then some (.pointer, 1)
  else if c0 = ch 's' then some (.string, 1)
  else if c0 = ch '%' then some (.percent, 1)
  else if c0 = ch 'c' then some (.char, 1)
  else if c0 = 0 then none
  else some (.unknown c0, 1)

/-- The loop over the format. Each turn takes at least one byte, and the bytes behind the end read
as 0. -/
def parseItems : Nat → List UInt8 → List Item
  | 0, _ => []
  | _, [] => []
  | fuel + 1, cx :: fmt =>
    if cx ≠ ch '%' then .literal cx :: parseItems fuel fmt
    else
      match conversion (fmt.getD 0 0) (fmt.getD 1 0) (fmt.getD 2 0) with
      | none => []
      | some (item, n) => item :: parseItems fuel (fmt.drop n)

/-- The items of a format. -/
def parseFormat (fmt : CString) : List Item := parseItems fmt.bytes.length fmt.bytes

/-! ### The buffer -/

/-- The memory, with offsets from the first byte of the buffer, and `str`. -/
structure Dest where
  mem : Bytes
  str : Nat

/-- `*str++ = c`. -/
def Dest.put (d : Dest) (c : UInt8) : Dest := ⟨d.mem.set d.str c, d.str + 1⟩

/-- `if (str <= string_end) *str++ = c`. -/
def Dest.putWithin (d : Dest) (stringEnd : Nat) (c : UInt8) : Dest :=
  if d.str ≤ stringEnd then d.put c else d

/-- A run of `putWithin`. For a string it is the loop `for (; *s && str <= string_end; s++)`. -/
def Dest.putAll (stringEnd : Nat) : Dest → List UInt8 → Dest
  | d, [] => d
  | d, c :: s => putAll stringEnd (d.putWithin stringEnd c) s

/-! ### The numbers -/

/-- An entry of `io_digits`. -/
def ioDigit (d : Nat) : UInt8 := (text "0123456789abcdef").getD d 0

/-- The local buffer of `sprint_int`. -/
abbrev DigitBuf : Type := Vector UInt8 64

/-- `buf[i] = c`. -/
def DigitBuf.store (buf : DigitBuf) (i : Nat) (c : UInt8) : Except Nat DigitBuf :=
  if h : i < 64 then .ok (buf.set i c h) else .error i

/-- `buf[i]`. -/
def DigitBuf.load (buf : DigitBuf) (i : Nat) : Except Nat UInt8 :=
  if h : i < 64 then .ok (buf.get ⟨i, h⟩) else .error i

/-- The loop over the digits of `x`, from the last one, and the index behind them. -/
def storeDigits (base : Nat) : Nat → Nat → DigitBuf → Nat → Except Nat (DigitBuf × Nat)
  | 0, _, buf, i => .ok (buf, i)
  | fuel + 1, x, buf, i => do
    let buf ← buf.store i (ioDigit (x % base))
    if x / base ≠ 0 then storeDigits base fuel (x / base) buf (i + 1) else return (buf, i + 1)

/-- The buffer of `sprint_int` and the index behind its bytes. A number of 64 bits has at most 64
digits. -/
def fillBuf (xx : Int) (base : Nat) (sign : Bool) (padding : Int) :
    Except Nat (DigitBuf × Nat) := do
  let sign := sign && xx < 0
  let x := ((if sign then -xx else xx) % 2 ^ 64).toNat
  let (buf, i) ← storeDigits base 64 x (Vector.replicate 64 (ch '0')) 0
  -- The bytes up to the padding are zeros of the buffer. They can be behind its end.
  let i := max i padding.toNat
  if sign then do
    let buf ← buf.store i (ch '-')
    return (buf, i + 1)
  else return (buf, i)

/-- The loop of `sprint_int` over the bytes below an index, from the last one. -/
def sprintBuf (strEnd : Nat) (buf : DigitBuf) : Nat → Dest → Except Nat Dest
  | 0, d => .ok d
  | i + 1, d =>
    if d.str ≠ strEnd then do
      let c ← buf.load i
      sprintBuf strEnd buf i (d.put c)
    else .ok d

/-- `sprint_int`. -/
def sprintInt (strEnd : Nat) (d : Dest) (xx : Int) (base : Nat) (sign : Bool) (padding : Int) :
    Except Nat Dest := do
  let (buf, i) ← fillBuf xx base sign padding
  sprintBuf strEnd buf i d

/-- The loop of `sprint_ptr` over the digits, from the first one. -/
def sprintPtrDigits (strEnd : Nat) : Nat → UInt64 → Dest → Dest
  | 0, _, d => d
  | n + 1, x, d =>
    if d.str ≠ strEnd then
      sprintPtrDigits strEnd n (x <<< 4) (d.put (ioDigit (x >>> 60).toNat))
    else d

/-- `sprint_ptr`. -/
def sprintPtr (strEnd : Nat) (d : Dest) (x : UInt64) : Dest :=
  if d.str = strEnd then d
  else
    let d := d.put (ch '0')
    if d.str = strEnd then d
    else sprintPtrDigits strEnd 16 x (d.put (ch 'x'))

/-! ### The function -/

/-- The turn of `vsnprintf` for an item. -/
def vsnprintfItem (stringEnd : Nat) (d : Dest) (va : VaList) : Item → Except Nat (Dest × VaList)
  -- The loop has checked `str` for the first byte.
  | .literal cx => .ok (d.put cx, va)
  | .decimal type sign padding => do
    let d ← sprintInt stringEnd d (fetch va type) 10 sign padding
    return (d, va.nextWord)
  | .hex type => do
    let d ← sprintInt stringEnd d (fetch va type) 16 false 0
    return (d, va.nextWord)
  | .pointer => .ok (sprintPtr stringEnd d (va.word 0), va.nextWord)
  | .string => .ok (d.putAll stringEnd va.fetchString, va.nextWord)
  | .percent => .ok (d.putWithin stringEnd (ch '%'), va)
  | .char => .ok (d.putWithin stringEnd (va.word 0).toUInt8, va.nextWord)
  | .unknown c0 => .ok ((d.putWithin stringEnd (ch '%')).putWithin stringEnd c0, va)

/-- The loop of `vsnprintf`. It stops when `str` is behind `string_end`. -/
def vsnprintfItems (stringEnd : Nat) : Dest → VaList → List Item → Except Nat Dest
  | d, _, [] => .ok d
  | d, va, item :: items =>
    if d.str ≤ stringEnd then do
      let (d, va) ← vsnprintfItem stringEnd d va item
      vsnprintfItems stringEnd d va items
    else .ok d

/-- `vsnprintf`: the memory after it. -/
def vsnprintf (mem : Bytes) (size : Nat) (fmt : CString) (va : VaList) : Except Nat Bytes :=
  if size = 0 then .ok mem
  else do
    let d ← vsnprintfItems (size - 1) ⟨mem, 0⟩ va (parseFormat fmt)
    -- `str` can be one byte behind `string_end` here.
    return d.mem.set d.str 0

end DzOS.Libc
