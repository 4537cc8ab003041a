import DzOS.Lib.Bytes

/-!
# `DzOS.Common.Printf`: the formatting of `printf.c`

`kvprintf` prints to the console, and `cvprintf` stores to a buffer with a count of the bytes that
are left in it. Both have the same loop over the format. Here `parseFormat` is this loop without
its output: the items of a format, in their order. `kprintItem` and `cprintItem` print an item.

A format and a string are the bytes before the zero byte. `VaList` has the arguments that are
still to be fetched: words for the integers and the pointers, and floats. The calculation with
floating-point numbers is not modelled, so `FloatArg` has its results.

The digits of a number go to a local buffer of 20 bytes. `bufPut` is a store into it, and a store
behind its end is an error with its index. `int` arithmetic wraps.
-/

set_option autoImplicit false

namespace DzOS.Common

open DzOS.Lib

/-- The byte of a character. -/
def ch (c : Char) : UInt8 := UInt8.ofNat c.toNat

/-- The bytes of a text. -/
def text (s : String) : List UInt8 := s.toList.map ch

/-- A C string: its bytes before the zero byte. -/
structure CString where
  bytes : List UInt8
  nonzero : (0 : UInt8) ∉ bytes

/-- `COLOR_RESET`. -/
def COLOR_RESET : List UInt8 := text "\x1b[0m"

/-- `COLOR_MAGENTA_FG`. -/
def COLOR_MAGENTA_FG : List UInt8 := text "\x1b[35m"

/-- `COLOR_BRIGHT_YELLOW_FG`. -/
def COLOR_BRIGHT_YELLOW_FG : List UInt8 := text "\x1b[93m"

/-- The variables `print_colored` and `c_time_print`. -/
structure PrintState where
  printColored : Bool
  cTimePrint : Bool
  deriving DecidableEq, Repr

/-- The color in front of a number. -/
def PrintState.colorOn (st : PrintState) : List UInt8 :=
  if st.printColored then
    if st.cTimePrint then COLOR_BRIGHT_YELLOW_FG else COLOR_MAGENTA_FG
  else []

/-- The end of the color. -/
def PrintState.colorOff (st : PrintState) : List UInt8 :=
  if st.printColored then COLOR_RESET else []

/-! ### The arguments -/

/-- What the conversion `%f` computes of a `double`, for a finite one with a 64-bit integer part. -/
structure FloatArg where
  negative : Bool
  intPart : UInt64
  digits : Vector (Fin 10) 6

/-- The arguments from the next one on, and the strings in memory. -/
structure VaList where
  word : Nat → UInt64
  float : Nat → FloatArg
  string : UInt64 → CString

/-- The arguments behind the next word. -/
def VaList.nextWord (va : VaList) : VaList := { va with word := fun n => va.word (n + 1) }

/-- The arguments behind the next float. -/
def VaList.nextFloat (va : VaList) : VaList := { va with float := fun n => va.float (n + 1) }

/-- The type at which an integer is fetched. -/
inductive Fetch where
  | int
  | uint64_t
  deriving DecidableEq, Repr

/-- The low half of a word as an `int`. -/
def toInt (w : UInt64) : Int := Int.bmod w.toNat (2 ^ 32)

/-- A word as a `long long`. -/
def toLongLong (w : UInt64) : Int := Int.bmod w.toNat (2 ^ 64)

/-- The next word at a type, as a `long long`. -/
def VaList.fetch (va : VaList) : Fetch → Int
  | .int => toInt (va.word 0)
  | .uint64_t => toLongLong (va.word 0)

/-- The string at the next word. -/
def VaList.fetchString (va : VaList) : List UInt8 :=
  if va.word 0 = 0 then text "(null)" else (va.string (va.word 0)).bytes

/-! ### The digits of a number -/

/-- `buf[i++] = c`, where `i` is the length of what is stored. -/
def bufPut (buf : List UInt8) (c : UInt8) : Except Nat (List UInt8) :=
  if buf.length < 20 then .ok (buf ++ [c]) else .error buf.length

/-- An entry of `pf_digits`. -/
def pfDigit (d : Nat) : UInt8 := (text "0123456789abcdef").getD d 0

/-- The loop over the digits of `x`, from the last one. -/
def putDigits (base : Nat) : Nat → Nat → List UInt8 → Except Nat (List UInt8)
  | 0, _, buf => .ok buf
  | fuel + 1, x, buf => do
    let buf ← bufPut buf (pfDigit (x % base))
    -- The test comes after the division, so zero has one digit.
    if x / base ≠ 0 then putDigits base fuel (x / base) buf else return buf

/-- The buffer of `kprintint` and `cprintint`. A number of 64 bits has at most 64 digits. -/
def digitBuf (xx : Int) (base : Nat) (sign : Bool) : Except Nat (List UInt8) := do
  let sign := sign && xx < 0
  -- `x` is an `unsigned long long`: without a sign, a negative number wraps.
  let x := ((if sign then -xx else xx) % 2 ^ 64).toNat
  let buf ← putDigits base 64 x []
  if sign then bufPut buf (ch '-') else return buf

/-- The loop `while (i < width) buf[i++] = pad`. -/
def putPad (width : Int) (pad : UInt8) : Nat → List UInt8 → Except Nat (List UInt8)
  | 0, buf => .ok buf
  | fuel + 1, buf =>
    if buf.length < width then do
      let buf ← bufPut buf pad
      putPad width pad fuel buf
    else .ok buf

/-- The buffer of `kprintint_padded` and `cprintint_padded`. -/
def digitBufPadded (xx : Int) (base : Nat) (sign : Bool) (width : Int) (pad : UInt8) :
    Except Nat (List UInt8) := do
  let buf ← digitBuf xx base sign
  putPad width pad width.toNat buf

/-- The loop over the digits of a pointer, from the first one. -/
def pointerDigits : Nat → UInt64 → List UInt8
  | 0, _ => []
  | n + 1, x => pfDigit (x >>> 60).toNat :: pointerDigits n (x <<< 4)

/-- What `kprintptr` and `cprintptr` print between the colors. -/
def pointerText (x : UInt64) : List UInt8 := [ch '0', ch 'x'] ++ pointerDigits 16 x

/-- What `kprintfloat` and `cprintfloat` print behind the integer part. -/
def fractionText (f : FloatArg) : List UInt8 :=
  ch '.' :: f.digits.toList.map fun digit : Fin 10 => ch '0' + UInt8.ofNat digit.val

/-! ### The format -/

/-- A piece of a format. `integer` is for `kprintint`, and `padded` for `kprintint_padded`. -/
inductive Item where
  | char (c : UInt8)
  | integer (type : Fetch) (base : Nat) (sign : Bool)
  | padded (type : Fetch) (base : Nat) (width : Int) (pad : UInt8)
  | pointer
  | string
  | float
  | unknown (c0 : UInt8)
  deriving DecidableEq, Repr

/-- `parse_width`: the width and the rest of the format. -/
def parseWidth : List UInt8 → Int → Int × List UInt8
  | [], width => (width, [])
  | c :: fmt, width =>
    if ch '0' ≤ c ∧ c ≤ ch '9' then
      parseWidth fmt (Int.bmod (width * 10 + ((c.toNat : Int) - 48)) (2 ^ 32))
    else (width, c :: fmt)

/-- A hexadecimal conversion. -/
def hexItem (type : Fetch) (width : Int) (pad : UInt8) : Item :=
  if width > 0 then .padded type 16 width pad else .integer type 16 false

/-- The conversion that starts with the bytes `c0`, `c1` and `c2`, and how many of them it takes,
or `none` at the end of the format. -/
def conversion (width : Int) (pad c0 c1 c2 : UInt8) : Option (Item × Nat) :=
  if c0 = ch 'd' then some (.integer .int 10 true, 1)
  else if c0 = ch 'l' ∧ c1 = ch 'd' then some (.integer .uint64_t 10 true, 2)
  else if c0 = ch 'l' ∧ c1 = ch 'l' ∧ c2 = ch 'd' then some (.integer .uint64_t 10 true, 3)
  -- `%u` and `%i` share a branch, which fetches an `int`.
  else if c0 = ch 'u' ∨ c0 = ch 'i' then some (.integer .int 10 false, 1)
  else if c0 = ch 'l' ∧ c1 = ch 'u' then some (.integer .uint64_t 10 false, 2)
  else if c0 = ch 'l' ∧ c1 = ch 'l' ∧ c2 = ch 'u' then some (.integer .uint64_t 10 false, 3)
  else if c0 = ch 'z' ∧ c1 = ch 'u' then some (.integer .uint64_t 10 false, 2)
  -- Only the hexadecimal conversions look at the width.
  else if c0 = ch 'x' then some (hexItem .int width pad, 1)
  else if c0 = ch 'l' ∧ c1 = ch 'x' then some (hexItem .uint64_t width pad, 2)
  else if c0 = ch 'l' ∧ c1 = ch 'l' ∧ c2 = ch 'x' then some (hexItem .uint64_t width pad, 3)
  else if c0 = ch 'p' then some (.pointer, 1)
  else if c0 = ch 's' then some (.string, 1)
  else if c0 = ch 'f' then some (.float, 1)
  else if c0 = ch 'l' ∧ c1 = ch 'f' then some (.float, 2)
  else if c0 = ch '%' then some (.char (ch '%'), 1)
  else if c0 = 0 then none
  else some (.unknown c0, 1)

/-- The conversion behind a percent sign, with its flag and its width, and the rest of the format.
The bytes behind the end read as 0. -/
def parseConversion (fmt : List UInt8) : Option (Item × List UInt8) :=
  let pad := if fmt.head? = some (ch '0') then ch '0' else ch ' '
  let fmt := if fmt.head? = some (ch '0') then fmt.tail else fmt
  let (width, fmt) := parseWidth fmt 0
  match conversion width pad (fmt.getD 0 0) (fmt.getD 1 0) (fmt.getD 2 0) with
  | none => none
  | some (item, n) => some (item, fmt.drop n)

/-- The loop over the format. Each turn takes at least one byte. -/
def parseItems : Nat → List UInt8 → List Item
  | 0, _ => []
  | _, [] => []
  | fuel + 1, cx :: fmt =>
    if cx ≠ ch '%' then .char cx :: parseItems fuel fmt
    else
      match parseConversion fmt with
      | none => []
      | some (item, fmt) => item :: parseItems fuel fmt

/-- The items of a format. -/
def parseFormat (fmt : CString) : List Item := parseItems fmt.bytes.length fmt.bytes

/-! ### Printing to the console -/

/-- `kprintint` and `kprintint_padded`: the bytes given to `kputc`. -/
def kprintBuf (st : PrintState) (buf : List UInt8) : List UInt8 :=
  st.colorOn ++ buf.reverse ++ st.colorOff

/-- `kprintptr`. -/
def kprintptr (st : PrintState) (x : UInt64) : List UInt8 :=
  st.colorOn ++ pointerText x ++ st.colorOff

/-- `kprintfloat` with the precision 6. -/
def kprintfloat (st : PrintState) (f : FloatArg) : Except Nat (List UInt8) := do
  let buf ← digitBuf (toLongLong f.intPart) 10 false
  return (if f.negative then [ch '-'] else []) ++ kprintBuf st buf
    ++ (st.colorOn ++ fractionText f ++ st.colorOff)

/-- The turn of `kvprintf` for an item. -/
def kprintItem (st : PrintState) (va : VaList) : Item → Except Nat (List UInt8 × VaList)
  | .char c => .ok ([c], va)
  | .integer type base sign => do
    let buf ← digitBuf (va.fetch type) base sign
    return (kprintBuf st buf, va.nextWord)
  | .padded type base width pad => do
    let buf ← digitBufPadded (va.fetch type) base false width pad
    return (kprintBuf st buf, va.nextWord)
  | .pointer => .ok (kprintptr st (va.word 0), va.nextWord)
  | .string => .ok (va.fetchString, va.nextWord)
  | .float => do
    let out ← kprintfloat st (va.float 0)
    return (out, va.nextFloat)
  | .unknown c0 => .ok ([ch '%', c0], va)

/-- The loop of `kvprintf`. -/
def kprintItems (st : PrintState) : VaList → List Item → Except Nat (List UInt8)
  | _, [] => .ok []
  | va, item :: items => do
    let (out, va) ← kprintItem st va item
    let rest ← kprintItems st va items
    return out ++ rest

/-- `kvprintf`: the bytes given to `kputc`. -/
def kvprintf (st : PrintState) (fmt : CString) (va : VaList) : Except Nat (List UInt8) :=
  kprintItems st va (parseFormat fmt)

/-! ### Printing to a buffer -/

/-- The memory, with offsets from the first byte of the buffer, and `*rem`, or `none` for `NULL`. -/
structure Sink where
  mem : Bytes
  rem : Option Int

/-- `cputc`. -/
def cputc (s : Sink) (dest : Nat) (c : UInt8) : Nat × Sink :=
  match s.rem with
  | none => (0, s)
  | some rem =>
    if rem ≥ 1 then (1, { mem := s.mem.set dest c, rem := some (rem - 1) }) else (0, s)

/-- A run of `len += cputc(dest++, rem, c)`: the count of what is stored. -/
def cputs (s : Sink) (dest : Nat) : List UInt8 → Nat × Sink
  | [] => (0, s)
  | c :: rest =>
    let (n, s) := cputc s dest c
    let (m, s) := cputs s (dest + 1) rest
    (n + m, s)

/-- `cprintint`, `cprintint_padded`, `cprintptr` and the end of `cprintfloat`, for what they print
between the colors. A color is a call of `cprintf` with a text that has no conversion. -/
def cprintBody (st : PrintState) (s : Sink) (dest : Nat) (body : List UInt8) : Nat × Sink :=
  let (on, s) := cputs s dest st.colorOn
  -- `dest += tlen` moves by the bytes of the color that are stored.
  let dest := dest + on
  let (len, s) := cputs s dest body
  -- `dest++` moves for every byte, stored or not.
  let dest := dest + body.length
  let (off, s) := cputs s dest st.colorOff
  (on + len + off, s)

/-- `cprintfloat` with the precision 6. -/
def cprintfloat (st : PrintState) (s : Sink) (dest : Nat) (f : FloatArg) :
    Except Nat (Nat × Sink) := do
  let minus := if f.negative then [ch '-'] else []
  let (len, s) := cputs s dest minus
  let dest := dest + minus.length
  let buf ← digitBuf (toLongLong f.intPart) 10 false
  let (tlen, s) := cprintBody st s dest buf.reverse
  let dest := dest + tlen
  let (rest, s) := cprintBody st s dest (fractionText f)
  return (len + tlen + rest, s)

/-- The variables of `cvprintf`. -/
structure CvState where
  len : Nat
  dest : Nat
  sink : Sink
  va : VaList

/-- `dest += tlen; len += tlen`. -/
def CvState.advance (c : CvState) (out : Nat × Sink) (va : VaList) : CvState where
  len := c.len + out.1
  dest := c.dest + out.1
  sink := out.2
  va := va

/-- A run of `len += cputc(dest++, rem, c)`. -/
def CvState.putc (c : CvState) (bytes : List UInt8) (va : VaList) : CvState where
  len := c.len + (cputs c.sink c.dest bytes).1
  dest := c.dest + bytes.length
  sink := (cputs c.sink c.dest bytes).2
  va := va

/-- The turn of `cvprintf` for an item. -/
def cprintItem (st : PrintState) (c : CvState) : Item → Except Nat CvState
  | .char cx => .ok (c.putc [cx] c.va)
  | .integer type base sign => do
    let buf ← digitBuf (c.va.fetch type) base sign
    return c.advance (cprintBody st c.sink c.dest buf.reverse) c.va.nextWord
  | .padded type base width pad => do
    let buf ← digitBufPadded (c.va.fetch type) base false width pad
    return c.advance (cprintBody st c.sink c.dest buf.reverse) c.va.nextWord
  | .pointer =>
    .ok (c.advance (cprintBody st c.sink c.dest (pointerText (c.va.word 0))) c.va.nextWord)
  | .string => .ok (c.putc c.va.fetchString c.va.nextWord)
  | .float => do
    let out ← cprintfloat st c.sink c.dest (c.va.float 0)
    return c.advance out c.va.nextFloat
  | .unknown c0 => .ok (c.putc [ch '%', c0] c.va)

/-- The loop of `cvprintf`. -/
def cprintItems (st : PrintState) : CvState → List Item → Except Nat CvState
  | c, [] => .ok c
  | c, item :: items => do
    let c ← cprintItem st c item
    cprintItems st c items

/-- `cvprintf`: its return value and the buffer. -/
def cvprintf (st : PrintState) (s : Sink) (fmt : CString) (va : VaList) :
    Except Nat (Nat × Sink) := do
  let c ← cprintItems st ⟨0, 0, s, va⟩ (parseFormat fmt)
  return (c.len, c.sink)

/-- The result of `snprintf`. -/
structure Snprintf where
  ret : Nat
  mem : Bytes
  state : PrintState

/-- `snprintf`. -/
def snprintf (st : PrintState) (mem : Bytes) (destLen : Int) (fmt : CString) (va : VaList) :
    Except Nat Snprintf := do
  let (len, s) ← cvprintf { st with printColored := false } ⟨mem, some destLen⟩ fmt va
  return ⟨len, s.mem, { st with printColored := st.printColored }⟩

end DzOS.Common
