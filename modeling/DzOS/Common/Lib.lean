import DzOS.Lib.Bytes

/-!
# `DzOS.Common.Lib`: `memset` of the kernel

The macro `MEMSET_SRC` makes one function for each of four integer types, and the four call each
other for the bytes behind the last whole element. `memsetSrc` is the macro, with its TYPE as a
parameter, and the fuel is the number of calls inside each other.

`Memory` also lists the address of each byte that a store writes, in the order of the stores, so a
byte that two stores write is in the list twice.
-/

set_option autoImplicit false

namespace DzOS.Common

open DzOS.Lib

/-- The TYPE of `MEMSET_SRC`. -/
inductive IntType where
  | int8
  | int16
  | int32
  | int64
  deriving DecidableEq, Repr

/-- `sizeof(TYPE)`. -/
def IntType.size : IntType → Nat
  | .int8 => 1
  | .int16 => 2
  | .int32 => 4
  | .int64 => 8

/-- The value as a TYPE. -/
def IntType.convert (t : IntType) (val : Int) : Int := val.bmod (256 ^ t.size)

/-- The memory, and the address of each byte of each store. -/
structure Memory where
  mem : Bytes
  stores : List Nat

/-- `*(TYPE *)addr = val`. -/
def Memory.store (s : Memory) (t : IntType) (addr : Nat) (val : Int) : Memory where
  mem := s.mem.setLE t.size addr (val % 256 ^ t.size).toNat
  stores := s.stores ++ List.range' addr t.size

/-- The loop over `tptr[i]`, for the first elements. -/
def setElements (t : IntType) (tptr : Nat) (val : Int) : Nat → Memory → Memory
  | 0, s => s
  | i + 1, s => (setElements t tptr val i s).store t (tptr + i * t.size) val

/-- `MEMSET_SRC`. -/
def memsetSrc : Nat → IntType → Nat → Int → Nat → Memory → Option Memory
  | 0, _, _, _, _, _ => none
  | fuel + 1, t, ptr, arg, len, s =>
    let val := t.convert arg
    let size := len / t.size
    if t.size = IntType.int8.size ∧ size > 1 ∧ val = 0 then memsetSrc fuel .int64 ptr val len s
    else
      let s := setElements t ptr val size s
      let mod := len % t.size
      if mod = 0 then some s
      else
        -- Behind the loop, `i` is `size`, so `ip` is at most `len`.
        let ip := size * t.size
        let lr := len - ip
        if mod < IntType.int64.size ∧ mod ≥ IntType.int32.size then
          memsetSrc fuel .int32 (ptr + ip) val lr s
        else if mod < IntType.int32.size ∧ mod ≥ IntType.int16.size then
          memsetSrc fuel .int16 (ptr + ip) val lr s
        else memsetSrc fuel .int8 (ptr + ip) val lr s

/-- `memset_int8_t`. -/
def memsetInt8 (fuel ptr : Nat) (val : Int) (len : Nat) (s : Memory) : Option Memory :=
  memsetSrc fuel .int8 ptr val len s

/-- `memset_int16_t`. -/
def memsetInt16 (fuel ptr : Nat) (val : Int) (len : Nat) (s : Memory) : Option Memory :=
  memsetSrc fuel .int16 ptr val len s

/-- `memset_int32_t`. -/
def memsetInt32 (fuel ptr : Nat) (val : Int) (len : Nat) (s : Memory) : Option Memory :=
  memsetSrc fuel .int32 ptr val len s

/-- `memset_int64_t`. -/
def memsetInt64 (fuel ptr : Nat) (val : Int) (len : Nat) (s : Memory) : Option Memory :=
  memsetSrc fuel .int64 ptr val len s

/-- `memset`. -/
def memset (fuel buf : Nat) (val : Int64) (len : Nat) (s : Memory) : Option Memory :=
  memsetInt8 fuel buf val.toInt len s

end DzOS.Common
