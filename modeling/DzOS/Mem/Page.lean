import DzOS.Lib.Mask

/-!
# `DzOS.Mem.Page`: the page macros of `mem.h` and `vmm.c`

`PAGE_SIZE` is the C constant `4096u`, a 32-bit unsigned integer. `~(PAGE_SIZE - 1)` is
computed in 32 bits, so it is `0xFFFFF000`, and it is zero-extended when it meets a 64-bit
operand. The rounding macros therefore also clear the upper 32 bits of their argument. The
definitions keep the C types, and the lemmas say what the macros compute:
`PAGE_ROUND_DOWN` is the page base of the low 32 bits of its argument, and `PAGE_ROUND_UP`
is the same for the argument plus 4095.
-/

set_option autoImplicit false

namespace DzOS.Mem

open DzOS.Lib

/-- `PAGE_SIZE`, the 32-bit constant `4096u`. -/
def PAGE_SIZE : UInt32 := 4096

/-- `~(PAGE_SIZE - 1)`, computed in 32 bits and zero-extended to the 64-bit operand. -/
def pageMask : UInt64 := (~~~(PAGE_SIZE - 1)).toUInt64

/-- `PAGE_ROUND_UP(sz)`. -/
def PAGE_ROUND_UP (sz : UInt64) : UInt64 := (sz + PAGE_SIZE.toUInt64 - 1) &&& pageMask

/-- `PAGE_ROUND_DOWN(a)`. -/
def PAGE_ROUND_DOWN (a : UInt64) : UInt64 := a &&& pageMask

/-- `va & (PAGE_SIZE - 1)`: the offset inside a page. -/
def pageOffset (va : UInt64) : UInt64 := va &&& (PAGE_SIZE - 1).toUInt64

/-- `4096u` as a 64-bit operand. -/
@[simp] theorem toNat_PAGE_SIZE_toUInt64 : PAGE_SIZE.toUInt64.toNat = 4096 := by decide

/-- `PAGE_ROUND_DOWN` cuts its argument to 32 bits and clears the page offset. -/
theorem toNat_PAGE_ROUND_DOWN (a : UInt64) :
    (PAGE_ROUND_DOWN a).toNat = a.toNat % 2 ^ 32 / 4096 * 4096 := by
  rw [PAGE_ROUND_DOWN, toNat_and_shifted_mask a pageMask 20 12 (by decide)]
  omega

/-- `PAGE_ROUND_UP` rounds up, in 64 bits, and then cuts the result to 32 bits. -/
theorem toNat_PAGE_ROUND_UP (a : UInt64) (h : a.toNat + 4095 < 2 ^ 64) :
    (PAGE_ROUND_UP a).toNat = (a.toNat + 4095) % 2 ^ 32 / 4096 * 4096 := by
  have hsum : (a + PAGE_SIZE.toUInt64 - 1).toNat = a.toNat + 4095 := by
    rw [UInt64.toNat_sub, UInt64.toNat_add, toNat_PAGE_SIZE_toUInt64, UInt64.toNat_one]
    omega
  rw [PAGE_ROUND_UP, toNat_and_shifted_mask _ pageMask 20 12 (by decide), hsum]
  omega

/-- The page offset is the remainder modulo 4096. -/
theorem toNat_pageOffset (a : UInt64) : (pageOffset a).toNat = a.toNat % 4096 := by
  exact toNat_and_low_mask a _ 12 (by decide)

end DzOS.Mem
