import Mathlib

/-!
# `DzOS.Lib.Mask`: bit masks as arithmetic

C code rounds and slices addresses with `&`, `~` and shifts. The facts here turn a mask of
`k` ones above `s` zeros into division and remainder, on `Nat` and on the 64-bit words the
code computes with, so that `omega` can finish.
-/

set_option autoImplicit false

namespace DzOS.Lib

variable {j k : Nat}

/-- Masking with `k` ones above `s` zeros keeps `k` bits of the number divided by `2 ^ s`. -/
theorem land_shifted_mask (x k s : Nat) :
    x &&& ((2 ^ k - 1) <<< s) = x / 2 ^ s % 2 ^ k * 2 ^ s := by
  rw [← Nat.shiftRight_eq_div_pow, ← Nat.shiftLeft_eq]
  apply Nat.eq_of_testBit_eq
  intro i
  simp only [Nat.testBit_and, Nat.testBit_shiftLeft, Nat.testBit_two_pow_sub_one,
    Nat.testBit_mod_two_pow, Nat.testBit_shiftRight]
  by_cases h : s ≤ i
  · simp [h, Bool.and_comm]
  · simp [h]

/-- Masking a 64-bit word with `k` ones above `s` zeros. -/
theorem toNat_and_shifted_mask (a m : UInt64) (k s : Nat) (hm : m.toNat = (2 ^ k - 1) <<< s) :
    (a &&& m).toNat = a.toNat / 2 ^ s % 2 ^ k * 2 ^ s := by
  rw [UInt64.toNat_and, hm, land_shifted_mask]

/-- Masking a 64-bit word with `k` low ones is the remainder. -/
theorem toNat_and_low_mask (a m : UInt64) (k : Nat) (hm : m.toNat = 2 ^ k - 1) :
    (a &&& m).toNat = a.toNat % 2 ^ k := by
  rw [UInt64.toNat_and, hm, Nat.and_two_pow_sub_one_eq_mod]

/-- A conjunction goes into a disjunction. -/
theorem or_and (f g m : UInt64) : (f ||| g) &&& m = f &&& m ||| g &&& m := by
  apply UInt64.eq_of_toBitVec_eq
  simp only [UInt64.toBitVec_and, UInt64.toBitVec_or]
  exact BitVec.and_or_distrib_right

/-- Flags outside a mask do not show through it. -/
theorem or_masked_and (f a m : UInt64) (hf : f &&& m = 0) : (f ||| a &&& m) &&& m = a &&& m := by
  rw [or_and, hf, UInt64.and_assoc, UInt64.and_self, UInt64.zero_or]

/-! ### One bit of a byte -/

/-- The bits of a byte after one of them is cleared. -/
theorem testBit_clearBit (x : UInt8) (hk : k < 8) (hj : j < 8) :
    (x &&& ~~~(1 <<< UInt8.ofNat k)).toNat.testBit j
      = (x.toNat.testBit j && decide (j ≠ k)) := by
  have hmask : ∀ k < 8, ∀ j < 8, (~~~((1 : UInt8) <<< UInt8.ofNat k)).toNat.testBit j
      = decide (j ≠ k) := by
    decide
  rw [UInt8.toNat_and, Nat.testBit_and, hmask k hk j hj]

/-- The bits of a byte after one of them is set. -/
theorem testBit_setBit (x : UInt8) (hk : k < 8) (hj : j < 8) :
    (x ||| (1 <<< UInt8.ofNat k)).toNat.testBit j = (x.toNat.testBit j || decide (j = k)) := by
  have hmask : ∀ k < 8, ∀ j < 8, ((1 : UInt8) <<< UInt8.ofNat k).toNat.testBit j
      = decide (j = k) := by
    decide
  rw [UInt8.toNat_or, Nat.testBit_or, hmask k hk j hj]

end DzOS.Lib
