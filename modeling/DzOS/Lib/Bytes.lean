import Mathlib

/-!
# `DzOS.Lib.Bytes`: byte stores and little-endian words

A byte store is a function from byte offsets to bytes. It stands for a disk block, for a
page of memory, or for the whole of physical memory. `getLE w b off` reads the `w`-byte
little-endian word at `off`, and `setLE w b off v` writes one. `fill` is `memset`, and
`blit` is `memcpy` of a byte list.

The theorems say what a read returns after a write: the written value when the windows are
the same (`getLE_setLE_self`), and the old value when they are apart
(`getLE_setLE_of_apart`). `getLE_congr` is the frame rule behind every other case: a read
depends on the bytes of its own window only.
-/

set_option autoImplicit false

namespace DzOS.Lib

/-- A byte store: the byte at each offset. -/
def Bytes : Type := Nat → UInt8

namespace Bytes

variable {b b' : Bytes} {off off' w i v len : Nat} {c : UInt8} {src : List UInt8}

/-- The store of zero bytes. -/
def zero : Bytes := fun _ => 0

/-- The `w`-byte little-endian word at `off`. -/
def getLE (b : Bytes) : Nat → Nat → Nat
  | 0, _ => 0
  | w + 1, off => (b off).toNat + 256 * getLE b w (off + 1)

/-- The store after writing the low `w` bytes of `v` at `off`. -/
def setLE (b : Bytes) (w off v : Nat) : Bytes := fun i =>
  if off ≤ i ∧ i < off + w then UInt8.ofNat (v / 256 ^ (i - off)) else b i

/-- The store after writing the byte `c` at `off`. -/
def set (b : Bytes) (off : Nat) (c : UInt8) : Bytes := fun i => if i = off then c else b i

/-- `memset`: the store after setting `len` bytes from `off` to `c`. -/
def fill (b : Bytes) (off len : Nat) (c : UInt8) : Bytes := fun i =>
  if off ≤ i ∧ i < off + len then c else b i

/-- `memcpy`: the store after copying `src` to `off`. -/
def blit (b : Bytes) (off : Nat) (src : List UInt8) : Bytes := fun i =>
  if off ≤ i then (src[i - off]?).getD (b i) else b i

/-- The `len` bytes from `off`, as a list. -/
def slice (b : Bytes) (off len : Nat) : List UInt8 := (List.range len).map fun i => b (off + i)

/-- The store whose `k`-th eight-byte word is `w k`. -/
def ofWords (w : Nat → Nat) : Bytes := fun i => UInt8.ofNat (w (i / 8) / 256 ^ (i % 8))

/-! ### Words -/

/-- A word reads the bytes of its window, wherever the window is. -/
theorem getLE_shift (h : ∀ i < w, b (off + i) = b' (off' + i)) :
    b.getLE w off = b'.getLE w off' := by
  induction w generalizing off off' with
  | zero => rfl
  | succ w ih =>
    have htail : b.getLE w (off + 1) = b'.getLE w (off' + 1) := by
      apply ih
      intro i hi
      rw [Nat.add_assoc, Nat.add_assoc, Nat.add_comm 1 i]
      exact h (i + 1) (by omega)
    have hhead : b off = b' off' := h 0 (by omega)
    rw [getLE, getLE, htail, hhead]

/-- A word reads the bytes of its own window only. -/
theorem getLE_congr (h : ∀ i, off ≤ i → i < off + w → b i = b' i) :
    b.getLE w off = b'.getLE w off := by
  apply getLE_shift
  intro i hi
  exact h (off + i) (Nat.le_add_right off i) (Nat.add_lt_add_left hi off)

/-- A `w`-byte word is below `256 ^ w`. -/
theorem getLE_lt (b : Bytes) (w off : Nat) : b.getLE w off < 256 ^ w := by
  induction w generalizing off with
  | zero => simp [getLE]
  | succ w ih =>
    have hbyte := (b off).toNat_lt
    have htail := ih (off + 1)
    simp only [getLE, Nat.pow_succ]
    omega

/-- A word is `v` modulo its width when its bytes are the digits of `v`. -/
theorem getLE_eq_mod (h : ∀ i, i < w → b (off + i) = UInt8.ofNat (v / 256 ^ i)) :
    b.getLE w off = v % 256 ^ w := by
  induction w generalizing off v with
  | zero => simp [getLE, Nat.mod_one]
  | succ w ih =>
    have hhead : (b off).toNat = v % 256 := by
      have := h 0 (by omega)
      simp only [Nat.add_zero, Nat.pow_zero, Nat.div_one] at this
      simp [this]
    have htail : b.getLE w (off + 1) = v / 256 % 256 ^ w := by
      refine ih fun i hi => ?_
      have := h (i + 1) (by omega)
      rw [Nat.div_div_eq_div_mul, ← Nat.pow_succ', ← this]
      congr 1
      omega
    rw [getLE, hhead, htail, Nat.pow_succ', Nat.mod_mul]

/-- Reading the word just written gives its value, cut to the width. -/
@[simp] theorem getLE_setLE_self (b : Bytes) (w off v : Nat) :
    (b.setLE w off v).getLE w off = v % 256 ^ w := by
  refine getLE_eq_mod fun i hi => ?_
  have hin : off ≤ off + i ∧ off + i < off + w := by omega
  simp [setLE, hin]

/-- A write outside the window of a read does not change the read. -/
theorem getLE_setLE_of_apart {w' : Nat} (h : off' + w' ≤ off ∨ off + w ≤ off') :
    (b.setLE w off v).getLE w' off' = b.getLE w' off' := by
  refine getLE_congr fun i h1 h2 => ?_
  have hout : ¬ (off ≤ i ∧ i < off + w) := by omega
  simp [setLE, hout]

/-- A byte outside the written word keeps its value. -/
theorem setLE_of_apart (h : i < off ∨ off + w ≤ i) : b.setLE w off v i = b i := by
  have hout : ¬ (off ≤ i ∧ i < off + w) := by omega
  simp [setLE, hout]

/-- The bytes of a word are its digits. -/
theorem digit_getLE (b : Bytes) (off : Nat) (h : i < w) :
    UInt8.ofNat (b.getLE w off / 256 ^ i) = b (off + i) := by
  induction w generalizing off i with
  | zero => omega
  | succ w ih =>
    cases i with
    | zero =>
      apply UInt8.toNat.inj
      rw [UInt8.toNat_ofNat', getLE]
      have hbyte := (b off).toNat_lt
      simp only [Nat.pow_zero, Nat.div_one, Nat.add_zero]
      omega
    | succ i =>
      have hbyte := (b off).toNat_lt
      have htail : b.getLE (w + 1) off / 256 = b.getLE w (off + 1) := by
        rw [getLE]
        omega
      rw [Nat.pow_succ', ← Nat.div_div_eq_div_mul, htail, ih (off + 1) (by omega)]
      congr 1
      omega

/-- A word that is copied from one store to the same place of another one. -/
theorem setLE_getLE_of_mem (h1 : off ≤ i) (h2 : i < off + w) :
    b'.setLE w off (b.getLE w off) i = b i := by
  unfold setLE
  rw [if_pos ⟨h1, h2⟩, digit_getLE b off (by omega), Nat.add_sub_cancel' h1]

/-- Every word of the zero store is zero. -/
@[simp] theorem getLE_zero (w off : Nat) : zero.getLE w off = 0 := by
  induction w generalizing off with
  | zero => rfl
  | succ w ih => simp [getLE, ih, zero]

/-- A word of zero bytes is zero. -/
theorem getLE_eq_zero (h : ∀ i, off ≤ i → i < off + w → b i = 0) : b.getLE w off = 0 :=
  (getLE_congr h).trans (getLE_zero w off)

/-- The top `n` bytes of the `k`-th word of `ofWords w`. -/
theorem getLE_ofWords_top (w : Nat → Nat) (k : Nat) {n : Nat} (h : n ≤ 8) :
    (ofWords w).getLE n (8 * k + (8 - n)) = w k / 256 ^ (8 - n) % 256 ^ n := by
  induction n with
  | zero => simp [getLE, Nat.mod_one]
  | succ n ih =>
    have hoff : 8 * k + (8 - (n + 1)) + 1 = 8 * k + (8 - n) := by omega
    have hidx : (8 * k + (8 - (n + 1))) / 8 = k := by omega
    have hrem : (8 * k + (8 - (n + 1))) % 8 = 8 - (n + 1) := by omega
    have hpow : 256 ^ (8 - n) = 256 ^ (8 - (n + 1)) * 256 := by
      rw [← Nat.pow_succ]; congr 1; omega
    rw [getLE, hoff, ih (by omega), ofWords, hidx, hrem, hpow, ← Nat.div_div_eq_div_mul,
      UInt8.toNat_ofNat']
    rw [Nat.pow_succ' (n := n), Nat.mod_mul]

/-- The words of `ofWords w` are those of `w`, cut to 64 bits. -/
theorem getLE_ofWords (w : Nat → Nat) (k : Nat) :
    (ofWords w).getLE 8 (8 * k) = w k % 2 ^ 64 := by
  simpa using getLE_ofWords_top w k (Nat.le_refl 8)

/-! ### Fills and copies -/

/-- A byte inside the filled window. -/
theorem fill_of_mem (h1 : off ≤ i) (h2 : i < off + len) : b.fill off len c i = c := by
  simp [fill, h1, h2]

/-- A byte outside the filled window. -/
theorem fill_of_apart (h : i < off ∨ off + len ≤ i) : b.fill off len c i = b i := by
  have hout : ¬ (off ≤ i ∧ i < off + len) := by omega
  simp [fill, hout]

/-- A byte inside the copied window. -/
theorem blit_of_mem (h1 : off ≤ i) (h2 : i < off + src.length) :
    b.blit off src i = src[i - off] := by
  have hlt : i - off < src.length := by omega
  simp [blit, h1, List.getElem?_eq_getElem hlt]

/-- A byte outside the copied window. -/
theorem blit_of_apart (h : i < off ∨ off + src.length ≤ i) : b.blit off src i = b i := by
  unfold blit
  split
  · rw [List.getElem?_eq_none (by omega), Option.getD_none]
  · rfl

theorem blit_nil (b : Bytes) (off : Nat) : b.blit off [] = b := by
  funext i
  exact blit_of_apart (by rw [List.length_nil]; omega)

/-- One more byte behind a copied list. -/
theorem blit_append_singleton (b : Bytes) (src : List UInt8) (c : UInt8) :
    b.blit 0 (src ++ [c]) = (b.blit 0 src).set src.length c := by
  funext i
  have hlen : (src ++ [c]).length = src.length + 1 := List.length_append
  unfold set
  split
  · rename_i hi
    rw [blit_of_mem (Nat.zero_le i) (by omega)]
    simp [hi]
  · rename_i hi
    rcases Nat.lt_or_gt_of_ne hi with hlt | hgt
    · rw [blit_of_mem (Nat.zero_le i) (by omega), blit_of_mem (Nat.zero_le i) (by omega)]
      exact List.getElem_append_left hlt
    · rw [blit_of_apart (.inr (by omega)), blit_of_apart (.inr (by omega))]

/-- The length of a slice. -/
@[simp] theorem length_slice (b : Bytes) (off len : Nat) : (b.slice off len).length = len := by
  simp [slice]

/-- Two slices that follow each other. -/
theorem slice_add (b : Bytes) (off m n : Nat) :
    b.slice off (m + n) = b.slice off m ++ b.slice (off + m) n := by
  simp only [slice, List.range_add, List.map_append, List.map_map, Function.comp_def,
    Nat.add_assoc]

/-- The first byte of a slice. -/
theorem slice_succ (b : Bytes) (off n : Nat) :
    b.slice off (n + 1) = b off :: b.slice (off + 1) n := by
  rw [Nat.add_comm n 1, slice_add]
  rfl

/-- The bytes of a slice. -/
@[simp] theorem getElem_slice (b : Bytes) (off len i : Nat) (h : i < (b.slice off len).length) :
    (b.slice off len)[i] = b (off + i) := by
  simp [slice]

end Bytes

end DzOS.Lib
