import Mathlib.Tactic.IntervalCases
import DzOS.Common.Lib
import DzOS.Mem.Mem

/-!
# `DzOS.Proofs.Common.Memset`: the fast `memset` is the loop over the bytes

A store of an element whose bytes are all `c` sets these bytes to `c`, and the stores of
neighbouring windows are one store of both (`filled_filled`). So the loop over the elements fills
its window (`setElements_eq`), and the calls for the rest continue behind it.

Only `memset_int8_t` calls a wider function, and no call for a rest comes back to it with more than
one byte. `memsetSrc_filled` is the induction over the calls. `memset_exact` is the result for each
value: one call of `memset_int8_t` for a nonzero byte, and at most five calls for zero.
-/

set_option autoImplicit false

namespace DzOS.Proofs.Common

open DzOS.Lib DzOS.Common

variable {arg val : Int} {c : UInt8} {len : Nat} {t : IntType}

/-- The memory after `len` bytes from `addr` are set to `c`, each with one store. -/
def filled (s : Memory) (addr len : Nat) (c : UInt8) : Memory where
  mem := s.mem.fill addr len c
  stores := s.stores ++ List.range' addr len

/-- A window of no bytes. -/
theorem filled_zero (s : Memory) (addr : Nat) (c : UInt8) : filled s addr 0 c = s := by
  have hmem : s.mem.fill addr 0 c = s.mem := by
    funext i
    exact Bytes.fill_of_apart (by omega)
  simp [filled, hmem]

/-- Two windows behind each other. -/
theorem filled_filled (s : Memory) (addr m n : Nat) (c : UInt8) :
    filled (filled s addr m c) (addr + m) n c = filled s addr (m + n) c := by
  have hmem : (s.mem.fill addr m c).fill (addr + m) n c = s.mem.fill addr (m + n) c := by
    funext i
    by_cases hlast : addr + m ≤ i ∧ i < addr + m + n
    · rw [Bytes.fill_of_mem hlast.1 hlast.2, Bytes.fill_of_mem (by omega) (by omega)]
    · rw [Bytes.fill_of_apart (by omega)]
      simp only [Bytes.fill]
      split
      · rw [if_pos (by omega)]
      · rw [if_neg (by omega)]
  have hstores : List.range' addr m ++ List.range' (addr + m) n = List.range' addr (m + n) :=
    List.range'_append_1
  simp only [filled, hmem, List.append_assoc, hstores]

/-! ### The loop over the elements -/

/-- Each byte of an element with the value `val` is `c`. -/
def Uniform (t : IntType) (val : Int) (c : UInt8) : Prop :=
  ∀ k < t.size, UInt8.ofNat ((val % 256 ^ t.size).toNat / 256 ^ k) = c

/-- Each byte of a zero is zero. -/
theorem uniform_zero (t : IntType) : Uniform t 0 0 := by
  intro k _
  simp

/-- An element of one byte. -/
theorem uniform_int8 (val : Int) : Uniform .int8 val (UInt8.ofNat (val % 256).toNat) := by
  intro k hk
  have hk0 : k = 0 := by
    simp only [IntType.size] at hk
    omega
  simp [hk0, IntType.size]

/-- A store of an element with equal bytes. -/
theorem store_eq_filled (h : Uniform t val c) (s : Memory) (addr : Nat) :
    s.store t addr val = filled s addr t.size c := by
  have hmem : s.mem.setLE t.size addr (val % 256 ^ t.size).toNat = s.mem.fill addr t.size c := by
    funext i
    simp only [Bytes.setLE, Bytes.fill]
    split
    · rename_i hi
      exact h (i - addr) (by omega)
    · rfl
  simp only [Memory.store, filled, hmem]

/-- The loop fills the window of its elements. -/
theorem setElements_eq (h : Uniform t val c) (s : Memory) (tptr n : Nat) :
    setElements t tptr val n s = filled s tptr (n * t.size) c := by
  induction n with
  | zero => rw [Nat.zero_mul, filled_zero, setElements]
  | succ n ih =>
    rw [setElements, ih, store_eq_filled h, filled_filled, Nat.succ_mul]

/-! ### The calls -/

/-- The number of calls inside each other, at most, for a rest. -/
def calls : IntType → Nat
  | .int8 => 1
  | .int16 => 2
  | .int32 => 3
  | .int64 => 4

theorem size_pos (t : IntType) : 0 < t.size := by
  cases t <;> decide

@[simp] theorem convert_zero (t : IntType) : t.convert 0 = 0 := by
  simp [IntType.convert]

/-- The function for the rest behind the whole elements. -/
def restType (mod : Nat) : IntType :=
  if mod < IntType.int64.size ∧ mod ≥ IntType.int32.size then .int32
  else if mod < IntType.int32.size ∧ mod ≥ IntType.int16.size then .int16
  else .int8

/-- A rest has a smaller element, and one byte is left for `memset_int8_t`. -/
theorem restType_spec {mod : Nat} (hpos : mod ≠ 0) (hlt : mod < t.size) :
    calls (restType mod) < calls t ∧ (restType mod = .int8 → mod ≤ 1) := by
  have hle : t.size ≤ 8 := by
    cases t <;> decide
  have hmod : mod < 8 := hlt.trans_le hle
  interval_cases mod
  all_goals
    revert hpos hlt
    cases t <;> decide

/-- The slow path: the loop, and a call for the rest. -/
theorem memsetSrc_slow (hslow : t = .int8 → len ≤ 1) (fuel ptr : Nat) (s : Memory) :
    memsetSrc (fuel + 1) t ptr 0 len s =
      if len % t.size = 0 then some (filled s ptr (len / t.size * t.size) 0)
      else memsetSrc fuel (restType (len % t.size)) (ptr + len / t.size * t.size) 0
        (len - len / t.size * t.size) (filled s ptr (len / t.size * t.size) 0) := by
  have hpath : ¬ (t.size = IntType.int8.size ∧ len / t.size > 1 ∧ t.convert 0 = 0) := by
    rintro ⟨hsize, hlen, -⟩
    have ht : t = .int8 := by
      cases t <;> first | rfl | simp [IntType.size] at hsize
    have hle := hslow ht
    rw [hsize, IntType.size, Nat.div_one] at hlen
    omega
  rw [memsetSrc]
  dsimp only
  rw [if_neg hpath, convert_zero, setElements_eq (uniform_zero t)]
  unfold restType
  split_ifs <;> rfl

/-- A zero fill on the slow path. The rest of a wide element goes to a function with a smaller
element, down to a single byte. -/
theorem memsetSrc_filled {fuel : Nat} (hfuel : calls t ≤ fuel) (hslow : t = .int8 → len ≤ 1)
    (ptr : Nat) (s : Memory) : memsetSrc fuel t ptr 0 len s = some (filled s ptr len 0) := by
  induction fuel generalizing t ptr len s with
  | zero => cases t <;> simp [calls] at hfuel
  | succ fuel ih =>
    have hsplit : len / t.size * t.size + len % t.size = len := Nat.div_add_mod' len t.size
    rw [memsetSrc_slow hslow]
    by_cases hwhole : len % t.size = 0
    · rw [hwhole, Nat.add_zero] at hsplit
      rw [if_pos hwhole, hsplit]
    · -- The two windows behind each other are the whole one.
      obtain ⟨hcalls, hone⟩ := restType_spec hwhole (Nat.mod_lt len (size_pos t))
      have hrest : len - len / t.size * t.size = len % t.size := by omega
      rw [if_neg hwhole, hrest, ih (by omega) hone, filled_filled, hsplit]

/-- A fill with a nonzero byte is the loop over the bytes. -/
theorem memsetInt8_nonzero (hval : IntType.int8.convert arg ≠ 0) (fuel ptr len : Nat) (s : Memory) :
    memsetInt8 (fuel + 1) ptr arg len s =
      some (filled s ptr len (UInt8.ofNat (IntType.int8.convert arg % 256).toNat)) := by
  have hpath : ¬ (IntType.int8.size = IntType.int8.size ∧ len / IntType.int8.size > 1 ∧
      IntType.int8.convert arg = 0) := by
    rintro ⟨_, _, hzero⟩
    exact hval hzero
  have hwhole : len % IntType.int8.size = 0 := Nat.mod_one len
  have hsize : len / IntType.int8.size * IntType.int8.size = len := by
    simp [IntType.size]
  rw [memsetInt8, memsetSrc]
  dsimp only
  rw [if_neg hpath, if_pos hwhole, setElements_eq (uniform_int8 _), hsize]

/-- The low byte of a value, through the type of `memset_int8_t`. -/
theorem lowByte_convert (val : Int64) :
    UInt8.ofNat (IntType.int8.convert val.toInt % 256).toNat = val.toUInt64.toUInt8 := by
  have hvalue : val.toInt = (val.toUInt64.toNat : Int).bmod (2 ^ 64) :=
    BitVec.toInt_eq_toNat_bmod val.toBitVec
  have hmod : IntType.int8.convert val.toInt % 256 = (val.toUInt64.toNat % 256 : Nat) := by
    change Int.bmod val.toInt 256 % (256 : Nat) = _
    rw [Int.bmod_emod, hvalue, Int.bmod_def]
    split <;> omega
  apply UInt8.toNat.inj
  rw [hmod, Int.toNat_natCast]
  simp

/-- The argument counts only as a value of TYPE. -/
theorem memsetSrc_congr {arg' : Int} (h : t.convert arg = t.convert arg') (fuel ptr len : Nat)
    (s : Memory) : memsetSrc fuel t ptr arg len s = memsetSrc fuel t ptr arg' len s := by
  cases fuel with
  | zero => rfl
  | succ fuel => rw [memsetSrc, memsetSrc, h]

/-- A fill with zeros. More than one byte is a call of `memset_int64_t`. -/
theorem memsetInt8_zero (fuel ptr len : Nat) (s : Memory) :
    memsetInt8 (fuel + 5) ptr 0 len s = some (filled s ptr len 0) := by
  rw [memsetInt8]
  by_cases hlen : len ≤ 1
  · exact memsetSrc_filled (Nat.le_add_left 1 (fuel + 4)) (fun _ => hlen) ptr s
  · have hfast : IntType.int8.size = IntType.int8.size ∧ len / IntType.int8.size > 1 ∧
        IntType.int8.convert 0 = 0 := by
      refine ⟨rfl, ?_, convert_zero _⟩
      rw [IntType.size, Nat.div_one]
      omega
    rw [memsetSrc]
    dsimp only
    rw [if_pos hfast, convert_zero]
    exact memsetSrc_filled (Nat.le_add_left 4 fuel) (fun h => by cases h) ptr s

/-- The fast `memset` as one fill. Five calls are enough. -/
theorem memset_eq_filled (fuel buf : Nat) (val : Int64) (len : Nat) (s : Memory) :
    memset (fuel + 5) buf val len s = some (filled s buf len val.toUInt64.toUInt8) := by
  have hlow := lowByte_convert val
  by_cases hval : IntType.int8.convert val.toInt = 0
  · rw [hval] at hlow
    have hzero : IntType.int8.convert val.toInt = IntType.int8.convert 0 := by
      rw [hval, convert_zero]
    rw [memset, memsetInt8, memsetSrc_congr hzero, ← hlow]
    exact memsetInt8_zero fuel buf len s
  · rw [← hlow]
    exact memsetInt8_nonzero hval (fuel + 4) buf len s

/-- The byte loop as one fill. -/
theorem byteLoop_eq_filled (buf : Nat) (val : Int64) (len : Nat) (s : Memory) :
    setElements .int8 buf val.toInt len s = filled s buf len val.toUInt64.toUInt8 := by
  have hbyte : UInt8.ofNat (val.toInt % 256).toNat = val.toUInt64.toUInt8 := by
    rw [← lowByte_convert]
    exact congrArg (fun v : Int => UInt8.ofNat v.toNat) Int.bmod_emod.symm
  rw [← hbyte, setElements_eq (uniform_int8 _), IntType.size, Nat.mul_one]

/-- The fast `memset` is the loop over the bytes: five calls inside each other are enough, each of
the `len` bytes from `buf` gets the low eight bits of `val`, the other bytes keep their values, and
the stores write each byte exactly once. -/
theorem memset_exact (fuel buf : Nat) (val : Int64) (len : Nat) (s : Memory) :
    ∃ s', memset (fuel + 5) buf val len s = some s' ∧
      s' = setElements .int8 buf val.toInt len s ∧
      (∀ i, buf ≤ i → i < buf + len → s'.mem i = val.toUInt64.toUInt8) ∧
      (∀ i, i < buf ∨ buf + len ≤ i → s'.mem i = s.mem i) ∧
      s'.stores = s.stores ++ List.range' buf len := by
  refine ⟨_, memset_eq_filled fuel buf val len s, (byteLoop_eq_filled buf val len s).symm,
    fun i hlow hhigh => ?_, fun i hout => ?_, rfl⟩
  · exact Bytes.fill_of_mem hlow hhigh
  · exact Bytes.fill_of_apart hout

/-- `MemState.memset`, which the models of the memory functions call, is the `memset` of the source
on the memory behind the pointer. -/
theorem memState_memset (s : Mem.MemState) (ptr : UInt64) (val : Int64) (len : UInt64) :
    (memset 5 (s.V2P ptr).toNat val len.toNat ⟨s.mem, []⟩).map Memory.mem =
      some (s.memset ptr val.toUInt64.toUInt8 len).mem :=
  congrArg (Option.map Memory.mem) (memset_eq_filled 0 (s.V2P ptr).toNat val len.toNat ⟨s.mem, []⟩)

end DzOS.Proofs.Common
