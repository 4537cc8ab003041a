import DzOS.Proofs.Fs.Bitmap

/-!
# `DzOS.Proofs.Fs.FreeBlocks`: the number of free blocks

`dzfsFreeBlocks` adds up the bytes of the bitmap blocks. `dzfsFreeBlocks_eq` gives its result
as the number of blocks whose bit is 1. So two disks with the same bits have the same number
(`dzfsFreeBlocks_congr`).
-/

set_option autoImplicit false

namespace DzOS.Proofs.Fs

open DzOS.Lib DzOS.Fs

/-! ### Sums -/

/-- A sum in modular arithmetic is the sum, cut at the end. -/
theorem foldl_add_mod (f : Nat → Nat) (modulus : Nat) (l : List Nat) (x : Nat) :
    l.foldl (fun a i => (a + f i) % modulus) (x % modulus) = (x + (l.map f).sum) % modulus := by
  induction l generalizing x with
  | nil => simp
  | cons i l ih =>
    have hstep : (x % modulus + f i) % modulus = (x + f i) % modulus := by simp
    rw [List.foldl_cons, hstep, ih (x + f i), List.map_cons, List.sum_cons, Nat.add_assoc]

/-- The count over `n` groups of `w` numbers each. -/
theorem sum_count_groups (p : Nat → Prop) [DecidablePred p] (w n : Nat) :
    ((List.range n).map fun i => Nat.count (fun k => p (w * i + k)) w).sum
      = Nat.count p (w * n) := by
  induction n with
  | zero => simp
  | succ n ih =>
    rw [List.range_succ, List.map_append, List.sum_append, ih, Nat.mul_succ, Nat.count_add]
    simp

/-! ### The count -/

/-- `popcount` of a byte is the number of its 1 bits. -/
theorem popcount_byte : ∀ a < 256, popcount a = Nat.count (fun k => a.testBit k = true) 8 := by
  decide +kernel

theorem popcount_bits (fs : Dzfs) (block : Nat) {i : Nat} (hi : i < DZFS_BLOCK_SIZE) :
    popcount (fs.disk (block + 2) i).toNat
      = Nat.count
        (fun k => bit fs (DZFS_BITSET_COVERED_BLOCKS * block + (8 * i + k)) = true) 8 := by
  rw [popcount_byte _ (UInt8.toNat_lt _), Nat.count_eq_card_filter_range,
    Nat.count_eq_card_filter_range]
  congr 1
  refine Finset.filter_congr fun k hk => ?_
  rw [← Nat.add_assoc, bit_split fs hi (Finset.mem_range.mp hk)]

theorem popcount_bitmap (fs : Dzfs) (block : Nat) :
    ((List.range DZFS_BLOCK_SIZE).map fun i => popcount (fs.disk (block + 2) i).toNat).sum
      = Nat.count (fun n => bit fs (DZFS_BITSET_COVERED_BLOCKS * block + n) = true)
          DZFS_BITSET_COVERED_BLOCKS := by
  have hsum := sum_count_groups
    (fun n => bit fs (DZFS_BITSET_COVERED_BLOCKS * block + n) = true) 8 DZFS_BLOCK_SIZE
  have hmap : ((List.range DZFS_BLOCK_SIZE).map fun i => popcount (fs.disk (block + 2) i).toNat)
      = (List.range DZFS_BLOCK_SIZE).map fun i => Nat.count
          (fun k => bit fs (DZFS_BITSET_COVERED_BLOCKS * block + (8 * i + k)) = true) 8 :=
    List.map_congr_left fun i hi => popcount_bits fs block (List.mem_range.mp hi)
  rw [hmap, hsum, Nat.mul_comm 8]
  rfl

/-- `dzfsFreeBlocks` counts the blocks whose bit is 1. -/
theorem dzfsFreeBlocks_eq (fs : Dzfs) :
    dzfsFreeBlocks fs = Nat.count (fun n => bit fs n = true) (covered fs) % 2 ^ 32 := by
  -- The bytes of one bitmap block.
  have hblock : ∀ (freeBlocks block : Nat),
      (List.range DZFS_BLOCK_SIZE).foldl
        (fun freeBlocks i => (freeBlocks + popcount (fs.readBlock (block + 2) i).toNat) % 2 ^ 32)
        (freeBlocks % 2 ^ 32)
      = (freeBlocks + Nat.count
          (fun n => bit fs (DZFS_BITSET_COVERED_BLOCKS * block + n) = true)
          DZFS_BITSET_COVERED_BLOCKS) % 2 ^ 32 := by
    intro freeBlocks block
    rw [foldl_add_mod (fun i => popcount (fs.readBlock (block + 2) i).toNat), popcount_bitmap]
  -- The bitmap blocks.
  have hall : ∀ n, (List.range n).foldl
      (fun freeBlocks block =>
        (List.range DZFS_BLOCK_SIZE).foldl
          (fun freeBlocks i => (freeBlocks + popcount (fs.readBlock (block + 2) i).toNat) % 2 ^ 32)
          freeBlocks) 0
      = Nat.count (fun n => bit fs n = true) (DZFS_BITSET_COVERED_BLOCKS * n) % 2 ^ 32 := by
    intro n
    induction n with
    | zero => simp
    | succ n ih =>
      rw [List.range_succ, List.foldl_append, ih, List.foldl_cons, List.foldl_nil, hblock,
        Nat.mul_succ, Nat.count_add]
  exact hall fs.freeBitmapBlocks

section
variable {fs fs' : Dzfs}

/-- Two disks with the same bits have the same number of free blocks. -/
theorem dzfsFreeBlocks_congr (hcov : covered fs' = covered fs)
    (hbit : ∀ m < covered fs, bit fs' m = bit fs m) : dzfsFreeBlocks fs' = dzfsFreeBlocks fs := by
  rw [dzfsFreeBlocks_eq, dzfsFreeBlocks_eq, hcov, Nat.count_eq_card_filter_range,
    Nat.count_eq_card_filter_range]
  congr 2
  refine Finset.filter_congr fun m hm => ?_
  rw [hbit m (Finset.mem_range.mp hm)]

/-- The number of free blocks of a bitmap that fits in 32 bits. -/
theorem dzfsFreeBlocks_eq_card (hcov : covered fs < 2 ^ 32) :
    dzfsFreeBlocks fs = ((Finset.range (covered fs)).filter fun n => bit fs n = true).card := by
  rw [dzfsFreeBlocks_eq, Nat.mod_eq_of_lt (lt_of_le_of_lt (Nat.count_le _) hcov),
    Nat.count_eq_card_filter_range]

/-- No block is free when the number of free blocks is 0. -/
theorem dzfsFreeBlocks_eq_zero_iff (hlt : covered fs < 2 ^ 32) :
    dzfsFreeBlocks fs = 0 ↔ ∀ m < covered fs, bit fs m = false := by
  simp [dzfsFreeBlocks_eq_card hlt]

/-- `blockAlloc` fails if and only if no block is free. -/
theorem blockAlloc_eq_zero_iff (hlt : covered fs < 2 ^ 32) (hboot : bit fs 0 = false) :
    (blockAlloc fs).1 = 0 ↔ dzfsFreeBlocks fs = 0 := by
  rw [dzfsFreeBlocks_eq_zero_iff hlt]
  constructor
  · intro hfull m hm
    exact bit_of_blockAlloc_eq_zero hboot hfull hm
  · intro hnone
    rcases blockAlloc_spec fs with hfull | ⟨n, fs', -, -, hn, hfree, -⟩
    · exact congrArg Prod.fst hfull
    · rw [hnone n hn] at hfree
      cases hfree

/-- One block less is free when one bit is cleared. -/
theorem dzfsFreeBlocks_take (hlt : covered fs < 2 ^ 32) (hcov : covered fs' = covered fs) {n : Nat}
    (hn : n < covered fs) (hfree : bit fs n = true)
    (hbits : ∀ m < covered fs, bit fs' m = (bit fs m && decide (m ≠ n))) :
    dzfsFreeBlocks fs = dzfsFreeBlocks fs' + 1 := by
  have hmem : n ∈ (Finset.range (covered fs)).filter fun m => bit fs m = true := by
    simp [hn, hfree]
  have herase : ((Finset.range (covered fs)).filter fun m => bit fs' m = true)
      = ((Finset.range (covered fs)).filter fun m => bit fs m = true).erase n := by
    ext m
    rw [Finset.mem_erase, Finset.mem_filter, Finset.mem_filter, Finset.mem_range]
    constructor
    · rintro ⟨hm, hbit⟩
      rw [hbits m hm, Bool.and_eq_true, decide_eq_true_eq] at hbit
      exact ⟨hbit.2, hm, hbit.1⟩
    · rintro ⟨hne, hm, hbit⟩
      refine ⟨hm, ?_⟩
      rw [hbits m hm, hbit, Bool.true_and, decide_eq_true_eq]
      exact hne
  rw [dzfsFreeBlocks_eq_card hlt, dzfsFreeBlocks_eq_card (hcov ▸ hlt), hcov, herase,
    Finset.card_erase_add_one hmem]

end

end DzOS.Proofs.Fs
