import DzOS.Proofs.Fs.FreeBlocks

/-!
# `DzOS.Proofs.Fs.Format`: the bitmap of a formatted disk

`dzfsNew` writes the bitmap blocks one by one. `dzfsNew_bit` gives every bit that they have in
the end. The first bitmap block clears the blocks of the system (`bitmapClearAll` of the first
indices). The loop that clears what is behind the end of the disk goes through numbers of
blocks, but it clears them in the last bitmap block. These numbers are in the range of one
block only when the first bitmap block is the last one.

So the bits are right for a disk that one bitmap block covers, and for a disk that fills its
bitmap blocks and whose system blocks the first of them covers. `format_exact_iff` proves that
there are no others. `Formatted` is what the invariant of the file system needs of a formatted
disk. It holds up to `formatLimit`.
-/

set_option autoImplicit false

namespace DzOS.Proofs.Fs

open DzOS.Lib DzOS.Fs

variable {j blocks freeBitmapBlocks i : Nat} {fs : Dzfs}

/-- The size of the largest disk whose system blocks are all covered by the first bitmap
block. -/
def formatLimit : Nat := DZFS_BITSET_COVERED_BLOCKS * (DZFS_BITSET_COVERED_BLOCKS - 3)

/-! ### Clearing bits of one block -/

/-- `bitmapClearAll` clears the bits of its indices. An index behind the block has no
effect. -/
theorem bitmapClearAll_testBit (b : Bytes) (indices : List Nat)
    (hj : j < DZFS_BITSET_COVERED_BLOCKS) :
    (bitmapClearAll b indices (j / 8)).toNat.testBit (j % 8)
      = ((b (j / 8)).toNat.testBit (j % 8) && decide (j ∉ indices)) := by
  induction indices generalizing b with
  | nil => simp [bitmapClearAll]
  | cons i indices ih =>
    have hrest : bitmapClearAll b (i :: indices) = bitmapClearAll (bitmapClear b i) indices := rfl
    rw [hrest, ih]
    by_cases hi : i < DZFS_BITSET_COVERED_BLOCKS
    · rw [bitmapClear_testBit b hi]
      by_cases hji : j = i <;> simp [hji]
    · have hout : i / 8 ≥ DZFS_BLOCK_SIZE := by
        simp only [DZFS_BITSET_COVERED_BLOCKS] at hi
        omega
      have hji : j ≠ i := by omega
      rw [bitmapClear, if_pos hout]
      simp [hji]

/-- The block of ones that `dzfsNew` starts from. -/
def onesBlock : Bytes := fun _ => 0xFF

theorem onesBlock_testBit (i j : Nat) : (onesBlock i).toNat.testBit (j % 8) = true := by
  have hlt : j % 8 < 8 := Nat.mod_lt _ (by decide)
  have hall : ∀ k < 8, (0xFF : UInt8).toNat.testBit k = true := by decide
  exact hall _ hlt

/-! ### The writes of `formatBlocks` -/

/-- A run of writes of one block changes no variable of the file system. -/
theorem foldl_writeBlock (l : List Nat) (fs : Dzfs) (block : Nat → Nat) (b : Bytes) :
    (l.foldl (fun (fs : Dzfs) i => fs.writeBlock (block i) b) fs).freeBitmapBlocks
        = fs.freeBitmapBlocks ∧
      (l.foldl (fun (fs : Dzfs) i => fs.writeBlock (block i) b) fs).rootDnode = fs.rootDnode := by
  induction l generalizing fs with
  | nil => exact ⟨rfl, rfl⟩
  | cons i l ih => exact ih (fs.writeBlock (block i) b)

/-- The blocks after a run of writes of one block. -/
theorem foldl_writeBlock_disk (l : List Nat) (fs : Dzfs) (block : Nat → Nat) (b : Bytes)
    (m : Nat) : (l.foldl (fun (fs : Dzfs) i => fs.writeBlock (block i) b) fs).disk m
      = if ∃ i ∈ l, block i = m then b else fs.disk m := by
  induction l generalizing fs with
  | nil => simp
  | cons i l ih =>
    rw [List.foldl_cons, ih]
    by_cases hi : block i = m
    · have hself : (fs.writeBlock m b).disk m = b := Function.update_self _ _ _
      simp [hi, hself]
    · have hother : (fs.writeBlock (block i) b).disk m = fs.disk m :=
        Function.update_of_ne (Ne.symm hi) _ _
      simp [hi, hother]

theorem writeMiddleBitmaps_vars (fs : Dzfs) (ones : Bytes) :
    (writeMiddleBitmaps fs ones).freeBitmapBlocks = fs.freeBitmapBlocks ∧
      (writeMiddleBitmaps fs ones).rootDnode = fs.rootDnode :=
  foldl_writeBlock _ fs _ ones

/-- The middle bitmap blocks are those behind the first one and in front of the last one. -/
theorem writeMiddleBitmaps_disk (hpos : 0 < fs.freeBitmapBlocks)
    (hlt : fs.freeBitmapBlocks < 2 ^ 17) (ones : Bytes) {k : Nat} (h1 : 0 < k)
    (h2 : k + 1 < fs.freeBitmapBlocks) : (writeMiddleBitmaps fs ones).disk (k + 2) = ones := by
  have hlast : (fs.freeBitmapBlocks + 2 ^ 32 - 1) % 2 ^ 32 = fs.freeBitmapBlocks - 1 := by omega
  have hfold : writeMiddleBitmaps fs ones
      = (List.range ((fs.freeBitmapBlocks + 2 ^ 32 - 1) % 2 ^ 32 - 1)).foldl
        (fun (fs : Dzfs) i => fs.writeBlock ((2 + (i + 1)) % 2 ^ 32) ones) fs := rfl
  rw [hfold, hlast, foldl_writeBlock_disk, if_pos]
  exact ⟨k - 1, List.mem_range.mpr (by omega), by omega⟩

/-- The indices that `dzfsNew` clears at the end are the numbers of the covered blocks behind
the end of the disk. -/
theorem mem_indicesPastEnd (hpos : 0 < freeBitmapBlocks) (hlt : freeBitmapBlocks < 2 ^ 17) :
    j ∈ indicesPastEnd freeBitmapBlocks blocks ↔
      blocks ≤ j ∧ j < DZFS_BITSET_COVERED_BLOCKS * freeBitmapBlocks := by
  have hlast : (DZFS_BITSET_COVERED_BLOCKS * freeBitmapBlocks + 2 ^ 32 - 1) % 2 ^ 32
      = DZFS_BITSET_COVERED_BLOCKS * freeBitmapBlocks - 1 := by
    simp only [DZFS_BITSET_COVERED_BLOCKS, DZFS_BLOCK_SIZE]
    omega
  have hcover : 0 < DZFS_BITSET_COVERED_BLOCKS * freeBitmapBlocks :=
    Nat.mul_pos (by decide) hpos
  unfold indicesPastEnd
  simp only [hlast, List.mem_map, List.mem_range]
  generalize DZFS_BITSET_COVERED_BLOCKS * freeBitmapBlocks = covered at hcover ⊢
  constructor
  · rintro ⟨k, hk, rfl⟩
    omega
  · rintro ⟨h1, h2⟩
    exact ⟨covered - 1 - j, by omega, by omega⟩

/-- The first bitmap block, without the blocks of the system. -/
def firstBitmap (freeBitmapBlocks : Nat) : Bytes :=
  bitmapClearAll onesBlock (List.range (freeBitmapBlocks + 3))

/-- The last bitmap block. -/
def lastBitmap (freeBitmapBlocks blocks : Nat) : Bytes :=
  bitmapClearAll (if freeBitmapBlocks ≠ 1 then onesBlock else firstBitmap freeBitmapBlocks)
    (indicesPastEnd freeBitmapBlocks blocks)

/-- The writes of `formatBlocks` behind those of the middle bitmap blocks. -/
theorem formatBlocks_eq (fs : Dzfs) (blocks : Nat) (date : UInt64) :
    formatBlocks fs blocks date
      = (((writeMiddleBitmaps fs onesBlock).writeBlock 2
          (firstBitmap fs.freeBitmapBlocks)).writeBlock
          (2 + fs.freeBitmapBlocks - 1) (lastBitmap fs.freeBitmapBlocks blocks)).writeBlock
          fs.rootDnode (rootFolder fs.rootDnode date) := by
  obtain ⟨hF, hR⟩ := writeMiddleBitmaps_vars fs onesBlock
  have hvars : ∀ (fs : Dzfs) (n : Nat) (b : Bytes),
      (fs.writeBlock n b).freeBitmapBlocks = fs.freeBitmapBlocks ∧
        (fs.writeBlock n b).rootDnode = fs.rootDnode := fun _ _ _ => ⟨rfl, rfl⟩
  unfold formatBlocks lastBitmap firstBitmap
  unfold onesBlock at hF hR ⊢
  simp only [hvars, hF, hR]

theorem firstBitmap_testBit (freeBitmapBlocks : Nat) (hj : j < DZFS_BITSET_COVERED_BLOCKS) :
    (firstBitmap freeBitmapBlocks (j / 8)).toNat.testBit (j % 8)
      = decide (freeBitmapBlocks + 3 ≤ j) := by
  have hmem : j ∉ List.range (freeBitmapBlocks + 3) ↔ freeBitmapBlocks + 3 ≤ j := by
    rw [List.mem_range, not_lt]
  rw [firstBitmap, bitmapClearAll_testBit _ _ hj, onesBlock_testBit, Bool.true_and]
  simp only [hmem]

theorem lastBitmap_testBit (blocks : Nat) (hpos : 0 < freeBitmapBlocks)
    (hlt : freeBitmapBlocks < 2 ^ 17) (hj : j < DZFS_BITSET_COVERED_BLOCKS) :
    (lastBitmap freeBitmapBlocks blocks (j / 8)).toNat.testBit (j % 8)
      = ((decide (freeBitmapBlocks ≠ 1) || decide (freeBitmapBlocks + 3 ≤ j)) &&
        decide (j < blocks)) := by
  have hcover : j < DZFS_BITSET_COVERED_BLOCKS * freeBitmapBlocks :=
    lt_of_lt_of_le hj (Nat.le_mul_of_pos_right _ hpos)
  have hpast : j ∉ indicesPastEnd freeBitmapBlocks blocks ↔ j < blocks := by
    rw [mem_indicesPastEnd hpos hlt, not_and, not_lt]
    constructor
    · intro h
      by_contra hge
      exact absurd (h (not_lt.mp hge)) (not_le.mpr hcover)
    · intro h hle
      exact absurd h (not_lt.mpr hle)
  rw [lastBitmap, bitmapClearAll_testBit _ _ hj]
  simp only [hpast]
  congr 1
  by_cases hone : freeBitmapBlocks = 1
  · rw [if_neg (not_not_intro hone), firstBitmap_testBit _ hj]
    simp [hone]
  · rw [if_pos hone, onesBlock_testBit]
    simp [hone]

/-- The bits after `formatBlocks`. The last bitmap block is cleared at the numbers behind the
end of the disk, whatever the numbers of its own blocks are. -/
theorem formatBlocks_bit (hroot : fs.rootDnode = fs.freeBitmapBlocks + 2)
    (hpos : 0 < fs.freeBitmapBlocks) (hlt : fs.freeBitmapBlocks < 2 ^ 17) (blocks : Nat)
    (date : UInt64) (hi : i < covered fs) :
    bit (formatBlocks fs blocks date) i =
      ((decide (DZFS_BITSET_COVERED_BLOCKS ≤ i) || decide (fs.freeBitmapBlocks + 3 ≤ i)) &&
        (decide (bitmapBlock i ≠ fs.freeBitmapBlocks + 1) ||
          decide (i % DZFS_BITSET_COVERED_BLOCKS < blocks))) := by
  have hblock := bitmapBlock_lt hi
  have hfirst : bitmapBlock i = 2 ↔ i < DZFS_BITSET_COVERED_BLOCKS := by
    simp only [bitmapBlock, DZFS_BITSET_COVERED_BLOCKS, DZFS_BLOCK_SIZE]
    omega
  have hj8 : i % 8 = i % DZFS_BITSET_COVERED_BLOCKS % 8 := by
    simp only [DZFS_BITSET_COVERED_BLOCKS, DZFS_BLOCK_SIZE]
    omega
  have hends : 2 + fs.freeBitmapBlocks - 1 = fs.freeBitmapBlocks + 1 := by omega
  have hnotroot : bitmapBlock i ≠ fs.rootDnode := by omega
  have hj := mod_covered_lt i
  rw [formatBlocks_eq, hends]
  simp only [bit, Dzfs.writeBlock]
  rw [Function.update_of_ne hnotroot, hj8]
  by_cases hlast : bitmapBlock i = fs.freeBitmapBlocks + 1
  · rw [hlast, Function.update_self, lastBitmap_testBit blocks hpos hlt hj]
    by_cases hone : fs.freeBitmapBlocks = 1
    · -- The last bitmap block is the first one.
      have hsmall : i < DZFS_BITSET_COVERED_BLOCKS := hfirst.mp (by omega)
      rw [Nat.mod_eq_of_lt hsmall]
      simp [hone, hsmall.not_ge]
    · have hbig : ¬ i < DZFS_BITSET_COVERED_BLOCKS := by
        intro hsmall
        have htwo := hfirst.mpr hsmall
        omega
      simp [hone, not_lt.mp hbig]
  · rw [Function.update_of_ne hlast]
    by_cases htwo : bitmapBlock i = 2
    · have hsmall : i < DZFS_BITSET_COVERED_BLOCKS := hfirst.mp htwo
      have hone : 2 ≠ fs.freeBitmapBlocks + 1 := htwo ▸ hlast
      rw [htwo, Function.update_self, firstBitmap_testBit _ hj, Nat.mod_eq_of_lt hsmall]
      simp [hsmall.not_ge, hone]
    · have hbig : ¬ i < DZFS_BITSET_COVERED_BLOCKS := fun hsmall => htwo (hfirst.mpr hsmall)
      obtain ⟨k, hk⟩ : ∃ k, bitmapBlock i = k + 2 := ⟨bitmapBlock i - 2, by omega⟩
      have hone : k + 2 ≠ fs.freeBitmapBlocks + 1 := hk ▸ hlast
      rw [Function.update_of_ne htwo, hk, writeMiddleBitmaps_disk hpos hlt _ (by omega) (by omega),
        onesBlock_testBit]
      simp [not_lt.mp hbig, hone]

theorem formatBlocks_vars (fs : Dzfs) (blocks : Nat) (date : UInt64) :
    (formatBlocks fs blocks date).freeBitmapBlocks = fs.freeBitmapBlocks ∧
      (formatBlocks fs blocks date).rootDnode = fs.rootDnode := by
  rw [formatBlocks_eq]
  obtain ⟨hF, hR⟩ := writeMiddleBitmaps_vars fs onesBlock
  simp only [Dzfs.writeBlock, hF, hR, and_self]

/-! ### The formatted disk -/

/-- `free_bitmap_blocks` of a disk of `blocks` blocks, in the arithmetic of `uint32_t`. -/
def bitmapBlocksFor (blocks : Nat) : Nat :=
  (blocks + DZFS_BITSET_COVERED_BLOCKS - 1) % 2 ^ 32 / DZFS_BITSET_COVERED_BLOCKS

/-- The sum overflows for the largest disks, and then there are no bitmap blocks. Otherwise
the bitmap blocks cover the disk, and the last one is needed. -/
theorem bitmapBlocksFor_spec (hlt : blocks < 2 ^ 32) (hpos : 0 < blocks) :
    (bitmapBlocksFor blocks = 0 ∧ 2 ^ 32 - DZFS_BITSET_COVERED_BLOCKS < blocks) ∨
      (0 < bitmapBlocksFor blocks ∧ bitmapBlocksFor blocks < 2 ^ 17 ∧
        blocks ≤ DZFS_BITSET_COVERED_BLOCKS * bitmapBlocksFor blocks ∧
        DZFS_BITSET_COVERED_BLOCKS * bitmapBlocksFor blocks
          < blocks + DZFS_BITSET_COVERED_BLOCKS) := by
  simp only [bitmapBlocksFor, DZFS_BITSET_COVERED_BLOCKS, DZFS_BLOCK_SIZE]
  omega

section
variable {disk : Nat → Bytes} {blocks : Nat} {date : UInt64} {fs : Dzfs}

/-- What a successful `dzfsNew` did. -/
theorem dzfsNew_ok (hnew : dzfsNew disk blocks date = (.OK, fs)) :
    4 < blocks ∧ bitmapBlocksFor blocks + 3 < blocks ∧
      fs = formatBlocks ⟨Function.update disk 1 (superblock blocks), bitmapBlocksFor blocks,
        2 + bitmapBlocksFor blocks⟩ blocks date := by
  unfold dzfsNew at hnew
  simp only [← bitmapBlocksFor.eq_def] at hnew
  split at hnew
  · cases hnew
  · split at hnew
    · cases hnew
    · exact ⟨by omega, by omega, (congrArg Prod.snd hnew).symm⟩

theorem dzfsNew_vars (hnew : dzfsNew disk blocks date = (.OK, fs)) :
    fs.freeBitmapBlocks = bitmapBlocksFor blocks ∧
      fs.rootDnode = fs.freeBitmapBlocks + 2 := by
  obtain ⟨-, -, rfl⟩ := dzfsNew_ok hnew
  rw [(formatBlocks_vars _ blocks date).1, (formatBlocks_vars _ blocks date).2]
  exact ⟨rfl, Nat.add_comm _ _⟩

/-- The bits of a formatted disk. -/
theorem dzfsNew_bit (hlt : blocks < 2 ^ 32) (hnew : dzfsNew disk blocks date = (.OK, fs))
    (hi : i < covered fs) :
    bit fs i =
      ((decide (DZFS_BITSET_COVERED_BLOCKS ≤ i) || decide (fs.freeBitmapBlocks + 3 ≤ i)) &&
        (decide (bitmapBlock i ≠ fs.freeBitmapBlocks + 1) ||
          decide (i % DZFS_BITSET_COVERED_BLOCKS < blocks))) := by
  have hF := (dzfsNew_vars hnew).1
  obtain ⟨h4, -, rfl⟩ := dzfsNew_ok hnew
  have hpos : 0 < bitmapBlocksFor blocks := by
    rw [covered, hF] at hi
    exact Nat.pos_of_mul_pos_left (Nat.zero_lt_of_lt hi)
  have hsmall : bitmapBlocksFor blocks < 2 ^ 17 := by
    rcases bitmapBlocksFor_spec hlt (Nat.zero_lt_of_lt h4) with ⟨hz, -⟩ | ⟨-, h17, -⟩
    · omega
    · exact h17
  rw [hF]
  rw [covered, hF] at hi
  exact formatBlocks_bit (Nat.add_comm _ _) hpos hsmall blocks date hi

/-- The root folder of a formatted disk. -/
theorem dzfsNew_root (hnew : dzfsNew disk blocks date = (.OK, fs)) :
    fs.disk fs.rootDnode = rootFolder fs.rootDnode date := by
  obtain ⟨-, -, rfl⟩ := dzfsNew_ok hnew
  rw [(formatBlocks_vars _ blocks date).2, formatBlocks_eq]
  exact Function.update_self _ _ _

end

/-- What the file system needs of a formatted disk. -/
structure Formatted (fs : Dzfs) : Prop where
  root_eq : fs.rootDnode = fs.freeBitmapBlocks + 2
  bitmap_pos : 0 < fs.freeBitmapBlocks
  bitmap_le : fs.freeBitmapBlocks + 3 ≤ DZFS_BITSET_COVERED_BLOCKS
  root : ∃ date, fs.disk fs.rootDnode = rootFolder fs.rootDnode date
  low : ∀ n ≤ fs.rootDnode, bit fs n = false

section
variable {disk : Nat → Bytes} {blocks : Nat} {date : UInt64} {fs : Dzfs}

theorem dzfsNew_formatted (hle : blocks ≤ formatLimit)
    (hnew : dzfsNew disk blocks date = (.OK, fs)) : Formatted fs := by
  obtain ⟨hF, hroot⟩ := dzfsNew_vars hnew
  obtain ⟨h4, -, -⟩ := dzfsNew_ok hnew
  have hlt : blocks < 2 ^ 32 := lt_of_le_of_lt hle (by decide)
  have hbitmap : 0 < fs.freeBitmapBlocks ∧
      fs.freeBitmapBlocks + 3 ≤ DZFS_BITSET_COVERED_BLOCKS := by
    rcases bitmapBlocksFor_spec hlt (Nat.zero_lt_of_lt h4) with ⟨-, hbig⟩ | ⟨hpos, -, -, hmul⟩
    · simp only [formatLimit, DZFS_BITSET_COVERED_BLOCKS, DZFS_BLOCK_SIZE] at hle hbig
      omega
    · rw [hF]
      refine ⟨hpos, ?_⟩
      simp only [formatLimit, DZFS_BITSET_COVERED_BLOCKS, DZFS_BLOCK_SIZE] at hle hmul ⊢
      omega
  refine ⟨hroot, hbitmap.1, hbitmap.2, ⟨date, dzfsNew_root hnew⟩, fun n hn => ?_⟩
  have hcov : n < covered fs := by
    simp only [covered, DZFS_BITSET_COVERED_BLOCKS, DZFS_BLOCK_SIZE] at hbitmap ⊢
    omega
  rw [dzfsNew_bit hlt hnew hcov]
  have h1 : ¬ DZFS_BITSET_COVERED_BLOCKS ≤ n := by omega
  have h2 : ¬ fs.freeBitmapBlocks + 3 ≤ n := by omega
  simp [h1, h2]

end

/-! ### Allocations and frees on a formatted disk -/

/-- The allocations and frees from the disk `fs₀` on, with writes outside the bitmap between
them. `A` are the blocks that were allocated and not freed since, and only they are freed. -/
inductive BitmapRun (fs₀ : Dzfs) : Dzfs → Finset Nat → Prop
  | start : BitmapRun fs₀ fs₀ ∅
  | alloc {fs : Dzfs} {A : Finset Nat} : BitmapRun fs₀ fs A → (blockAlloc fs).1 ≠ 0 →
      BitmapRun fs₀ (blockAlloc fs).2 (insert (blockAlloc fs).1 A)
  | free {fs : Dzfs} {A : Finset Nat} (n : Nat) : BitmapRun fs₀ fs A → n ∈ A →
      BitmapRun fs₀ (blockFree fs n) (A.erase n)
  | write {fs : Dzfs} {A : Finset Nat} (m : Nat) (b : Bytes) : BitmapRun fs₀ fs A →
      m < 2 ∨ fs.freeBitmapBlocks + 2 ≤ m → BitmapRun fs₀ (fs.writeBlock m b) A

/-- The free blocks and the blocks in `A` have numbers below `blocks`. -/
structure InDisk (blocks : Nat) (fs : Dzfs) (A : Finset Nat) : Prop where
  free : ∀ i < covered fs, bit fs i = true → i < blocks
  allocated : ∀ n ∈ A, n < blocks ∧ n < covered fs

section
variable {blocks : Nat} {fs fs₀ : Dzfs} {A : Finset Nat}

/-- An allocation returns a free block. -/
theorem InDisk.alloc (h : InDisk blocks fs A) (hne : (blockAlloc fs).1 ≠ 0) :
    (blockAlloc fs).1 < blocks ∧
      InDisk blocks (blockAlloc fs).2 (insert (blockAlloc fs).1 A) := by
  rcases blockAlloc_spec fs with hfail | ⟨n, fs', hok, -, hcov, hbit, honly, hbits⟩
  · rw [hfail] at hne
    exact absurd rfl hne
  · have hn := h.free n hcov hbit
    rw [hok]
    refine ⟨hn, fun i hi hfree => ?_, fun m hm => ?_⟩
    · rw [honly.covered] at hi
      rw [hbits, Bool.and_eq_true] at hfree
      exact h.free i hi hfree.1
    · rw [honly.covered]
      rcases Finset.mem_insert.mp hm with rfl | hm
      · exact ⟨hn, hcov⟩
      · exact h.allocated m hm

theorem InDisk.blockFree (h : InDisk blocks fs A) {n : Nat} (hn : n ∈ A) :
    InDisk blocks (blockFree fs n) (A.erase n) := by
  obtain ⟨honly, hbits⟩ := blockFree_spec (h.allocated n hn).2
  refine ⟨fun i hi hfree => ?_, fun m hm => ?_⟩
  · rw [honly.covered] at hi
    rw [hbits, Bool.or_eq_true, decide_eq_true_eq] at hfree
    rcases hfree with hfree | rfl
    · exact h.free i hi hfree
    · exact (h.allocated i hn).1
  · rw [honly.covered]
    exact h.allocated m (Finset.mem_of_mem_erase hm)

theorem InDisk.writeBlock (h : InDisk blocks fs A) {m : Nat}
    (hm : m < 2 ∨ fs.freeBitmapBlocks + 2 ≤ m) (b : Bytes) :
    InDisk blocks (fs.writeBlock m b) A :=
  ⟨fun i hi hfree => h.free i hi (bit_writeBlock_apart hm b hi ▸ hfree), h.allocated⟩

/-- Every state of a run keeps to the numbers below `blocks`. -/
theorem BitmapRun.inDisk (h : BitmapRun fs₀ fs A) (h₀ : InDisk blocks fs₀ ∅) :
    InDisk blocks fs A := by
  induction h with
  | start => exact h₀
  | alloc _ hne ih => exact (ih.alloc hne).2
  | free n _ hn ih => exact ih.blockFree hn
  | write m b _ hm ih => exact ih.writeBlock hm b

end

/-! ### The law of a formatted disk -/

/-- The bitmap of a disk of `blocks` blocks marks the blocks behind the root folder as free,
and no others. -/
structure FormatLaw (blocks : Nat) (fs : Dzfs) : Prop where
  root : fs.rootDnode = fs.freeBitmapBlocks + 2
  bits : ∀ i < covered fs, bit fs i = true ↔ fs.freeBitmapBlocks + 3 ≤ i ∧ i < blocks
  freeBlocks : dzfsFreeBlocks fs = blocks - fs.freeBitmapBlocks - 3
  alloc : ∀ fs' A, BitmapRun fs fs' A → (blockAlloc fs').1 < blocks

section
variable {disk : Nat → Bytes} {blocks : Nat} {date : UInt64} {fs : Dzfs}

/-- The rest of the law follows from the bits, when they cover the disk. -/
theorem FormatLaw.of_bits (hpos : 0 < blocks) (hlt : covered fs < 2 ^ 32)
    (hcov : blocks ≤ covered fs) (hroot : fs.rootDnode = fs.freeBitmapBlocks + 2)
    (hbits : ∀ i < covered fs, bit fs i = true ↔ fs.freeBitmapBlocks + 3 ≤ i ∧ i < blocks) :
    FormatLaw blocks fs where
  root := hroot
  bits := hbits
  freeBlocks := by
    have hset : ((Finset.range (covered fs)).filter fun n => bit fs n = true)
        = Finset.Ico (fs.freeBitmapBlocks + 3) blocks := by
      ext i
      rw [Finset.mem_filter, Finset.mem_range, Finset.mem_Ico]
      constructor
      · rintro ⟨hi, hbit⟩
        exact (hbits i hi).mp hbit
      · intro hi
        have hicov := lt_of_lt_of_le hi.2 hcov
        exact ⟨hicov, (hbits i hicov).mpr hi⟩
    rw [dzfsFreeBlocks_eq_card hlt, hset, Nat.card_Ico, Nat.sub_sub]
  alloc fs' A hrun := by
    have hstart : InDisk blocks fs ∅ :=
      ⟨fun i hi hbit => ((hbits i hi).mp hbit).2, fun n hn => absurd hn (Finset.notMem_empty n)⟩
    by_cases hne : (blockAlloc fs').1 = 0
    · rw [hne]
      exact hpos
    · exact ((hrun.inDisk hstart).alloc hne).1

/-- The bits of a disk that its bitmap covers are right if and only if the disk needs one
bitmap block, or it fills its bitmap blocks and the first of them covers the system. -/
theorem bits_exact_iff (hlt : blocks < 2 ^ 32) (hnew : dzfsNew disk blocks date = (.OK, fs))
    (hpos : 0 < fs.freeBitmapBlocks) (hcov : blocks ≤ covered fs)
    (hmin : covered fs < blocks + DZFS_BITSET_COVERED_BLOCKS) :
    (∀ i < covered fs, bit fs i = true ↔ fs.freeBitmapBlocks + 3 ≤ i ∧ i < blocks) ↔
      fs.freeBitmapBlocks = 1 ∨
        blocks = covered fs ∧ fs.freeBitmapBlocks + 3 ≤ DZFS_BITSET_COVERED_BLOCKS := by
  have hbit := fun i (hi : i < covered fs) => dzfsNew_bit hlt hnew hi
  constructor
  · intro hexact
    by_contra hcond
    rw [not_or, not_and_or] at hcond
    obtain ⟨hone, hcond⟩ := hcond
    have htwo : DZFS_BITSET_COVERED_BLOCKS < covered fs := by
      simp only [covered, DZFS_BITSET_COVERED_BLOCKS, DZFS_BLOCK_SIZE]
      omega
    -- With two bitmap blocks or more, every bit behind the first block stays set.
    have hset : ∀ i, DZFS_BITSET_COVERED_BLOCKS ≤ i → i < covered fs → bit fs i = true := by
      intro i hi hicov
      have hsmall : i % DZFS_BITSET_COVERED_BLOCKS < blocks := by
        have hmod := mod_covered_lt i
        simp only [covered, DZFS_BITSET_COVERED_BLOCKS, DZFS_BLOCK_SIZE] at hmin hmod ⊢
        omega
      rw [hbit i hicov]
      simp [hi, hsmall]
    rcases hcond with hcond | hcond
    · have hlast := hset (covered fs - 1) (by omega) (by omega)
      have hin := ((hexact _ (by omega)).mp hlast).2
      omega
    · have hfirst := hset DZFS_BITSET_COVERED_BLOCKS (Nat.le_refl _) htwo
      exact hcond ((hexact _ htwo).mp hfirst).1
  · intro hcond i hi
    have hmod := Nat.mod_le i DZFS_BITSET_COVERED_BLOCKS
    rw [hbit i hi, Bool.and_eq_true, Bool.or_eq_true, Bool.or_eq_true, decide_eq_true_eq,
      decide_eq_true_eq, decide_eq_true_eq, decide_eq_true_eq]
    rcases hcond with hone | ⟨hfill, hfits⟩
    · have hsmall : i < DZFS_BITSET_COVERED_BLOCKS := by
        rwa [covered, hone, Nat.mul_one] at hi
      have hblock : bitmapBlock i = fs.freeBitmapBlocks + 1 := by
        have hin := bitmapBlock_lt hi
        omega
      rw [hblock, Nat.mod_eq_of_lt hsmall]
      omega
    · omega

/-- The bits of a disk that fits one bitmap block. -/
theorem dzfsNew_bits (hle : blocks ≤ DZFS_BITSET_COVERED_BLOCKS)
    (hnew : dzfsNew disk blocks date = (.OK, fs)) :
    blocks ≤ covered fs ∧
      ∀ i < covered fs, bit fs i = true ↔ fs.freeBitmapBlocks + 3 ≤ i ∧ i < blocks := by
  have hlt : blocks < 2 ^ 32 := lt_of_le_of_lt hle (by decide)
  obtain ⟨hF, -⟩ := dzfsNew_vars hnew
  obtain ⟨h4, -, -⟩ := dzfsNew_ok hnew
  rcases bitmapBlocksFor_spec hlt (Nat.zero_lt_of_lt h4) with ⟨-, hbig⟩ | ⟨hpos, -, hge, hmin⟩
  · simp only [DZFS_BITSET_COVERED_BLOCKS, DZFS_BLOCK_SIZE] at hle hbig
    omega
  · rw [← hF] at hpos hge hmin
    have hone : fs.freeBitmapBlocks = 1 := by
      simp only [DZFS_BITSET_COVERED_BLOCKS, DZFS_BLOCK_SIZE] at hle hmin
      omega
    exact ⟨hge, (bits_exact_iff hlt hnew hpos hge hmin).mpr (Or.inl hone)⟩

/-- Formatting marks exactly the usable blocks as free if and only if the disk fits one bitmap
block, or it fills its bitmap blocks and the first of them covers the system. -/
theorem format_exact_iff (hlt : blocks < 2 ^ 32)
    (hnew : dzfsNew disk blocks date = (.OK, fs)) :
    FormatLaw blocks fs ↔ blocks ≤ DZFS_BITSET_COVERED_BLOCKS ∨
      (DZFS_BITSET_COVERED_BLOCKS ∣ blocks ∧ blocks ≤ formatLimit) := by
  obtain ⟨hF, hroot⟩ := dzfsNew_vars hnew
  obtain ⟨h4, -, -⟩ := dzfsNew_ok hnew
  rcases bitmapBlocksFor_spec hlt (Nat.zero_lt_of_lt h4) with ⟨hzero, hbig⟩ | ⟨hpos, h17, hge, hmin⟩
  · -- There is no bitmap block, so there is no free block either.
    rw [← hF] at hzero
    constructor
    · intro hlaw
      have hfree := hlaw.freeBlocks
      rw [dzfsFreeBlocks_eq, covered, hzero, Nat.mul_zero, Nat.count_zero, Nat.zero_mod] at hfree
      omega
    · simp only [formatLimit, DZFS_BITSET_COVERED_BLOCKS, DZFS_BLOCK_SIZE] at hbig ⊢
      omega
  · rw [← hF] at hpos h17 hge hmin
    have hcov32 : covered fs < 2 ^ 32 := by
      simp only [covered, DZFS_BITSET_COVERED_BLOCKS, DZFS_BLOCK_SIZE]
      omega
    have hcond : (fs.freeBitmapBlocks = 1 ∨
        blocks = covered fs ∧ fs.freeBitmapBlocks + 3 ≤ DZFS_BITSET_COVERED_BLOCKS) ↔
        blocks ≤ DZFS_BITSET_COVERED_BLOCKS ∨
          (DZFS_BITSET_COVERED_BLOCKS ∣ blocks ∧ blocks ≤ formatLimit) := by
      simp only [covered, formatLimit, DZFS_BITSET_COVERED_BLOCKS, DZFS_BLOCK_SIZE] at hge hmin ⊢
      omega
    rw [← hcond, ← bits_exact_iff hlt hnew hpos hge hmin]
    exact ⟨fun hlaw => hlaw.bits,
      fun hbits => FormatLaw.of_bits (Nat.zero_lt_of_lt h4) hcov32 hge hroot hbits⟩

end

/-- A disk of 17 blocks. -/
theorem format_exact_iff_seventeen :
    FormatLaw 17 (dzfsNew (fun _ => Bytes.zero) 17 0).2 ↔ 17 ≤ DZFS_BITSET_COVERED_BLOCKS ∨
      (DZFS_BITSET_COVERED_BLOCKS ∣ 17 ∧ 17 ≤ formatLimit) :=
  format_exact_iff (by decide) (Prod.ext (by decide) rfl)

/-- On a disk of 32769 blocks, the last block that the bitmap covers is marked as free. -/
theorem format_marks_past_end :
    (dzfsNew (fun _ => Bytes.zero) 32769 0).1 = .OK ∧
      ¬ FormatLaw 32769 (dzfsNew (fun _ => Bytes.zero) 32769 0).2 := by
  have hok : (dzfsNew (fun _ => Bytes.zero) 32769 0).1 = .OK := by decide
  have hnew : dzfsNew (fun _ => Bytes.zero) 32769 0
      = (.OK, (dzfsNew (fun _ => Bytes.zero) 32769 0).2) := Prod.ext hok rfl
  have hF : (dzfsNew (fun _ => Bytes.zero) 32769 0).2.freeBitmapBlocks = 2 :=
    (dzfsNew_vars hnew).1
  have hcov : 65535 < covered (dzfsNew (fun _ => Bytes.zero) 32769 0).2 := by
    rw [covered, hF]
    decide
  have hbit := dzfsNew_bit (by decide) hnew hcov
  refine ⟨hok, fun hlaw => ?_⟩
  have hset : bit (dzfsNew (fun _ => Bytes.zero) 32769 0).2 65535 = true := by
    rw [hbit, hF]
    decide
  exact absurd ((hlaw.bits _ hcov).mp hset).2 (by decide)

end DzOS.Proofs.Fs
