import DzOS.Proofs.Fs.FreeBlocks

/-!
# `DzOS.Proofs.Fs.BlockAllocator`: the block allocator of a bitmap

`block_alloc` takes the least free block, `block_free` gives it back, and `dzfs_free_blocks`
counts. `blockFree_blockAlloc` says that the two undo each other, and `blockAllocator_spec` is the
whole law, for every bitmap whose bit 0 is 0.
-/

set_option autoImplicit false

namespace DzOS.Proofs.Fs

open DzOS.Lib DzOS.Fs

variable {fs : Dzfs} {n : Nat}

/-- `block_alloc` with a free block clears the bit that its search finds. -/
theorem blockAlloc_snd (hd : (blockAlloc fs).1 ≠ 0) :
    (blockAlloc fs).2 = fs.writeBlock (bitmapBlock (blockAlloc fs).1)
      (bitmapClear (fs.disk (bitmapBlock (blockAlloc fs).1))
        ((blockAlloc fs).1 % DZFS_BITSET_COVERED_BLOCKS)) := by
  rw [blockAlloc_fst] at hd ⊢
  unfold blockAlloc
  dsimp only
  rw [if_neg hd]

/-- A 1 bit that is cleared and set again. -/
theorem bitmapSet_bitmapClear {b : Bytes} {i : Nat} (hi : i < DZFS_BITSET_COVERED_BLOCKS)
    (h : (b (i / 8)).toNat.testBit (i % 8) = true) : bitmapSet (bitmapClear b i) i = b := by
  refine bytes_eq_of_bits fun j => ?_
  rw [bitmapSet_testBit _ hi, bitmapClear_testBit _ hi]
  by_cases hj : j = i
  · rw [hj, h, decide_eq_true rfl, Bool.or_true]
  · rw [decide_eq_false hj, decide_eq_true hj, Bool.or_false, Bool.and_true]

/-- `block_free` of the allocated block undoes `block_alloc`. -/
theorem blockFree_blockAlloc (hd : (blockAlloc fs).1 ≠ 0) (hbit : bit fs (blockAlloc fs).1 = true) :
    blockFree (blockAlloc fs).2 (blockAlloc fs).1 = fs := by
  rw [blockAlloc_snd hd]
  -- Only the bit of the block matters from here on, not the search.
  generalize (blockAlloc fs).1 = n at hbit
  rw [bit_index] at hbit
  unfold blockFree
  simp only [Dzfs.readBlock, Dzfs.writeBlock, Function.update_self, Function.update_idem,
    bitmapSet_bitmapClear (mod_covered_lt n) hbit, Function.update_eq_self]

/-- What a successful `block_alloc` leaves: it returned the least free block `n`, and only its bit
has changed. -/
structure TakesLeast (fs fs' : Dzfs) (n : Nat) : Prop where
  covered : n < covered fs
  free : bit fs n = true
  least : ∀ m < n, bit fs m = false
  bits : ∀ m, bit fs' m = (bit fs m && decide (m ≠ n))
  others : BitsOnly fs fs'

theorem blockAlloc_takesLeast (hboot : bit fs 0 = false) (hd : (blockAlloc fs).1 ≠ 0) :
    TakesLeast fs (blockAlloc fs).2 (blockAlloc fs).1 := by
  -- The search fails or finds a free block; that it is the least one is a fact about the search.
  rcases blockAlloc_spec fs with hfull | ⟨n, fs', halloc, -, hn, hfree, honly, hbits⟩
  · rw [hfull] at hd
    exact absurd rfl hd
  · have hsearch := blockAlloc_fst fs
    rw [halloc] at hsearch ⊢
    refine ⟨hn, hfree, fun m hm => ?_, hbits, honly⟩
    exact bit_of_searchFree hboot _ 0 m (Nat.zero_le _) (Or.inl (hsearch ▸ hm))

/-- One block more is free after `block_free` of an allocated block. -/
theorem dzfsFreeBlocks_blockFree (hlt : covered fs < 2 ^ 32) (hn : n < covered fs)
    (hused : bit fs n = false) : dzfsFreeBlocks (blockFree fs n) = dzfsFreeBlocks fs + 1 := by
  obtain ⟨honly, hbits⟩ := blockFree_spec hn
  refine dzfsFreeBlocks_take (honly.covered ▸ hlt) honly.covered.symm (honly.covered ▸ hn)
    (by rw [hbits, decide_eq_true rfl, Bool.or_true]) fun m _ => ?_
  rw [hbits]
  by_cases hm : m = n
  · rw [hm, hused, decide_eq_true rfl, decide_eq_false (not_not_intro rfl), Bool.and_false]
  · rw [decide_eq_false hm, decide_eq_true hm, Bool.or_false, Bool.and_true]

/-- The law of the block allocator: `block_alloc` returns 0 and changes nothing if and only if no
block is free. Otherwise it takes the least free block, which `block_free` gives back. And
`dzfs_free_blocks` is the number of free blocks. -/
theorem blockAllocator_spec (hlt : covered fs < 2 ^ 32) (hboot : bit fs 0 = false) :
    (blockAlloc fs = (0, fs) ↔ ∀ m < covered fs, bit fs m = false) ∧
      ((∃ m < covered fs, bit fs m = true) →
        (blockAlloc fs).1 ≠ 0 ∧ TakesLeast fs (blockAlloc fs).2 (blockAlloc fs).1 ∧
          blockFree (blockAlloc fs).2 (blockAlloc fs).1 = fs ∧
          dzfsFreeBlocks fs = dzfsFreeBlocks (blockAlloc fs).2 + 1) ∧
      dzfsFreeBlocks fs = ((Finset.range (covered fs)).filter fun m => bit fs m = true).card ∧
      ∀ n < covered fs, bit fs n = false →
        dzfsFreeBlocks (blockFree fs n) = dzfsFreeBlocks fs + 1 := by
  have hzero : (blockAlloc fs).1 = 0 ↔ ∀ m < covered fs, bit fs m = false :=
    (blockAlloc_eq_zero_iff hlt hboot).trans (dzfsFreeBlocks_eq_zero_iff hlt)
  refine ⟨⟨fun hfull => hzero.mp (congrArg Prod.fst hfull), fun hnone => ?_⟩, ?_,
    dzfsFreeBlocks_eq_card hlt, fun n => dzfsFreeBlocks_blockFree hlt⟩
  · rcases blockAlloc_spec fs with hfull | ⟨n, fs', -, -, hn, hfree, -⟩
    · exact hfull
    · rw [hnone n hn] at hfree
      cases hfree
  · rintro ⟨m, hm, hfree⟩
    have hne : (blockAlloc fs).1 ≠ 0 := by
      intro hfull
      rw [hzero.mp hfull m hm] at hfree
      cases hfree
    have htakes := blockAlloc_takesLeast hboot hne
    exact ⟨hne, htakes, blockFree_blockAlloc hne htakes.free,
      dzfsFreeBlocks_take hlt htakes.others.covered htakes.covered htakes.free
        fun k _ => htakes.bits k⟩

/-- A disk with one bitmap block whose blocks are free from block 4 on. -/
def fourUsed : Dzfs where
  disk := fun _ i => if i = 0 then 0xF0 else if i < DZFS_BLOCK_SIZE then 0xFF else 0
  freeBitmapBlocks := 1
  rootDnode := 3

/-- The law for this disk. -/
theorem blockAllocator_spec_fourUsed :
    (blockAlloc fourUsed).1 ≠ 0 ∧
      blockFree (blockAlloc fourUsed).2 (blockAlloc fourUsed).1 = fourUsed := by
  have hspec := blockAllocator_spec (show covered fourUsed < 2 ^ 32 by decide)
    (show bit fourUsed 0 = false by decide)
  obtain ⟨hne, -, hback, -⟩ := hspec.2.1 ⟨4, by decide, by decide⟩
  exact ⟨hne, hback⟩

end DzOS.Proofs.Fs
