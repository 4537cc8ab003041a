import DzOS.Fs.Dzfs
import DzOS.Lib.Mask

/-!
# `DzOS.Proofs.Fs.Bitmap`: the free bitmap

`bit fs n` is the bit of block `n` in the free bitmap of the disk. `blockAlloc_spec` and
`blockFree_spec` say what the two functions do to the bits: `blockAlloc` returns a block
whose bit was 1 and clears that bit only, and `blockFree` sets the bit of its block only.
Both write to bitmap blocks only (`BitsOnly`).
-/

set_option autoImplicit false

namespace DzOS.Proofs.Fs

open DzOS.Lib DzOS.Fs

variable {b : Bytes} {fs' fs : Dzfs} {k i freeBlock : Nat} {x : UInt8}

/-- The bit of block `n` in the free bitmap: 1 for a free block. -/
def bit (fs : Dzfs) (n : Nat) : Bool :=
  (fs.disk (bitmapBlock n) (n % DZFS_BITSET_COVERED_BLOCKS / 8)).toNat.testBit (n % 8)

/-- The number of blocks that the bitmap covers. -/
def covered (fs : Dzfs) : Nat := DZFS_BITSET_COVERED_BLOCKS * fs.freeBitmapBlocks

@[simp] theorem covered_writeBlock (fs : Dzfs) (m : Nat) (b : Bytes) :
    covered (fs.writeBlock m b) = covered fs := rfl

/-- The disk of `fs'` is that of `fs` up to the bitmap blocks. -/
structure BitsOnly (fs fs' : Dzfs) : Prop where
  freeBitmapBlocks : fs'.freeBitmapBlocks = fs.freeBitmapBlocks
  rootDnode : fs'.rootDnode = fs.rootDnode
  disk : ∀ m, m < 2 ∨ fs.freeBitmapBlocks + 2 ≤ m → fs'.disk m = fs.disk m

theorem BitsOnly.refl (fs : Dzfs) : BitsOnly fs fs := ⟨rfl, rfl, fun _ _ => rfl⟩

theorem BitsOnly.trans {fs'' : Dzfs} (h : BitsOnly fs fs') (h' : BitsOnly fs' fs'') :
    BitsOnly fs fs'' where
  freeBitmapBlocks := h'.freeBitmapBlocks.trans h.freeBitmapBlocks
  rootDnode := h'.rootDnode.trans h.rootDnode
  disk m hm := (h'.disk m (by rw [h.freeBitmapBlocks]; exact hm)).trans (h.disk m hm)

theorem BitsOnly.covered (h : BitsOnly fs fs') : covered fs' = covered fs := by
  simp only [Fs.covered, h.freeBitmapBlocks]

/-! ### One bit of one block -/

theorem bitmapClear_testBit (b : Bytes) (hi : i < DZFS_BITSET_COVERED_BLOCKS) (j : Nat) :
    (bitmapClear b i (j / 8)).toNat.testBit (j % 8)
      = ((b (j / 8)).toNat.testBit (j % 8) && decide (j ≠ i)) := by
  have hin : ¬ i / 8 ≥ DZFS_BLOCK_SIZE := by
    simp only [DZFS_BITSET_COVERED_BLOCKS] at hi
    omega
  simp only [bitmapClear, if_neg hin, Bytes.set]
  by_cases hbyte : j / 8 = i / 8
  · have hij : j ≠ i ↔ j % 8 ≠ i % 8 := by omega
    rw [if_pos hbyte, hbyte, testBit_clearBit _ (Nat.mod_lt _ (by decide))
      (Nat.mod_lt _ (by decide))]
    simp [hij]
  · have hij : j ≠ i := by
      rintro rfl
      exact hbyte rfl
    rw [if_neg hbyte]
    simp [hij]

theorem bitmapSet_testBit (b : Bytes) (hi : i < DZFS_BITSET_COVERED_BLOCKS) (j : Nat) :
    (bitmapSet b i (j / 8)).toNat.testBit (j % 8)
      = ((b (j / 8)).toNat.testBit (j % 8) || decide (j = i)) := by
  have hin : ¬ i / 8 ≥ DZFS_BLOCK_SIZE := by
    simp only [DZFS_BITSET_COVERED_BLOCKS] at hi
    omega
  simp only [bitmapSet, if_neg hin, Bytes.set]
  by_cases hbyte : j / 8 = i / 8
  · have hij : j = i ↔ j % 8 = i % 8 := by omega
    rw [if_pos hbyte, hbyte, testBit_setBit _ (Nat.mod_lt _ (by decide))
      (Nat.mod_lt _ (by decide))]
    simp [hij]
  · have hij : j ≠ i := by
      rintro rfl
      exact hbyte rfl
    rw [if_neg hbyte]
    simp [hij]

/-! ### One bit of the bitmap -/

section
variable {fs : Dzfs} {n : Nat}

/-- The bitmap block of a covered block is one of the bitmap blocks. -/
theorem bitmapBlock_lt (hn : n < covered fs) :
    2 ≤ bitmapBlock n ∧ bitmapBlock n < fs.freeBitmapBlocks + 2 := by
  simp only [covered, DZFS_BITSET_COVERED_BLOCKS, DZFS_BLOCK_SIZE] at hn
  simp only [bitmapBlock, DZFS_BLOCK_SIZE]
  omega

/-- A write to the bitmap block of `n` in which the bits change as `f` says. -/
theorem bit_writeBitmap (f : Bool → Nat → Bool) (hb : ∀ j, (b (j / 8)).toNat.testBit (j % 8)
      = f ((fs.disk (bitmapBlock n) (j / 8)).toNat.testBit (j % 8)) j)
    (hf : ∀ x j, j ≠ n % DZFS_BITSET_COVERED_BLOCKS → f x j = x) (m : Nat) :
    bit (fs.writeBlock (bitmapBlock n) b) m =
      if m = n then f (bit fs n) (n % DZFS_BITSET_COVERED_BLOCKS) else bit fs m := by
  have hmod : m % DZFS_BITSET_COVERED_BLOCKS % 8 = m % 8 := by
    simp only [DZFS_BITSET_COVERED_BLOCKS, DZFS_BLOCK_SIZE]
    omega
  by_cases hm : bitmapBlock m = bitmapBlock n
  · have hbit := hb (m % DZFS_BITSET_COVERED_BLOCKS)
    rw [hmod] at hbit
    simp only [bit, Dzfs.writeBlock, hm, Function.update_self, hbit]
    split
    · rename_i heq
      rw [heq]
    · rename_i hne
      refine hf _ _ ?_
      simp only [bitmapBlock, DZFS_BLOCK_SIZE, DZFS_BITSET_COVERED_BLOCKS] at hm ⊢
      omega
  · have hne : m ≠ n := by
      rintro rfl
      exact hm rfl
    rw [if_neg hne]
    simp only [bit, Dzfs.writeBlock, Function.update_of_ne hm]

theorem bitsOnly_writeBitmap (hn : n < covered fs) (b : Bytes) :
    BitsOnly fs (fs.writeBlock (bitmapBlock n) b) := by
  have hblock := bitmapBlock_lt hn
  exact ⟨rfl, rfl, fun m hm => Function.update_of_ne (by omega) _ _⟩

/-- A write to another block does not change the bitmap. -/
theorem bit_writeBlock_apart {m : Nat} (hm : m < 2 ∨ fs.freeBitmapBlocks + 2 ≤ m) (b : Bytes)
    (hn : n < covered fs) : bit (fs.writeBlock m b) n = bit fs n := by
  have hblock := bitmapBlock_lt hn
  simp only [bit, Dzfs.writeBlock]
  rw [Function.update_of_ne (by omega)]

theorem mod_covered_lt (n : Nat) : n % DZFS_BITSET_COVERED_BLOCKS < DZFS_BITSET_COVERED_BLOCKS :=
  Nat.mod_lt _ (by decide)

/-- `blockFree` sets the bit of its block, also when the bitmap does not cover that block. -/
theorem bit_blockFree (fs : Dzfs) (n m : Nat) :
    bit (blockFree fs n) m = (bit fs m || decide (m = n)) := by
  have hbits := bit_writeBitmap (fun x j => x || decide (j = n % DZFS_BITSET_COVERED_BLOCKS))
    (bitmapSet_testBit (fs.disk (bitmapBlock n)) (mod_covered_lt n)) (by simp +contextual) m
  refine hbits.trans ?_
  by_cases hm : m = n <;> simp [hm]

/-- `blockFree` sets the bit of its block, and nothing else. -/
theorem blockFree_spec (hn : n < covered fs) :
    BitsOnly fs (blockFree fs n) ∧ ∀ m, bit (blockFree fs n) m = (bit fs m || decide (m = n)) :=
  ⟨bitsOnly_writeBitmap hn _, bit_blockFree fs n⟩

/-- Two blocks with the same bits are the same. -/
theorem bytes_eq_of_bits {b' : Bytes}
    (h : ∀ j, (b (j / 8)).toNat.testBit (j % 8) = (b' (j / 8)).toNat.testBit (j % 8)) : b = b' := by
  -- Byte by byte, and bit by bit in the byte.
  funext i
  refine UInt8.toNat_inj.mp (Nat.eq_of_testBit_eq fun k => ?_)
  by_cases hk : k < 8
  · have hbit := h (8 * i + k)
    have hdiv : (8 * i + k) / 8 = i := by omega
    have hmod : (8 * i + k) % 8 = k := by omega
    rw [hdiv, hmod] at hbit
    exact hbit
  · have hhigh : ∀ x : UInt8, x.toNat.testBit k = false := fun x => by
      refine Nat.testBit_lt_two_pow (lt_of_lt_of_le x.toNat_lt ?_)
      exact Nat.pow_le_pow_right (by decide) (by omega)
    rw [hhigh, hhigh]

/-- The bit of a block number, in its bitmap block. -/
theorem bit_index (fs : Dzfs) (n : Nat) :
    bit fs n = (fs.disk (bitmapBlock n) (n % DZFS_BITSET_COVERED_BLOCKS / 8)).toNat.testBit
      (n % DZFS_BITSET_COVERED_BLOCKS % 8) := by
  have hmod : n % DZFS_BITSET_COVERED_BLOCKS % 8 = n % 8 := by
    simp only [DZFS_BITSET_COVERED_BLOCKS, DZFS_BLOCK_SIZE]
    omega
  rw [bit, hmod]

/-- `blockFree` of a block that is free already changes nothing. -/
theorem blockFree_of_free (h : bit fs n = true) : blockFree fs n = fs := by
  have hsame : bitmapSet (fs.disk (bitmapBlock n)) (n % DZFS_BITSET_COVERED_BLOCKS)
      = fs.disk (bitmapBlock n) := by
    refine bytes_eq_of_bits fun j => ?_
    rw [bitmapSet_testBit _ (mod_covered_lt n)]
    by_cases hj : j = n % DZFS_BITSET_COVERED_BLOCKS
    · rw [hj, ← bit_index, h, Bool.true_or]
    · rw [decide_eq_false hj, Bool.or_false]
  unfold blockFree
  simp only [Dzfs.readBlock, hsame, Dzfs.writeBlock, Function.update_eq_self]

/-! ### Several blocks -/

/-- The bits after `blockFree` of each block of a list. -/
theorem bit_freeAll (fs : Dzfs) (l : List Nat) (m : Nat) :
    bit (l.foldl blockFree fs) m = (bit fs m || decide (m ∈ l)) := by
  induction l generalizing fs with
  | nil => simp
  | cons n l ih =>
    rw [List.foldl_cons, ih, bit_blockFree]
    by_cases hm : m = n <;> simp [hm]

theorem freeAll_bitsOnly {l : List Nat} (hl : ∀ n ∈ l, n < covered fs) :
    BitsOnly fs (l.foldl blockFree fs) := by
  induction l generalizing fs with
  | nil => exact BitsOnly.refl fs
  | cons n l ih =>
    have hhead := (blockFree_spec (hl n List.mem_cons_self)).1
    refine hhead.trans (ih fun k hk => ?_)
    rw [hhead.covered]
    exact hl k (List.mem_cons_of_mem n hk)

/-- Freeing the blocks of a list leaves the disk as it is if and only if they are free
already. -/
theorem freeAll_eq_self_iff (fs : Dzfs) (l : List Nat) :
    (l.foldl blockFree fs).disk = fs.disk ↔ ∀ n ∈ l, bit fs n = true := by
  constructor
  · intro hsame n hn
    have hbit := bit_freeAll fs l n
    rw [bit, hsame] at hbit
    simpa [bit, hn] using hbit
  · intro hfree
    induction l with
    | nil => rfl
    | cons n l ih =>
      rw [List.foldl_cons, blockFree_of_free (hfree n List.mem_cons_self)]
      exact ih fun k hk => hfree k (List.mem_cons_of_mem n hk)

/-! ### The search -/

/-- The bit that `ctz` finds is set. -/
theorem ctz_spec (hx : x ≠ 0) : ctz x < 8 ∧ x.toNat.testBit (ctz x) = true := by
  obtain ⟨k, hk, hbit⟩ : ∃ k < 8, x.toNat.testBit k = true := by
    have hne : x.toNat ≠ 0 := fun h => hx (UInt8.toNat_inj.mp h)
    obtain ⟨k, hk⟩ := Nat.exists_testBit_of_ne_zero hne
    refine ⟨k, ?_, hk⟩
    by_contra hge
    have hpow : 2 ^ 8 ≤ 2 ^ k := Nat.pow_le_pow_right (by decide) (by omega)
    have hlt := x.toNat_lt
    rw [Nat.testBit_lt_two_pow (by omega)] at hk
    cases hk
  cases hs : scan (fun k => x.toNat.testBit k) 8 0 with
  | none => simp [scan_eq_none hs k (Nat.zero_le k) (by omega)] at hbit
  | some i =>
    obtain ⟨-, hlt, htest, -⟩ := scan_eq_some hs
    simp only [ctz, hs, Option.getD_some]
    exact ⟨by omega, htest⟩

/-- The bits below the lowest 1 bit. -/
theorem ctz_min (hx : x ≠ 0) (hk : k < ctz x) : x.toNat.testBit k = false := by
  obtain ⟨hlt, -⟩ := ctz_spec hx
  cases hs : scan (fun k => x.toNat.testBit k) 8 0 with
  | none => exact scan_eq_none hs k (Nat.zero_le k) (by omega)
  | some i =>
    obtain ⟨-, -, -, hmin⟩ := scan_eq_some hs
    rw [ctz, hs] at hk
    exact hmin k (Nat.zero_le k) hk

theorem firstNonzero_spec (h : firstNonzero b = some i) : i < DZFS_BLOCK_SIZE ∧ b i ≠ 0 := by
  obtain ⟨-, hlt, hne, -⟩ := scan_eq_some h
  exact ⟨by omega, of_decide_eq_true hne⟩

/-- A block number splits into the bitmap block, the byte and the bit. -/
theorem bit_split (fs : Dzfs) (hi : i < DZFS_BLOCK_SIZE) (hk : k < 8) :
    bit fs (DZFS_BITSET_COVERED_BLOCKS * freeBlock + 8 * i + k)
      = (fs.disk (freeBlock + 2) i).toNat.testBit k := by
  simp only [bit, bitmapBlock, DZFS_BITSET_COVERED_BLOCKS, DZFS_BLOCK_SIZE] at hi ⊢
  have hblock : (4096 * 8 * freeBlock + 8 * i + k) / 8 / 4096 = freeBlock := by omega
  have hbyte : (4096 * 8 * freeBlock + 8 * i + k) % (4096 * 8) / 8 = i := by omega
  have hbit : (4096 * 8 * freeBlock + 8 * i + k) % 8 = k := by omega
  rw [hblock, hbyte, hbit]

theorem searchFree_succ (fs : Dzfs) (left freeBlock : Nat) :
    searchFree fs (left + 1) freeBlock =
      match firstNonzero (fs.disk (freeBlock + 2)) with
      | none => searchFree fs left (freeBlock + 1)
      | some i =>
        if DZFS_BITSET_COVERED_BLOCKS * freeBlock + 8 * i + ctz (fs.disk (freeBlock + 2) i) ≠ 0
        then DZFS_BITSET_COVERED_BLOCKS * freeBlock + 8 * i + ctz (fs.disk (freeBlock + 2) i)
        else searchFree fs left (freeBlock + 1) := rfl

/-- A block number that the search returns is covered by the bitmap and has the bit 1. -/
theorem searchFree_spec (fs : Dzfs) (left freeBlock : Nat)
    (hd : searchFree fs left freeBlock ≠ 0) :
    bit fs (searchFree fs left freeBlock) = true ∧
      searchFree fs left freeBlock < DZFS_BITSET_COVERED_BLOCKS * (freeBlock + left) := by
  induction left generalizing freeBlock with
  | zero => exact absurd rfl hd
  | succ left ih =>
    have hrest : freeBlock + 1 + left = freeBlock + (left + 1) :=
      Nat.succ_add_eq_add_succ freeBlock left
    rw [searchFree_succ] at hd ⊢
    cases hfind : firstNonzero (fs.disk (freeBlock + 2)) with
    | none =>
      simp only [hfind] at hd ⊢
      rw [← hrest]
      exact ih (freeBlock + 1) hd
    | some i =>
      simp only [hfind] at hd ⊢
      by_cases hnz : DZFS_BITSET_COVERED_BLOCKS * freeBlock + 8 * i
          + ctz (fs.disk (freeBlock + 2) i) ≠ 0
      · obtain ⟨hi, hne⟩ := firstNonzero_spec hfind
        obtain ⟨hlt, hbit⟩ := ctz_spec hne
        rw [if_pos hnz, bit_split fs hi hlt]
        refine ⟨hbit, ?_⟩
        simp only [DZFS_BITSET_COVERED_BLOCKS, DZFS_BLOCK_SIZE] at hi ⊢
        omega
      · rw [if_neg hnz] at hd ⊢
        rw [← hrest]
        exact ih (freeBlock + 1) hd

/-- A block number in the range of one bitmap block. -/
theorem exists_byte_bit (hge : DZFS_BITSET_COVERED_BLOCKS * freeBlock ≤ n)
    (hlt : n < DZFS_BITSET_COVERED_BLOCKS * (freeBlock + 1)) :
    ∃ i k, i < DZFS_BLOCK_SIZE ∧ k < 8 ∧
      n = DZFS_BITSET_COVERED_BLOCKS * freeBlock + 8 * i + k := by
  refine ⟨(n - DZFS_BITSET_COVERED_BLOCKS * freeBlock) / 8, n % 8, ?_, ?_, ?_⟩
  · simp only [DZFS_BITSET_COVERED_BLOCKS, DZFS_BLOCK_SIZE] at hlt hge ⊢
    omega
  · omega
  · simp only [DZFS_BITSET_COVERED_BLOCKS, DZFS_BLOCK_SIZE] at hlt hge ⊢
    omega

/-- A bitmap block of zeros. -/
theorem bit_of_firstNonzero_none (h : firstNonzero (fs.disk (freeBlock + 2)) = none)
    (hge : DZFS_BITSET_COVERED_BLOCKS * freeBlock ≤ n)
    (hlt : n < DZFS_BITSET_COVERED_BLOCKS * (freeBlock + 1)) : bit fs n = false := by
  obtain ⟨i, k, hi, hk, rfl⟩ := exists_byte_bit hge hlt
  have hzero : fs.disk (freeBlock + 2) i = 0 := by
    simpa using scan_eq_none h i (Nat.zero_le i) (by omega)
  rw [bit_split fs hi hk, hzero]
  simp

/-- In front of the bit that the search finds in a bitmap block, the bits are 0. -/
theorem bit_of_firstNonzero_some (h : firstNonzero (fs.disk (freeBlock + 2)) = some i)
    (hge : DZFS_BITSET_COVERED_BLOCKS * freeBlock ≤ n)
    (hlt : n < DZFS_BITSET_COVERED_BLOCKS * freeBlock + 8 * i
      + ctz (fs.disk (freeBlock + 2) i)) : bit fs n = false := by
  obtain ⟨hi, hne⟩ := firstNonzero_spec h
  obtain ⟨hctz, -⟩ := ctz_spec hne
  obtain ⟨j, k, hj, hk, rfl⟩ := exists_byte_bit (n := n) hge (by
    simp only [DZFS_BITSET_COVERED_BLOCKS, DZFS_BLOCK_SIZE] at hi hlt ⊢
    omega)
  obtain ⟨-, -, -, hmin⟩ := scan_eq_some h
  rw [bit_split fs hj hk]
  rcases Nat.lt_or_ge j i with hji | hij
  · have hzero : fs.disk (freeBlock + 2) j = 0 := by simpa using hmin j (Nat.zero_le j) hji
    rw [hzero]
    simp
  · obtain rfl : j = i := by omega
    exact ctz_min hne (by omega)

/-- The bits in front of the block that the search returns are 0, and all that it covers when it
finds nothing. The block 0 is in use, so that no hit of the search is taken for a miss. -/
theorem bit_of_searchFree (hboot : bit fs 0 = false) (left freeBlock : Nat) (n : Nat)
    (hge : DZFS_BITSET_COVERED_BLOCKS * freeBlock ≤ n)
    (hlt : n < searchFree fs left freeBlock ∨ searchFree fs left freeBlock = 0 ∧
      n < DZFS_BITSET_COVERED_BLOCKS * (freeBlock + left)) : bit fs n = false := by
  induction left generalizing freeBlock with
  | zero => exact hlt.elim (absurd · (Nat.not_lt_zero n)) fun h => absurd h.2 (not_lt.mpr hge)
  | succ left ih =>
    rw [searchFree_succ] at hlt
    cases hfind : firstNonzero (fs.disk (freeBlock + 2)) with
    | none =>
      simp only [hfind] at hlt
      rcases Nat.lt_or_ge n (DZFS_BITSET_COVERED_BLOCKS * (freeBlock + 1)) with hin | hout
      · exact bit_of_firstNonzero_none hfind hge hin
      · rw [← Nat.add_assoc, Nat.add_right_comm] at hlt
        exact ih (freeBlock + 1) hout hlt
    | some i =>
      simp only [hfind] at hlt
      split at hlt
      · rename_i hnz
        exact bit_of_firstNonzero_some hfind hge (hlt.resolve_right fun h => hnz h.1)
      · rename_i hz
        obtain ⟨hi, hne⟩ := firstNonzero_spec hfind
        obtain ⟨hk, hbit⟩ := ctz_spec hne
        rw [← bit_split fs hi hk, not_not.mp hz, hboot] at hbit
        cases hbit

/-- `blockAlloc` fails and changes nothing, or it returns a covered block whose bit was 1 and
clears that bit only. -/
theorem blockAlloc_spec (fs : Dzfs) :
    blockAlloc fs = (0, fs) ∨
      ∃ n fs', blockAlloc fs = (n, fs') ∧ n ≠ 0 ∧ n < covered fs ∧ bit fs n = true ∧
        BitsOnly fs fs' ∧ ∀ m, bit fs' m = (bit fs m && decide (m ≠ n)) := by
  unfold blockAlloc
  simp only
  split
  · exact Or.inl rfl
  · rename_i hne
    obtain ⟨hbit, hlt⟩ := searchFree_spec fs fs.freeBitmapBlocks 0 hne
    rw [Nat.zero_add] at hlt
    have hbits := bit_writeBitmap (n := searchFree fs fs.freeBitmapBlocks 0)
      (fun x j => x && decide
        (j ≠ searchFree fs fs.freeBitmapBlocks 0 % DZFS_BITSET_COVERED_BLOCKS))
      (bitmapClear_testBit (fs.disk _) (mod_covered_lt _)) (by simp +contextual)
    refine Or.inr ⟨_, _, rfl, hne, hlt, hbit, bitsOnly_writeBitmap hlt _,
      fun m => (hbits m).trans ?_⟩
    by_cases hm : m = searchFree fs fs.freeBitmapBlocks 0 <;> simp [hm]

/-- `blockAlloc` returns what the search finds. -/
theorem blockAlloc_fst (fs : Dzfs) : (blockAlloc fs).1 = searchFree fs fs.freeBitmapBlocks 0 := by
  unfold blockAlloc
  simp only
  split
  · rename_i hz
    exact hz.symm
  · rfl

/-- `blockAlloc` fails only when no block is free. -/
theorem bit_of_blockAlloc_eq_zero (hboot : bit fs 0 = false) (h : (blockAlloc fs).1 = 0)
    (hn : n < covered fs) : bit fs n = false := by
  rw [blockAlloc_fst] at h
  refine bit_of_searchFree hboot fs.freeBitmapBlocks 0 n (Nat.zero_le _) (Or.inr ⟨h, ?_⟩)
  rwa [Nat.zero_add]

/-- `blockAlloc` returns the first free block. -/
theorem blockAlloc_first (hboot : bit fs 0 = false) (hn : n < covered fs) (hfree : bit fs n = true)
    (hmin : ∀ m < n, bit fs m = false) : (blockAlloc fs).1 = n := by
  have hne : (blockAlloc fs).1 ≠ 0 := by
    intro hz
    rw [bit_of_blockAlloc_eq_zero hboot hz hn] at hfree
    cases hfree
  rw [blockAlloc_fst] at hne ⊢
  obtain ⟨hbit, -⟩ := searchFree_spec fs fs.freeBitmapBlocks 0 hne
  rcases Nat.lt_trichotomy (searchFree fs fs.freeBitmapBlocks 0) n with hlt | heq | hlt
  · rw [hmin _ hlt] at hbit
    cases hbit
  · exact heq
  · rw [bit_of_searchFree hboot fs.freeBitmapBlocks 0 n (Nat.zero_le _) (Or.inl hlt)] at hfree
    cases hfree

end

end DzOS.Proofs.Fs
