import DzOS.Proofs.Fs.FreeBlocks
import DzOS.Proofs.Fs.WriteContent

/-!
# `DzOS.Proofs.Fs.Space`: when a write runs out of space

A write needs a free block for every content block in its range that is not allocated, and one
more for the indirect block when the first of them behind the direct blocks needs it. `needed`
counts these blocks, from the pointers in memory. A turn of the loop allocates what it needs
(`Turn.space`), so the difference to `dzfsFreeBlocks` is the same after each turn.

`dzfsWrite_enough` and `dzfsWrite_short` conclude for whole writes: a write succeeds when
`dzfsFreeBlocks` is at least `needed`, and otherwise it stops at a full disk (`Stuck`). A write
that runs out of space does not get past the pointers, however much data there is.
-/

set_option autoImplicit false

namespace DzOS.Proofs.Fs

open DzOS.Lib DzOS.Fs

variable {b : Bytes} {index n start : Nat} {st : WriteState}

/-- The content blocks in the range from `start` to `stop` that are not allocated. -/
def missing (b ind : Bytes) (start stop : Nat) : Finset Nat :=
  (Finset.range (1024 + DZFS_DIRECT_BLOCKS)).filter fun index =>
    Touched start stop index ∧ readContentBlock b ind index = 0

/-- The number of blocks that a write from `start` to `stop` has to allocate. -/
def needed (b ind : Bytes) (start stop : Nat) : Nat :=
  (missing b ind start stop).card +
    if fileIndirect b = 0 ∧ ∃ index ∈ missing b ind start stop, DZFS_DIRECT_BLOCKS ≤ index then 1
    else 0

theorem mem_missing {ind : Bytes} {stop : Nat} :
    index ∈ missing b ind start stop ↔ index < 1024 + DZFS_DIRECT_BLOCKS ∧
      Touched start stop index ∧ readContentBlock b ind index = 0 := by
  rw [missing, Finset.mem_filter, Finset.mem_range]

/-- What the rest of the loop has to allocate. -/
def stillNeeded (st : WriteState) : Nat :=
  needed st.dnodeBlock st.indirectBlock st.offset (st.offset + st.data.length)

/-- The number of blocks that a turn has to allocate. -/
def turnNeeded (st : WriteState) : Nat :=
  (if st.offset / DZFS_BLOCK_SIZE ≥ DZFS_DIRECT_BLOCKS ∧ fileIndirect st.dnodeBlock = 0 then 1
    else 0) + if memBlock st (st.offset / DZFS_BLOCK_SIZE) = 0 then 1 else 0

/-! ### One turn -/

/-- `getOrAllocateBlock` takes a free block for a pointer that is 0, and fails only if there is
none. -/
theorem getOrAllocateBlock_space {fs fs' : Dzfs} {b' : Bytes} {off : Nat} (hboot : bit fs 0 = false)
    (hlt : covered fs < 2 ^ 32) (hget : getOrAllocateBlock fs b off = (n, fs', b')) :
    bit fs' 0 = false ∧ covered fs' = covered fs ∧
      (n = 0 → b.getLE 4 off = 0 ∧ dzfsFreeBlocks fs = 0 ∧ fs' = fs) ∧
      (n ≠ 0 → dzfsFreeBlocks fs = dzfsFreeBlocks fs' + if b.getLE 4 off = 0 then 1 else 0) := by
  unfold getOrAllocateBlock at hget
  by_cases hz : b.getLE 4 off = 0
  · rw [if_pos hz] at hget
    rcases blockAlloc_spec fs with hfull | ⟨k, fs₁, halloc, hk, hcov, hfree, honly, hbits⟩
    · have hnone := (blockAlloc_eq_zero_iff hlt hboot).mp (congrArg Prod.fst hfull)
      rw [hfull] at hget
      obtain ⟨rfl, rfl, -⟩ := hget
      exact ⟨hboot, rfl, fun _ => ⟨hz, hnone, rfl⟩, fun hne => absurd rfl hne⟩
    · have htake := dzfsFreeBlocks_take hlt honly.covered hcov hfree fun m _ => hbits m
      obtain ⟨k, rfl⟩ := Nat.exists_eq_succ_of_ne_zero hk
      rw [halloc] at hget
      obtain ⟨rfl, rfl, -⟩ := hget
      refine ⟨by rw [hbits, hboot, Bool.false_and], honly.covered, fun h => absurd h hk, ?_⟩
      intro _
      rw [if_pos hz]
      exact htake
  · rw [if_neg hz] at hget
    obtain ⟨rfl, rfl, -⟩ := hget
    refine ⟨hboot, rfl, fun h => absurd h hz, fun _ => ?_⟩
    rw [if_neg hz, Nat.add_zero]

/-- `contentBlock` allocates what the turn needs. It fails only if that much is not free, and
then it leaves no free block. -/
theorem contentBlock_space {st₁ : WriteState} (hboot : bit st.fs 0 = false)
    (hlt : covered st.fs < 2 ^ 32) (hc : contentBlock st = (n, st₁)) :
    (n = 0 → dzfsFreeBlocks st.fs < turnNeeded st ∧ dzfsFreeBlocks st₁.fs = 0) ∧
      (n ≠ 0 → dzfsFreeBlocks st.fs = dzfsFreeBlocks st₁.fs + turnNeeded st) := by
  unfold contentBlock at hc
  simp only at hc
  by_cases hge : st.offset / DZFS_BLOCK_SIZE ≥ DZFS_DIRECT_BLOCKS
  · -- The indirect block, and then the entry in it.
    rw [if_pos hge] at hc
    have hneeded : turnNeeded st = (if fileIndirect st.dnodeBlock = 0 then 1 else 0) +
        if st.indirectBlock.getLE 4 (4 * (st.offset / DZFS_BLOCK_SIZE - DZFS_DIRECT_BLOCKS)) = 0
        then 1 else 0 := by
      simp only [turnNeeded, memBlock, readContentBlock, hge, if_true, true_and, indirectEntry]
    rw [hneeded]
    rcases hind : getOrAllocateBlock st.fs st.dnodeBlock INDIRECT_OFFSET with ⟨k, fs', b'⟩
    obtain ⟨hboot', hcov, hfail, hsome⟩ := getOrAllocateBlock_space hboot hlt hind
    rw [hind] at hc
    simp only at hc
    by_cases hk : k = 0
    · rw [if_pos hk] at hc
      obtain ⟨rfl, rfl⟩ := hc
      obtain ⟨hz, hfree, rfl⟩ := hfail hk
      refine ⟨fun _ => ⟨?_, hfree⟩, fun hne => absurd rfl hne⟩
      rw [hfree, fileIndirect, if_pos hz]
      omega
    · rw [if_neg hk] at hc
      rcases hent : getOrAllocateBlock fs' st.indirectBlock
        (4 * (st.offset / DZFS_BLOCK_SIZE - DZFS_DIRECT_BLOCKS)) with ⟨m, fs'', ind'⟩
      obtain ⟨-, -, hfail', hsome'⟩ := getOrAllocateBlock_space hboot' (hcov ▸ hlt) hent
      rw [hent] at hc
      obtain ⟨rfl, rfl⟩ := hc
      rw [hsome hk, fileIndirect]
      constructor
      · intro hm
        obtain ⟨hz, hfree, rfl⟩ := hfail' hm
        refine ⟨?_, hfree⟩
        rw [hfree, if_pos hz]
        omega
      · intro hm
        rw [hsome' hm]
        simp only
        omega
  · rw [if_neg hge] at hc
    have hneeded : turnNeeded st =
        if st.dnodeBlock.getLE 4 (directOffset (st.offset / DZFS_BLOCK_SIZE)) = 0 then 1
        else 0 := by
      simp only [turnNeeded, memBlock, readContentBlock, hge, if_false, false_and, fileDirect,
        Nat.zero_add]
    rw [hneeded]
    rcases hdir : getOrAllocateBlock st.fs st.dnodeBlock
      (directOffset (st.offset / DZFS_BLOCK_SIZE)) with ⟨k, fs', b'⟩
    obtain ⟨-, -, hfail, hsome⟩ := getOrAllocateBlock_space hboot hlt hdir
    rw [hdir] at hc
    obtain ⟨rfl, rfl⟩ := hc
    refine ⟨fun hk => ?_, hsome⟩
    obtain ⟨hz, hfree, rfl⟩ := hfail hk
    refine ⟨?_, hfree⟩
    rw [hfree, if_pos hz]
    exact Nat.one_pos

/-- A turn at a direct block does not touch the pointer to the indirect block. -/
theorem contentBlock_indirect (hlt : st.offset / DZFS_BLOCK_SIZE < DZFS_DIRECT_BLOCKS) :
    fileIndirect (contentBlock st).2.dnodeBlock = fileIndirect st.dnodeBlock := by
  unfold contentBlock
  simp only
  rw [if_neg (not_le.mpr hlt)]
  unfold getOrAllocateBlock
  split
  · split
    · rfl
    · exact Bytes.getLE_setLE_of_apart (by simp only [directOffset, INDIRECT_OFFSET]; omega)
  · rfl

section
variable {fs₀ : Dzfs} {E : Finset Nat} {ls : Nat → List Nat} {d : Nat} {st st₁ : WriteState}
  {n : Nat}

/-- The content block of a turn is missing if its pointer is 0. -/
theorem mem_missing_turn (hdata : st.data ≠ []) (hoff : st.offset < DZFS_MAX_FILESIZE) :
    st.offset / DZFS_BLOCK_SIZE ∈
        missing st.dnodeBlock st.indirectBlock st.offset (st.offset + st.data.length) ↔
      memBlock st (st.offset / DZFS_BLOCK_SIZE) = 0 := by
  have hpos := List.length_pos_of_ne_nil hdata
  have htouched : Touched st.offset (st.offset + st.data.length) (st.offset / DZFS_BLOCK_SIZE) :=
    ⟨st.offset, Nat.le_refl _, by omega, rfl⟩
  rw [mem_missing]
  exact ⟨fun hm => hm.2.2, fun hz => ⟨index_lt hoff, htouched, hz⟩⟩

/-- Without an indirect block, the one in memory is a block of zeros. -/
theorem Writing.memBlock_of_noIndirect (h : Writing fs₀ E d st)
    (hz : fileIndirect st.dnodeBlock = 0) (hge : index ≥ DZFS_DIRECT_BLOCKS) :
    memBlock st index = 0 := by
  rw [memBlock, readContentBlock, if_pos hge, h.noIndirect hz]
  simp [indirectEntry]

/-- The loop needs at least what its next turn needs. -/
theorem Writing.turnNeeded_le (h : Writing fs₀ E d st) (hdata : st.data ≠ [])
    (hoff : st.offset < DZFS_MAX_FILESIZE) : turnNeeded st ≤ stillNeeded st := by
  have hmem := mem_missing_turn hdata hoff
  unfold turnNeeded stillNeeded needed
  generalize missing st.dnodeBlock st.indirectBlock st.offset (st.offset + st.data.length) = M
    at hmem ⊢
  have hcard : (if memBlock st (st.offset / DZFS_BLOCK_SIZE) = 0 then 1 else 0) ≤ M.card := by
    split
    · rename_i hz
      exact Finset.card_pos.mpr ⟨_, hmem.mpr hz⟩
    · exact Nat.zero_le _
  by_cases hind : st.offset / DZFS_BLOCK_SIZE ≥ DZFS_DIRECT_BLOCKS ∧ fileIndirect st.dnodeBlock = 0
  · have hz := h.memBlock_of_noIndirect hind.2 hind.1
    have hindirect : fileIndirect st.dnodeBlock = 0 ∧ ∃ index ∈ M, DZFS_DIRECT_BLOCKS ≤ index :=
      ⟨hind.2, _, hmem.mpr hz, hind.1⟩
    rw [if_pos hind, if_pos hindirect]
    omega
  · rw [if_neg hind]
    omega

/-- After a turn, its content block is the only one that is not missing any more. -/
theorem Turn.missing_eq (h : Turn fs₀ E d st st₁ n) :
    missing (copyToBlock st₁ n).dnodeBlock (copyToBlock st₁ n).indirectBlock
        (copyToBlock st₁ n).offset (st.offset + st.data.length)
      = (missing st.dnodeBlock st.indirectBlock st.offset (st.offset + st.data.length)).erase
          (st.offset / DZFS_BLOCK_SIZE) := by
  have hoffset : (copyToBlock st₁ n).offset = st.offset + turnLength st := by rw [h.copy]
  ext index
  rw [Finset.mem_erase, mem_missing, mem_missing, hoffset]
  by_cases hidx : index = st.offset / DZFS_BLOCK_SIZE
  · -- The content block of the turn is allocated.
    subst hidx
    refine iff_of_false ?_ fun hno => hno.1 rfl
    rintro ⟨-, -, hz⟩
    exact h.ne_zero (h.block_eq.symm.trans hz)
  · have htouched : Touched (st.offset + turnLength st) (st.offset + st.data.length) index ↔
        Touched st.offset (st.offset + st.data.length) index := by
      simp only [touched_iff, turnLength, DZFS_BLOCK_SIZE] at hidx ⊢
      omega
    rw [htouched]
    constructor
    · rintro ⟨hlt, ht, hz⟩
      exact ⟨hidx, hlt, ht, (h.memBlock_eq hlt (Or.inl hidx)).symm.trans hz⟩
    · rintro ⟨-, hlt, ht, hz⟩
      exact ⟨hlt, ht, (h.memBlock_eq hlt (Or.inl hidx)).trans hz⟩

/-- A turn takes what it needs off what the loop needs. -/
theorem Turn.needed_eq (h : Turn fs₀ E d st st₁ n) (hc : contentBlock st = (n, st₁))
    (hdata : st.data ≠ []) : stillNeeded st = turnNeeded st + stillNeeded (copyToBlock st₁ n) := by
  have hend : (copyToBlock st₁ n).offset + (copyToBlock st₁ n).data.length
      = st.offset + st.data.length := by
    rw [copyToBlock_end, h.grown.offset, h.grown.data]
  have hmem := mem_missing_turn hdata h.bound
  have hcard : (missing st.dnodeBlock st.indirectBlock st.offset
      (st.offset + st.data.length)).card
      = ((missing st.dnodeBlock st.indirectBlock st.offset (st.offset + st.data.length)).erase
          (st.offset / DZFS_BLOCK_SIZE)).card
        + if memBlock st (st.offset / DZFS_BLOCK_SIZE) = 0 then 1 else 0 := by
    split
    · rename_i hz
      rw [Finset.card_erase_add_one (hmem.mpr hz)]
    · rename_i hne
      rw [Finset.erase_eq_of_notMem fun hin => hne (hmem.mp hin), Nat.add_zero]
  simp only [stillNeeded, needed, turnNeeded, hend, h.missing_eq, hcard]
  generalize missing st.dnodeBlock st.indirectBlock st.offset (st.offset + st.data.length) = M
    at hmem
  by_cases hge : st.offset / DZFS_BLOCK_SIZE ≥ DZFS_DIRECT_BLOCKS
  · -- The indirect block is there after the turn.
    have hafter : fileIndirect (copyToBlock st₁ n).dnodeBlock ≠ 0 := by
      have hown := h.own
      rw [contentPlace, if_pos hge] at hown
      exact hown.2.1
    have hbefore : (fileIndirect st.dnodeBlock = 0 ∧ ∃ index ∈ M, DZFS_DIRECT_BLOCKS ≤ index) ↔
        fileIndirect st.dnodeBlock = 0 := by
      exact ⟨fun hb => hb.1, fun hz =>
        ⟨hz, _, hmem.mpr (h.writing.memBlock_of_noIndirect hz hge), hge⟩⟩
    simp only [hbefore, hge, true_and, hafter, false_and, if_false]
    omega
  · have hsame : fileIndirect (copyToBlock st₁ n).dnodeBlock = fileIndirect st.dnodeBlock := by
      have hkeep := contentBlock_indirect (not_le.mp hge)
      rw [hc] at hkeep
      exact hkeep
    have hexists : (∃ index ∈ M.erase (st.offset / DZFS_BLOCK_SIZE), DZFS_DIRECT_BLOCKS ≤ index) ↔
        ∃ index ∈ M, DZFS_DIRECT_BLOCKS ≤ index := by
      simp only [Finset.mem_erase]
      constructor
      · rintro ⟨index, ⟨-, hin⟩, hle⟩
        exact ⟨index, hin, hle⟩
      · rintro ⟨index, hin, hle⟩
        refine ⟨index, ⟨?_, hin⟩, hle⟩
        rintro rfl
        exact hge hle
    simp only [hsame, hexists, hge, false_and, if_false]
    omega

/-- The bitmap of the loop covers less than 2³² blocks, and block 0 is in use. -/
theorem Writing.boot_used (hinv : Core fs₀ E ls) (h : Writing fs₀ E d st) :
    bit st.fs 0 = false ∧ Fs.covered st.fs < 2 ^ 32 := by
  have htwo := hinv.two_le
  have hroot := (hinv.mem_used hinv.root_mem).2.1
  have hle := hinv.covered_le
  rw [h.covered]
  exact ⟨h.bits 0 (by omega) (hinv.low 0 (by omega)), by omega⟩

/-- A turn takes as many free blocks as it needs. -/
theorem Turn.space (hinv : Core fs₀ E ls) (h : Turn fs₀ E d st st₁ n)
    (hc : contentBlock st = (n, st₁)) (hdata : st.data ≠ []) :
    dzfsFreeBlocks st.fs + stillNeeded (copyToBlock st₁ n)
      = dzfsFreeBlocks (copyToBlock st₁ n).fs + stillNeeded st := by
  obtain ⟨hboot, hlt⟩ := h.writing.boot_used hinv
  have hroot : st₁.fs.freeBitmapBlocks + 2 ≤ n := by
    rw [h.writing₁.freeBitmapBlocks, ← hinv.root_eq, ← h.writing₁.rootDnode]
    exact (h.writing₁.owns.used _ n (Or.inr h.own)).1
  -- The copy does not write to the bitmap.
  have hcopy : dzfsFreeBlocks (copyToBlock st₁ n).fs = dzfsFreeBlocks st₁.fs := by
    rw [h.copy]
    exact dzfsFreeBlocks_congr rfl fun m hm => bit_writeBlock hroot _ hm
  rw [hcopy, (contentBlock_space hboot hlt hc).2 h.ne_zero, h.needed_eq hc hdata]
  omega

/-! ### Whole runs of the loop -/

/-- A turn of the loop fails, or it is a `Turn`. -/
theorem Writing.turn_cases (hinv : Core fs₀ E ls) (h : Writing fs₀ E d st)
    (hoff : st.offset < DZFS_MAX_FILESIZE) (hc : DzOS.Fs.contentBlock st = (n, st₁)) :
    (n = 0 ∧ Writing fs₀ E d st₁ ∧ dzfsFreeBlocks st.fs < turnNeeded st ∧
        dzfsFreeBlocks st₁.fs = 0 ∧ BitsOnly st.fs st₁.fs) ∨
      Turn fs₀ E d st st₁ n := by
  obtain ⟨hw, hg, hown⟩ := h.contentBlock hinv hoff hc
  obtain ⟨hboot, hlt⟩ := h.boot_used hinv
  by_cases hn : n = 0
  · obtain ⟨hneeded, hnone⟩ := (contentBlock_space hboot hlt hc).1 hn
    exact Or.inl ⟨hn, hw, hneeded, hnone, hg.only⟩
  · exact Or.inr ⟨h, hw, hg, hown hn, hn, hoff⟩

/-- The length of the data bounds the turns also after a turn. -/
theorem Turn.fuel (h : Turn fs₀ E d st st₁ n) (hdata : st.data ≠ []) {fuel : Nat}
    (hfuel : st.data.length ≤ fuel + 1) : (copyToBlock st₁ n).data.length ≤ fuel := by
  have hpos := turnLength_pos hdata
  rw [h.copy, List.length_drop]
  omega

/-- A loop that runs out of space still has a content block to allocate. -/
theorem short_bound (hshort : dzfsFreeBlocks st.fs < stillNeeded st) :
    st.data ≠ [] ∧ st.offset < DZFS_MAX_FILESIZE := by
  have hmissing : (missing st.dnodeBlock st.indirectBlock st.offset
      (st.offset + st.data.length)).Nonempty := by
    by_contra hempty
    rw [Finset.not_nonempty_iff_eq_empty] at hempty
    simp [stillNeeded, needed, hempty] at hshort
  obtain ⟨index, hin⟩ := hmissing
  obtain ⟨hlt, ht, -⟩ := mem_missing.mp hin
  obtain ⟨hrange, hle, -⟩ := touched_iff.mp ht
  refine ⟨?_, ?_⟩
  · intro hnil
    rw [hnil, List.length_nil] at hrange
    omega
  · rw [DZFS_MAX_FILESIZE, Nat.mul_comm]
    exact (Nat.div_lt_iff_lt_mul (by decide)).mp (lt_of_le_of_lt hle hlt)

/-- With enough space, the loop succeeds. -/
theorem writeLoop_enough (hinv : Core fs₀ E ls) (fuel : Nat) (h : Writing fs₀ E d st)
    (hoff : st.offset + st.data.length ≤ DZFS_MAX_FILESIZE) (hfuel : st.data.length ≤ fuel)
    (henough : stillNeeded st ≤ dzfsFreeBlocks st.fs) :
    ∃ st', writeLoop fuel st = (.OK, st') := by
  induction fuel generalizing st with
  | zero => exact ⟨st, rfl⟩
  | succ fuel ih =>
    unfold writeLoop
    by_cases hdata : st.data = []
    · rw [if_pos hdata]
      exact ⟨st, rfl⟩
    · have hpos := List.length_pos_of_ne_nil hdata
      have hbound : st.offset < DZFS_MAX_FILESIZE := by omega
      rcases hc : contentBlock st with ⟨n, st₁⟩
      rw [if_neg hdata]
      simp only
      rcases h.turn_cases hinv hbound hc with ⟨-, -, hfail, -⟩ | hturn
      · have hle := h.turnNeeded_le hdata hbound
        omega
      · have hspace := hturn.space hinv hc hdata
        have hend := copyToBlock_end st₁ n
        rw [hturn.grown.offset, hturn.grown.data] at hend
        rw [if_neg hturn.ne_zero]
        exact ih (hturn.writing₁.copyToBlock hinv hturn.own) (by omega) (hturn.fuel hdata hfuel)
          (by omega)

/-- The loop of a write of `data₀` at `start` stops at a full disk: with `last` before its last
turn, and with `st` after it. -/
structure Stuck (fs₀ : Dzfs) (E : Finset Nat) (d : Nat) (data₀ : List UInt8) (start : Nat)
    (last st : WriteState) : Prop where
  writing : Writing fs₀ E d last
  filled : Filled fs₀ d data₀ start last
  bound : last.data ≠ [] ∧ last.offset < DZFS_MAX_FILESIZE
  needed : dzfsFreeBlocks last.fs < turnNeeded last
  stopped : Writing fs₀ E d st
  only : BitsOnly last.fs st.fs
  full : dzfsFreeBlocks st.fs = 0

/-- Without enough space, the loop stops at a full disk. -/
theorem writeLoop_short (hinv : Core fs₀ E ls) (hd : d ∈ E)
    (hfile : entityType (fs₀.disk d) = DZFS_ENTITY_FILE) {data₀ : List UInt8} (fuel : Nat)
    (h : Writing fs₀ E d st) (hf : Filled fs₀ d data₀ start st) (hfuel : st.data.length ≤ fuel)
    (hshort : dzfsFreeBlocks st.fs < stillNeeded st) :
    ∃ last st', writeLoop fuel st = (.ERR_FULL, st') ∧ Stuck fs₀ E d data₀ start last st' := by
  induction fuel generalizing st with
  | zero =>
    exact absurd (List.length_eq_zero_iff.mp (Nat.le_zero.mp hfuel)) (short_bound hshort).1
  | succ fuel ih =>
    obtain ⟨hdata, hbound⟩ := short_bound hshort
    rcases hc : contentBlock st with ⟨n, st₁⟩
    unfold writeLoop
    rw [if_neg hdata, hc]
    simp only
    rcases h.turn_cases hinv hbound hc with ⟨hn, hw, hneeded, hnone, honly⟩ | hturn
    · rw [if_pos hn]
      exact ⟨st, st₁, rfl, h, hf, ⟨hdata, hbound⟩, hneeded, hw, honly, hnone⟩
    · have hspace := hturn.space hinv hc hdata
      rw [if_neg hturn.ne_zero]
      exact ih (hturn.writing₁.copyToBlock hinv hturn.own) (hf.turn hinv hd hfile hturn hdata)
        (hturn.fuel hdata hfuel) (by omega)

end

/-! ### `dzfsWrite` -/

/-- The variables of `dzfsWrite` in front of its loop. -/
def startWrite (fs : Dzfs) (dnode : Nat) (data : List UInt8) (offset : Nat) : WriteState :=
  ⟨fs, fs.readBlock dnode, indirectOf fs dnode, Bytes.zero, data, offset⟩

/-- The checks of `dzfsWrite` on its arguments. -/
def Accepted (fs : Dzfs) (dnode : Nat) (data : List UInt8) (offset : Nat) : Prop :=
  entityType (fs.disk dnode) = DZFS_ENTITY_FILE ∧
    (data.length + offset) % 2 ^ 64 ≤ DZFS_MAX_FILESIZE ∧ offset ≤ fileSize (fs.disk dnode)

instance (fs : Dzfs) (dnode : Nat) (data : List UInt8) (offset : Nat) :
    Decidable (Accepted fs dnode data offset) :=
  inferInstanceAs (Decidable (_ ∧ _ ∧ _))

/-- The disk does not have the blocks that the write needs. -/
def Short (fs : Dzfs) (d : Nat) (data : List UInt8) (offset : Nat) : Prop :=
  dzfsFreeBlocks fs < needed (fs.disk d) (indirectOf fs d) offset (offset + data.length)

instance (fs : Dzfs) (d : Nat) (data : List UInt8) (offset : Nat) :
    Decidable (Short fs d data offset) :=
  inferInstanceAs (Decidable (_ < _))

/-- The write stays in the range of the pointers: if its arguments allow it, it ends within 64
bits, or it runs out of space before. -/
def WriteInRange (fs : Dzfs) (d : Nat) (data : List UInt8) (offset : Nat) : Prop :=
  Accepted fs d data offset → data.length + offset < 2 ^ 64 ∨ Short fs d data offset

instance (fs : Dzfs) (d : Nat) (data : List UInt8) (offset : Nat) :
    Decidable (WriteInRange fs d data offset) :=
  inferInstanceAs (Decidable (_ → _ ∨ Short fs d data offset))

section
variable {fs : Dzfs} {E : Finset Nat} {ls : Nat → List Nat} {d : Nat} {data : List UInt8}
  {offset : Nat}

/-- A write that its arguments rule out changes nothing. -/
theorem dzfsWrite_of_not_accepted
    (h : ¬ Accepted fs d data offset) :
    (dzfsWrite fs d data offset).1 ≠ .OK ∧ (dzfsWrite fs d data offset).2 = fs := by
  unfold dzfsWrite
  simp only [Dzfs.readBlock]
  split
  · exact ⟨by simp, rfl⟩
  · rename_i hfile
    split
    · exact ⟨by simp, rfl⟩
    · rename_i hmax
      split
      · exact ⟨by simp, rfl⟩
      · rename_i hoff
        exact absurd ⟨not_not.mp hfile, not_lt.mp hmax, not_lt.mp hoff⟩ h

/-- A write that its arguments allow is its loop. -/
theorem dzfsWrite_of_accepted
    (h : Accepted fs d data offset) :
    dzfsWrite fs d data offset =
      match writeLoop data.length (startWrite fs d data offset) with
      | (.OK, st) => (.OK, finishWrite st d data.length)
      | (r, st) => (r, st.fs) := by
  obtain ⟨hfile, hmax, hoff⟩ := h
  unfold dzfsWrite
  simp only [Dzfs.readBlock]
  rw [if_neg (not_not_intro hfile), if_neg (not_lt.mpr hmax), if_neg (not_lt.mpr hoff)]
  rfl

/-- A write with enough space succeeds. -/
theorem dzfsWrite_enough (hinv : Core fs E ls) (hd : d ∈ E) (hacc : Accepted fs d data offset)
    (hlt : data.length + offset < 2 ^ 64) (henough : ¬ Short fs d data offset) :
    (dzfsWrite fs d data offset).1 = .OK := by
  have hmax := hacc.2.1
  rw [Nat.mod_eq_of_lt hlt] at hmax
  obtain ⟨st, hloop⟩ := writeLoop_enough hinv data.length
    (Writing.start hinv hd hacc.1 Bytes.zero data offset) (by simp only; omega) (Nat.le_refl _)
    (not_lt.mp henough)
  rw [dzfsWrite_of_accepted hacc]
  unfold startWrite
  rw [hloop]

/-- A write without enough space stops at a full disk. -/
theorem dzfsWrite_short (hinv : Core fs E ls) (hd : d ∈ E) (hacc : Accepted fs d data offset)
    (hshort : Short fs d data offset) :
    ∃ last st, dzfsWrite fs d data offset = (.ERR_FULL, st.fs) ∧
      Stuck fs E d data offset last st := by
  obtain ⟨last, st, hloop, hstuck⟩ := writeLoop_short hinv hd hacc.1 data.length
    (Writing.start hinv hd hacc.1 Bytes.zero data offset) (Filled.init fs d data offset)
    (Nat.le_refl _) hshort
  refine ⟨last, st, ?_, hstuck⟩
  rw [dzfsWrite_of_accepted hacc]
  unfold startWrite
  rw [hloop]

end

end DzOS.Proofs.Fs
