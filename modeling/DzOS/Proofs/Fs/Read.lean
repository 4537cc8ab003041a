import DzOS.Proofs.Fs.WriteLoop

/-!
# `DzOS.Proofs.Fs.Read`: what a read returns

`byteAt fs d pos` is the byte at the position `pos` of the file `d`. `dzfsRead_eq` gives
`dzfsRead` as these bytes: the loop that goes through the content blocks returns the bytes at
the positions from the offset on.

`read_frame` is the frame rule for reads. A read and a `dzfsStat` of a file depend on the
blocks that the file holds, and on block 0, which stands in for the content blocks that are
not allocated.
-/

set_option autoImplicit false

namespace DzOS.Proofs.Fs

open DzOS.Lib DzOS.Fs

variable {b ind : Bytes} {index pos : Nat}

/-- The byte at a position, by the dnode and the indirect block in memory. -/
def contentByte (fs : Dzfs) (b ind : Bytes) (pos : Nat) : UInt8 :=
  fs.disk (readContentBlock b ind (pos / DZFS_BLOCK_SIZE)) (pos % DZFS_BLOCK_SIZE)

/-- The byte at the position `pos` of the file `d`. -/
def byteAt (fs : Dzfs) (d pos : Nat) : UInt8 :=
  contentByte fs (fs.disk d) (indirectOf fs d) pos

/-- The loop of `dzfsRead` returns the bytes at the positions from the offset on. -/
theorem readLoop_eq (fs : Dzfs) (b ind : Bytes) (fuel toRead offset : Nat)
    (hfuel : toRead ≤ fuel) :
    readLoop fs b ind fuel toRead offset
      = (List.range toRead).map fun i => contentByte fs b ind (offset + i) := by
  induction fuel generalizing toRead offset with
  | zero =>
    obtain rfl := Nat.le_zero.mp hfuel
    rfl
  | succ fuel ih =>
    unfold readLoop
    by_cases hzero : toRead = 0
    · rw [if_pos hzero, hzero]
      rfl
    · rw [if_neg hzero]
      simp only
      have hmod : offset % DZFS_BLOCK_SIZE < DZFS_BLOCK_SIZE := Nat.mod_lt _ (by decide)
      generalize hcopy : min (DZFS_BLOCK_SIZE - offset % DZFS_BLOCK_SIZE) toRead = toCopy
      have hle : toCopy ≤ toRead := by omega
      rw [ih (toRead - toCopy) (offset + toCopy) (by omega)]
      -- The positions of this turn are in one block, the others are those of the next turns.
      obtain ⟨rest, rfl⟩ := Nat.exists_eq_add_of_le hle
      rw [List.range_add, List.map_append, Nat.add_sub_cancel_left, List.map_map]
      congr 1
      · refine List.map_congr_left fun i hi => ?_
        have hi : i < toCopy := List.mem_range.mp hi
        have hdiv : (offset + i) / DZFS_BLOCK_SIZE = offset / DZFS_BLOCK_SIZE := by
          simp only [DZFS_BLOCK_SIZE] at hcopy ⊢
          omega
        have hrem : (offset + i) % DZFS_BLOCK_SIZE = offset % DZFS_BLOCK_SIZE + i := by
          simp only [DZFS_BLOCK_SIZE] at hcopy ⊢
          omega
        simp only [contentByte, hdiv, hrem]
      · refine List.map_congr_left fun i _ => ?_
        simp only [Function.comp_apply, Nat.add_assoc]

/-- The number of bytes that `dzfsRead` reads. -/
def readCount (fileSize size offset : Nat) : Nat :=
  if offset ≥ fileSize then 0
  else if min (fileSize - offset) size % 2 ^ 32 < 2 ^ 31 then min (fileSize - offset) size % 2 ^ 32
  else 0

/-- `dzfsRead` of a file returns the bytes at the positions from the offset on. -/
theorem dzfsRead_eq {fs : Dzfs} {d : Nat}
    (hfile : entityType (fs.disk d) = DZFS_ENTITY_FILE) (size offset : Nat) :
    dzfsRead fs d size offset
      = (Int.ofNat (readCount (fileSize (fs.disk d)) size offset),
        (List.range (readCount (fileSize (fs.disk d)) size offset)).map fun i =>
          byteAt fs d (offset + i)) := by
  unfold dzfsRead readCount
  rw [if_neg (not_not_intro hfile)]
  simp only
  split
  · rfl
  · split
    · rw [readLoop_eq _ _ _ _ _ _ (Nat.le_refl _)]
      simp only [List.length_map, List.length_range]
      rfl
    · rfl

theorem readCount_le (fileSize size offset : Nat) (h : 0 < readCount fileSize size offset) :
    offset + readCount fileSize size offset ≤ fileSize := by
  unfold readCount at h ⊢
  split
  · rename_i hge
    rw [if_pos hge] at h
    omega
  · rename_i hlt
    rw [if_neg hlt] at h
    split
    · have hle := Nat.mod_le (min (fileSize - offset) size) (2 ^ 32)
      omega
    · rename_i hbig
      rw [if_neg hbig] at h
      omega

/-! ### The frame of a read -/

section
variable {fs fs' : Dzfs} {E : Finset Nat} {d : Nat}

/-- A content block of a file is held at its place, or it is not allocated. -/
theorem own_content (d : Nat) (hind : fileIndirect b = 0 → ind = Bytes.zero)
    (hidx : index < 1024 + DZFS_DIRECT_BLOCKS) (hne : readContentBlock b ind index ≠ 0) :
    Own d b ind (contentPlace d index) (readContentBlock b ind index) := by
  unfold readContentBlock contentPlace at *
  by_cases hge : index ≥ DZFS_DIRECT_BLOCKS
  · rw [if_pos hge] at hne ⊢
    rw [if_pos hge]
    refine ⟨rfl, fun hzero => hne ?_, ?_, rfl, hne⟩
    · simp [hind hzero, indirectEntry]
    · simp only [DZFS_INDIRECT_BLOCK_COUNT]
      omega
  · rw [if_neg hge] at hne ⊢
    rw [if_neg hge]
    exact ⟨rfl, by omega, rfl, hne⟩

theorem readContentBlock_of_own {n : Nat} (h : Own d b ind (contentPlace d index) n) :
    readContentBlock b ind index = n := by
  unfold readContentBlock
  unfold contentPlace at h
  by_cases hge : index ≥ DZFS_DIRECT_BLOCKS
  · rw [if_pos hge] at h ⊢
    exact h.2.2.2.1.symm
  · rw [if_neg hge] at h ⊢
    exact h.2.2.1.symm

theorem index_lt (h : pos < DZFS_MAX_FILESIZE) :
    pos / DZFS_BLOCK_SIZE < 1024 + DZFS_DIRECT_BLOCKS := Nat.div_lt_of_lt_mul h

/-- The indirect block of a file on two disks, with the same number and the same content. -/
theorem indirectOf_congr (hnum : fileIndirect (fs'.disk d) = fileIndirect (fs.disk d))
    (hind : fileIndirect (fs.disk d) ≠ 0 →
      fs'.disk (fileIndirect (fs.disk d)) = fs.disk (fileIndirect (fs.disk d))) :
    indirectOf fs' d = indirectOf fs d := by
  by_cases hne : fileIndirect (fs.disk d) = 0
  · rw [indirectOf_of_eq hne, indirectOf_of_eq (by rw [hnum, hne])]
  · rw [indirectOf_of_ne hne, indirectOf_of_ne (by rw [hnum]; exact hne), hnum]
    exact hind hne

/-- The pointers of a file are behind its header. -/
theorem readContentBlock_links {b' : Bytes} (h : SameLinks b b') (ind : Bytes) (index : Nat) :
    readContentBlock b' ind index = readContentBlock b ind index := by
  unfold readContentBlock
  rw [h.direct]

/-- The file `d` has the same bytes on both disks when the blocks that it holds are the same, up to
the header of its dnode. -/
theorem byteAt_frame (hd : d ∈ E) (hfile : entityType (fs.disk d) = DZFS_ENTITY_FILE)
    (hlinks : SameLinks (fs.disk d) (fs'.disk d))
    (hkeep : ∀ p n, p.entity = d → p ≠ .dnode d → Holds fs.disk E p n → fs'.disk n = fs.disk n)
    (hboot : fs'.disk 0 = fs.disk 0) (hpos : pos < DZFS_MAX_FILESIZE) :
    byteAt fs' d pos = byteAt fs d pos := by
  have hind : indirectOf fs' d = indirectOf fs d :=
    indirectOf_congr hlinks.indirect fun hne =>
      hkeep (.indirect d) _ rfl (by simp) ⟨hd, hfile, rfl, hne⟩
  unfold byteAt contentByte
  rw [hind, readContentBlock_links hlinks]
  by_cases hne : readContentBlock (fs.disk d) (indirectOf fs d) (pos / DZFS_BLOCK_SIZE) = 0
  · rw [hne, hboot]
  · have hown := own_content d (fun hzero => indirectOf_of_eq hzero) (index_lt hpos) hne
    have hholds := ((own_start hd hfile _ _).mp hown).2
    rw [hkeep _ _ hown.entity ((contentPlace_ne d _).1 d) hholds]

/-- The file `d` looks the same on both disks when the blocks that it holds do. -/
theorem read_frame (hd : d ∈ E) (hfile : entityType (fs.disk d) = DZFS_ENTITY_FILE)
    (hsize : fileSize (fs.disk d) ≤ DZFS_MAX_FILESIZE)
    (hkeep : ∀ p n, p.entity = d → Holds fs.disk E p n → fs'.disk n = fs.disk n)
    (hboot : fs'.disk 0 = fs.disk 0) :
    (∀ size offset, dzfsRead fs' d size offset = dzfsRead fs d size offset) ∧
      dzfsStat fs' d = dzfsStat fs d := by
  have hdnode : fs'.disk d = fs.disk d := hkeep (.dnode d) d rfl ⟨hd, rfl⟩
  have hbyte : ∀ pos < DZFS_MAX_FILESIZE, byteAt fs' d pos = byteAt fs d pos := fun pos hpos =>
    byteAt_frame hd hfile (SameLinks.of_eq hdnode) (fun p n hp _ hn => hkeep p n hp hn) hboot hpos
  refine ⟨fun size offset => ?_, by simp only [dzfsStat, hdnode]⟩
  have hfile' : entityType (fs'.disk d) = DZFS_ENTITY_FILE := by rw [hdnode]; exact hfile
  rw [dzfsRead_eq hfile', dzfsRead_eq hfile, hdnode]
  congr 1
  refine List.map_congr_left fun i hi => hbyte _ ?_
  have hi := List.mem_range.mp hi
  have hle := readCount_le (fileSize (fs.disk d)) size offset (Nat.zero_lt_of_lt hi)
  omega

end

end DzOS.Proofs.Fs
