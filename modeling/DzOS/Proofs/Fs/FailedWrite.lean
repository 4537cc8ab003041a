import DzOS.Proofs.Fs.Space

/-!
# `DzOS.Proofs.Fs.FailedWrite`: what a failed write leaves behind

`dzfsWrite` writes the data as it goes, and it writes the dnode at the end only. So when the disk
gets full on the way, the size and the pointers of the file stay as they are. The blocks that were
allocated until then are lost, and the blocks that the file had already have the new data.

`failed_write_iff` says when none of this shows: the arguments rule the write out, or no block is
free in the first place and the data in front of the first missing block is what the file has
there. `full_disk_leaves_trace` is a write of two blocks to a disk with one free block.
-/

set_option autoImplicit false

namespace DzOS.Proofs.Fs

open DzOS.Lib DzOS.Fs

/-- From `fs` to `fs'` the size and the bytes of the file `d` and the number of free blocks are the
same. The bytes are those of the reads that stay within the limit of the pointers. -/
structure NoTrace (fs fs' : Dzfs) (d : Nat) : Prop where
  size : fileSize (fs'.disk d) = fileSize (fs.disk d)
  read : ∀ size offset, min (fileSize (fs.disk d)) (offset + size) ≤ DZFS_MAX_FILESIZE →
    dzfsRead fs' d size offset = dzfsRead fs d size offset
  free : dzfsFreeBlocks fs' = dzfsFreeBlocks fs

theorem NoTrace.refl (fs : Dzfs) (d : Nat) : NoTrace fs fs d := ⟨rfl, fun _ _ _ => rfl, rfl⟩

/-- In front of the first content block that is missing, the data is what the file has. -/
def Rewrites (fs : Dzfs) (d : Nat) (data : List UInt8) (offset : Nat) : Prop :=
  ∀ pos, offset ≤ pos → pos < fileSize (fs.disk d) →
    (∀ index ∈ missing (fs.disk d) (indirectOf fs d) offset (offset + data.length),
      pos / DZFS_BLOCK_SIZE < index) →
    data[pos - offset]? = some (byteAt fs d pos)

/-! ### Reads -/

section
variable {fs fs' : Dzfs} {d : Nat}

/-- `dzfsRead` does not return more than the size asks for. -/
theorem readCount_le_size (fileSize size offset : Nat) : readCount fileSize size offset ≤ size := by
  have hmod := Nat.mod_le (min (fileSize - offset) size) (2 ^ 32)
  unfold readCount
  split
  · exact Nat.zero_le _
  · split
    · omega
    · exact Nat.zero_le _

/-- With the same size, the reads within the limit are the same if the bytes are. -/
theorem reads_iff_bytes (hfile : entityType (fs.disk d) = DZFS_ENTITY_FILE)
    (hfile' : entityType (fs'.disk d) = DZFS_ENTITY_FILE)
    (hsize : fileSize (fs'.disk d) = fileSize (fs.disk d)) :
    (∀ size offset, min (fileSize (fs.disk d)) (offset + size) ≤ DZFS_MAX_FILESIZE →
      dzfsRead fs' d size offset = dzfsRead fs d size offset) ↔
    ∀ pos < fileSize (fs.disk d), pos < DZFS_MAX_FILESIZE → byteAt fs' d pos = byteAt fs d pos := by
  constructor
  · intro hread pos hpos hmax
    have hone := hread 1 pos (by omega)
    rw [dzfsRead_one hfile' (by omega), dzfsRead_one hfile hpos] at hone
    simpa using hone
  · intro hbyte size offset hmax
    rw [dzfsRead_eq hfile', dzfsRead_eq hfile, hsize]
    congr 1
    refine List.map_congr_left fun i hi => ?_
    have hi := List.mem_range.mp hi
    have hle := readCount_le (fileSize (fs.disk d)) size offset (Nat.zero_lt_of_lt hi)
    have hle' := readCount_le_size (fileSize (fs.disk d)) size offset
    exact hbyte _ (by omega) (by omega)

end

/-! ### A loop that is stuck -/

section
variable {fs₀ : Dzfs} {E : Finset Nat} {ls : Nat → List Nat} {d : Nat} {data₀ : List UInt8}
  {start : Nat} {last st : WriteState}

/-- Without a free block, the pointers in memory are those of the disk. -/
theorem Stuck.memBlock_eq (hinv : Core fs₀ E ls) (hd : d ∈ E)
    (hfile : entityType (fs₀.disk d) = DZFS_ENTITY_FILE)
    (h : Stuck fs₀ E d data₀ start last st) (hnone : dzfsFreeBlocks fs₀ = 0) {index : Nat}
    (hidx : index < 1024 + DZFS_DIRECT_BLOCKS) :
    memBlock last index = readContentBlock (fs₀.disk d) (indirectOf fs₀ d) index := by
  by_cases hz : memBlock last index = 0
  · by_contra hne
    have hold := h.writing.memBlock_of_old hd hfile hidx fun heq => hne (hz.trans heq.symm)
    exact hne hold
  · have hown := own_content d h.writing.noIndirect hidx hz
    have hcov := hinv.covered_le
    have hfull := (dzfsFreeBlocks_eq_zero_iff (by omega)).mp hnone
    rcases h.writing.old _ _ hown with hholds | hfree
    · have hold := (own_start hd hfile _ _).mpr ⟨hown.entity, hholds⟩
      exact (readContentBlock_of_own hold).symm
    · -- The block was not free at the start.
      have hlt := (h.writing.owns.used _ _ (Or.inr hown)).2.1
      rw [h.writing.covered] at hlt
      rw [hfull _ hlt] at hfree
      cases hfree

/-- The loop stops at a content block that is missing. -/
theorem Stuck.memBlock_last (h : Stuck fs₀ E d data₀ start last st) :
    memBlock last (last.offset / DZFS_BLOCK_SIZE) = 0 := by
  have hneeded := h.needed
  unfold turnNeeded at hneeded
  by_contra hne
  rw [if_neg hne] at hneeded
  split at hneeded
  · rename_i hind
    exact hne (h.writing.memBlock_of_noIndirect hind.2 hind.1)
  · omega

/-- Without a free block, the loop has gone as far as the first content block that is missing. -/
theorem Stuck.lt_offset_iff (hinv : Core fs₀ E ls) (hd : d ∈ E)
    (hfile : entityType (fs₀.disk d) = DZFS_ENTITY_FILE)
    (h : Stuck fs₀ E d data₀ start last st) (hnone : dzfsFreeBlocks fs₀ = 0) {pos : Nat}
    (hpos : start ≤ pos) :
    pos < last.offset ↔
      ∀ index ∈ missing (fs₀.disk d) (indirectOf fs₀ d) start (start + data₀.length),
        pos / DZFS_BLOCK_SIZE < index := by
  have hend := h.filled.end_eq
  have hdata := List.length_pos_of_ne_nil h.bound.1
  constructor
  · intro hlt index hin
    obtain ⟨hidx, ht, hz⟩ := mem_missing.mp hin
    by_contra hge
    -- The loop has come by the block, and so it was allocated.
    have htouched : Touched start last.offset index := by
      have hrange := touched_iff.mp ht
      rw [touched_iff]
      simp only [DZFS_BLOCK_SIZE] at hge hrange ⊢
      omega
    obtain ⟨q, h1, h2, rfl⟩ := htouched
    refine h.filled.allocated q h1 h2 ?_
    rw [h.memBlock_eq hinv hd hfile hnone hidx]
    exact hz
  · intro hall
    have hidx := index_lt h.bound.2
    have hin : last.offset / DZFS_BLOCK_SIZE ∈
        missing (fs₀.disk d) (indirectOf fs₀ d) start (start + data₀.length) := by
      refine mem_missing.mpr ⟨hidx, ⟨last.offset, h.filled.start_le, by omega, rfl⟩, ?_⟩
      rw [← h.memBlock_eq hinv hd hfile hnone hidx]
      exact h.memBlock_last
    have hlt := hall _ hin
    by_contra hge
    exact absurd (Nat.div_le_div_right (not_lt.mp hge)) (not_le.mpr hlt)

/-- The disk keeps the dnode and the indirect block of the file. -/
theorem Stuck.kept (hd : d ∈ E) (hfile : entityType (fs₀.disk d) = DZFS_ENTITY_FILE)
    (h : Stuck fs₀ E d data₀ start last st) :
    st.fs.disk d = fs₀.disk d ∧ indirectOf st.fs d = indirectOf fs₀ d := by
  have hdnode := h.stopped.kept (.dnode d) d ⟨hd, rfl⟩ (Or.inr (Or.inl rfl))
  refine ⟨hdnode, indirectOf_congr (congrArg fileIndirect hdnode) fun hne => ?_⟩
  exact h.stopped.kept (.indirect d) _ ⟨hd, hfile, rfl, hne⟩ (Or.inr (Or.inr rfl))

section

variable {pos : Nat} (hinv : Core fs₀ E ls) (hd : d ∈ E)
  (hfile : entityType (fs₀.disk d) = DZFS_ENTITY_FILE) (h : Stuck fs₀ E d data₀ start last st)
  (hnone : dzfsFreeBlocks fs₀ = 0) (hpos : pos < DZFS_MAX_FILESIZE)

include hinv hd hfile h hnone hpos

/-- Without a free block, the bytes on the disk are those of the loop. -/
theorem Stuck.byteAt_eq : byteAt st.fs d pos = memByte last pos := by
  have hidx := index_lt hpos
  obtain ⟨hdnode, hind⟩ := h.kept hd hfile
  have hblock := h.memBlock_eq hinv hd hfile hnone hidx
  have harea := h.writing.memBlock_area hinv hidx
  have hdisk := h.only.disk _ harea
  unfold byteAt memByte contentByte
  rw [hdnode, hind, ← hblock, hdisk]
  rfl

/-- Without a free block, the bytes of the file change only where the loop has come by. -/
theorem Stuck.byteAt_cases :
    (start ≤ pos ∧ pos < last.offset → data₀[pos - start]? = some (byteAt st.fs d pos)) ∧
      (pos < start ∨ last.offset ≤ pos → byteAt st.fs d pos = byteAt fs₀ d pos) := by
  rw [h.byteAt_eq hinv hd hfile hnone hpos]
  refine ⟨fun ⟨h1, h2⟩ => h.filled.written pos h1 h2, fun hout => ?_⟩
  have hidx := index_lt hpos
  -- Where the loop has come by, the blocks were allocated before.
  have hold : readContentBlock (fs₀.disk d) (indirectOf fs₀ d) (pos / DZFS_BLOCK_SIZE) ≠ 0 ∨
      ¬ Touched start last.offset (pos / DZFS_BLOCK_SIZE) := by
    by_cases ht : Touched start last.offset (pos / DZFS_BLOCK_SIZE)
    · obtain ⟨q, h1, h2, heq⟩ := ht
      have hne := h.filled.allocated q h1 h2
      rw [heq, h.memBlock_eq hinv hd hfile hnone hidx] at hne
      exact Or.inl hne
    · exact Or.inr ht
  rw [h.filled.kept pos hpos hout hold, if_neg]
  -- A turn that clears the rest of the first block is the last one of the loop.
  rintro ⟨rfl, hlast, hfirst⟩
  have hge : last.offset ≤ pos := hout.resolve_left (by omega)
  have hsame : 0 / DZFS_BLOCK_SIZE = last.offset / DZFS_BLOCK_SIZE := by
    rw [Nat.zero_div, Nat.div_eq_of_lt (lt_of_le_of_lt hge hfirst)]
  refine h.filled.allocated 0 (Nat.le_refl 0) hlast ?_
  rw [hsame]
  exact h.memBlock_last

end

end

/-! ### Failed writes -/

section
variable {fs : Dzfs} {E : Finset Nat} {ls : Nat → List Nat} {d : Nat} {data : List UInt8}
  {offset : Nat}

/-- A write that runs out of space leaves no trace if and only if no block is free before, and the
data in front of the first missing block is what the file has. -/
theorem short_noTrace_iff (hinv : Core fs E ls) (hd : d ∈ E) (hacc : Accepted fs d data offset)
    (hshort : Short fs d data offset) :
    NoTrace fs (dzfsWrite fs d data offset).2 d ↔
      dzfsFreeBlocks fs = 0 ∧ Rewrites fs d data offset := by
  obtain ⟨last, st, hw, h⟩ := dzfsWrite_short hinv hd hacc hshort
  have hfile := hacc.1
  obtain ⟨hdnode, -⟩ := h.kept hd hfile
  have hsize : fileSize (st.fs.disk d) = fileSize (fs.disk d) := congrArg fileSize hdnode
  have hfile' : entityType (st.fs.disk d) = DZFS_ENTITY_FILE := hdnode ▸ hfile
  have hreads := reads_iff_bytes hfile hfile' hsize
  rw [hw]
  constructor
  · rintro ⟨-, hread, hfree⟩
    have hnone : dzfsFreeBlocks fs = 0 := hfree.symm.trans h.full
    refine ⟨hnone, fun pos hge hlt hall => ?_⟩
    have hin := (h.lt_offset_iff hinv hd hfile hnone hge).mpr hall
    have hpos : pos < DZFS_MAX_FILESIZE := hin.trans h.bound.2
    rw [(h.byteAt_cases hinv hd hfile hnone hpos).1 ⟨hge, hin⟩,
      hreads.mp hread pos hlt hpos]
  · rintro ⟨hnone, hrewrites⟩
    refine ⟨hsize, hreads.mpr fun pos hlt hpos => ?_, h.full.trans hnone.symm⟩
    obtain ⟨hinside, houtside⟩ := h.byteAt_cases hinv hd hfile hnone hpos
    by_cases hin : offset ≤ pos ∧ pos < last.offset
    · have hall := (h.lt_offset_iff hinv hd hfile hnone hin.1).mp hin.2
      exact Option.some.inj ((hinside hin).symm.trans (hrewrites pos hin.1 hlt hall))
    · exact houtside (by omega)

end

/-- In every state of a run of valid and safe calls from a formatted disk, a write to a file that
fails leaves no trace if and only if its arguments rule it out, or no block is free before it and
the data in front of the first missing block is what the file has. -/
theorem failed_write_iff {disk : Nat → Bytes} {blocks : Nat} {date : UInt64} {fs : Dzfs}
    (hle : blocks ≤ formatLimit) (hnew : dzfsNew disk blocks date = (.OK, fs)) {s : FsState}
    (hs : Reachable (fun s c => Valid s c ∧ Safe s c) (newState fs) s) {d : Nat}
    (hd : IsFile s d) {data : List UInt8} {offset : Nat}
    (hrange : WriteInRange s.fs d data offset) {r : DzfsResult} {fs' : Dzfs}
    (hw : dzfsWrite s.fs d data offset = (r, fs')) (hr : r ≠ .OK) :
    NoTrace s.fs fs' d ↔ ¬ Accepted s.fs d data offset ∨
      dzfsFreeBlocks s.fs = 0 ∧ Rewrites s.fs d data offset := by
  obtain ⟨ls, hinv⟩ := hs.inv hle hnew
  by_cases hacc : Accepted s.fs d data offset
  · have hshort : Short s.fs d data offset := by
      rcases hrange hacc with hlt | hshort
      · by_contra henough
        have hok := dzfsWrite_enough hinv.toCore hd.1 hacc hlt henough
        rw [hw] at hok
        exact hr hok
      · exact hshort
    have hiff := short_noTrace_iff hinv.toCore hd.1 hacc hshort
    rw [hw] at hiff
    rw [hiff]
    exact ⟨Or.inr, fun h => h.resolve_left (not_not_intro hacc)⟩
  · have hsame := (dzfsWrite_of_not_accepted hacc).2
    rw [hw] at hsame
    simp only at hsame
    rw [hsame]
    exact iff_of_true (NoTrace.refl _ _) (Or.inl hacc)

/-- A write behind the end of an empty file fails, and leaves no trace. -/
theorem failed_write_iff_behindEnd :
    NoTrace oneFileState.fs oneFileState.fs 4 ↔ ¬ Accepted oneFileState.fs 4 [65] 1 ∨
      dzfsFreeBlocks oneFileState.fs = 0 ∧ Rewrites oneFileState.fs 4 [65] 1 :=
  failed_write_iff (show 32768 ≤ formatLimit by decide) formattedDisk_new
    (.call _ .start ⟨by decide +kernel, by unfold Safe; decide +kernel⟩) (by decide +kernel)
    (fun _ => Or.inl (by decide))
    (show dzfsWrite oneFileState.fs 4 [65] 1 = (.ERR_ARGUMENT, oneFileState.fs) by
      unfold dzfsWrite
      rw [if_neg (by decide +kernel), if_neg (by decide), if_pos (by decide +kernel)])
    (by decide)

/-! ### A disk with two blocks -/

/-- A disk of 6 blocks, formatted. The blocks 4 and 5 are free. -/
def twoBlockDisk : Dzfs := (dzfsNew (fun _ => Bytes.zero) 6 0).2

theorem twoBlockDisk_new : dzfsNew (fun _ => Bytes.zero) 6 0 = (.OK, twoBlockDisk) :=
  Prod.ext (by decide) rfl

theorem twoBlockDisk_free : dzfsFreeBlocks twoBlockDisk = 2 := by
  have hlaw := (format_exact_iff (by decide) twoBlockDisk_new).mpr (Or.inl (by decide))
  have hF : twoBlockDisk.freeBitmapBlocks = 1 := (dzfsNew_vars twoBlockDisk_new).1
  rw [hlaw.freeBlocks, hF]

/-- The file `f` is created in the root folder. One block is still free. -/
theorem twoBlockDisk_create : ∃ n fs',
    dzfsOpenRelative twoBlockDisk 1 0 [102] 3 = (⟨.OK, some n, some 3⟩, fs') ∧
      Creation twoBlockDisk fs' {3} (fun _ => []) 3 n [102] 1 0 ∧ dzfsFreeBlocks fs' = 1 := by
  have hinv : Inv twoBlockDisk {3} fun _ => [] :=
    (dzfsNew_formatted (by decide) twoBlockDisk_new).inv
  have hfolder : entityType (twoBlockDisk.disk 3) = DZFS_ENTITY_FOLDER := hinv.root_folder
  have hcov : covered twoBlockDisk < 2 ^ 32 := by
    have hle := hinv.covered_le
    omega
  have hroom : Room twoBlockDisk 3 := by
    constructor
    · rw [(hinv.lists 3 (by decide) hfolder).count]
      decide
    · intro hfull
      have hnone := (blockAlloc_eq_zero_iff hcov (hinv.low 0 (by decide))).mp hfull
      rw [twoBlockDisk_free] at hnone
      cases hnone
  have hopen : dzfsOpenRelative twoBlockDisk 1 0 [102] 3
      = createEntity twoBlockDisk 3 (twoBlockDisk.disk 3) [102] 1 0 3 := by
    have hstart : openStart twoBlockDisk [102] 3 = (3, [102]) := by decide +kernel
    have hend : pathEnd twoBlockDisk [102] 3 = .missing 3 [102] := by decide +kernel
    rw [dzfsOpenRelative_eq (show twoBlockDisk.rootDnode ≠ 0 by decide) 1 0 [102] (by decide),
      hstart, hend, if_neg (by decide), openAt, if_pos (by decide)]
  rcases hc : createEntity twoBlockDisk 3 (twoBlockDisk.disk 3) [102] 1 0 3 with ⟨out, fs'⟩
  have hout := (createEntity_of_room hroom [102] 1 0 3).1
  rw [hc] at hout
  rcases createEntity_creation hinv (by decide) hfolder (fun _ => by decide) 1 0 3 hc with
    ⟨-, hfail⟩ | ⟨n, rfl, hnew⟩
  · exact absurd (congrArg OpenOut.result hout) hfail
  · refine ⟨n, fs', hopen.trans hc, hnew, ?_⟩
    have hn := (hnew.inv.blocks.used (.dnode n) n ⟨Finset.mem_insert_self _ _, rfl⟩).2.1
    rw [hnew.only.1] at hn
    have htake := dzfsFreeBlocks_take hcov hnew.only.1 hn hnew.free hnew.bits
    rw [twoBlockDisk_free] at htake
    omega

/-- A write of two blocks to the file `f` fails, and takes the block that was free. -/
theorem full_disk_leaves_trace : ∃ s d fs',
    Reachable (fun s c => Valid s c ∧ Safe s c) (newState twoBlockDisk) s ∧ IsFile s d ∧
      dzfsWrite s.fs d (List.replicate 8192 0) 0 = (.ERR_FULL, fs') ∧ ¬ NoTrace s.fs fs' d := by
  obtain ⟨data, hlen, hdata⟩ : ∃ data : List UInt8, data.length = 8192 ∧
      List.replicate 8192 0 = data := ⟨_, List.length_replicate, rfl⟩
  rw [hdata]
  obtain ⟨n, fs', hopen, hc, hfree⟩ := twoBlockDisk_create
  have hroot : twoBlockDisk.rootDnode = 3 := by decide
  have hcall : Valid (newState twoBlockDisk) (.openRelative [102] 3 1 0) ∧
      Safe (newState twoBlockDisk) (.openRelative [102] 3 1 0) := by
    refine ⟨by decide +kernel, ?_⟩
    unfold Safe
    decide +kernel
  have hs : Reachable (fun s c => Valid s c ∧ Safe s c) (newState twoBlockDisk)
      (exec (newState twoBlockDisk) (.openRelative [102] 3 1 0)) := .call _ .start hcall
  rw [exec_openRelative (s := newState twoBlockDisk) hopen, newState, hroot] at hs
  have hfile : entityType (fs'.disk n) = DZFS_ENTITY_FILE := by
    rw [hc.block]
    decide
  have hacc : Accepted fs' n data 0 := by
    refine ⟨hfile, ?_, Nat.zero_le _⟩
    rw [hlen]
    decide
  have hmem : n ∈ insert n ({3} : Finset Nat) := Finset.mem_insert_self _ _
  -- The new file has no blocks, and the write needs two.
  have hblocks : {0, 1} ⊆ missing (fs'.disk n) (indirectOf fs' n) 0 (0 + 8192) := by
    intro index hin
    have hlt : index < 2 := by
      simp only [Finset.mem_insert, Finset.mem_singleton] at hin
      omega
    have hdirect : ¬ index ≥ DZFS_DIRECT_BLOCKS := by
      simp only [DZFS_DIRECT_BLOCKS]
      omega
    refine mem_missing.mpr ⟨by omega, ?_, ?_⟩
    · rw [touched_iff]
      simp only [DZFS_BLOCK_SIZE]
      omega
    · rw [readContentBlock, if_neg hdirect]
      exact Bytes.getLE_eq_zero fun i hi _ => hc.links i (by simp only [directOffset] at hi; omega)
  have hshort : Short fs' n data 0 := by
    have hcard := Finset.card_le_card hblocks
    unfold Short needed
    rw [hfree, hlen]
    simp only [Finset.card_pair (show (0 : Nat) ≠ 1 by decide)] at hcard
    omega
  have hcore : Core fs' (insert n {3}) _ := hc.inv.toCore
  obtain ⟨last, st, hw, -⟩ := dzfsWrite_short hcore hmem hacc hshort
  refine ⟨_, n, st.fs, hs, ⟨hmem, hfile⟩, hw, fun htrace => ?_⟩
  have hiff := short_noTrace_iff hcore hmem hacc hshort
  rw [hw] at hiff
  rw [(hiff.mp htrace).1] at hfree
  cases hfree

end DzOS.Proofs.Fs
