import DzOS.Proofs.Fs.Ownership
import DzOS.Proofs.Fs.Read

/-!
# `DzOS.Proofs.Fs.WriteContent`: the bytes of a file after a write

`Filled` is the second invariant of the loop of `dzfsWrite`. The positions from the offset up
to where the loop is have the data (`written`). The other positions keep their bytes where
their block was allocated before, or where the loop has not come by (`kept`). The exception is
a write at the offset 0: its first turn does not read the block, so that the rest of the first
block becomes 0.

`written_reads_back` gives the bytes that a write puts in a file, and `write_frame_iff` says
when it keeps the others.
-/

set_option autoImplicit false

namespace DzOS.Proofs.Fs

open DzOS.Lib DzOS.Fs

variable {i start stop index pos : Nat}

/-- The loop has touched the content block `index` on its way from `start` to `stop`. -/
def Touched (start stop index : Nat) : Prop :=
  ∃ pos, start ≤ pos ∧ pos < stop ∧ pos / DZFS_BLOCK_SIZE = index

theorem touched_iff :
    Touched start stop index ↔
      start < stop ∧ start / DZFS_BLOCK_SIZE ≤ index ∧ index * DZFS_BLOCK_SIZE < stop := by
  simp only [DZFS_BLOCK_SIZE]
  constructor
  · rintro ⟨pos, h1, h2, h3⟩
    simp only [DZFS_BLOCK_SIZE] at h3
    omega
  · rintro ⟨h1, h2, h3⟩
    -- The first position of the block that is not in front of `start`.
    refine ⟨max start (index * 4096), Nat.le_max_left _ _, by omega, ?_⟩
    simp only [DZFS_BLOCK_SIZE]
    omega

instance (start stop index : Nat) : Decidable (Touched start stop index) :=
  decidable_of_iff _ touched_iff.symm

theorem Touched.mono {stop' : Nat} (h : Touched start stop index) (hle : stop ≤ stop') :
    Touched start stop' index := by
  obtain ⟨pos, h1, h2, h3⟩ := h
  exact ⟨pos, h1, h2.trans_le hle, h3⟩

/-- The content block `index` by the blocks in memory. -/
def memBlock (st : WriteState) (index : Nat) : Nat :=
  readContentBlock st.dnodeBlock st.indirectBlock index

/-- The byte at a position by the blocks in memory. -/
def memByte (st : WriteState) (pos : Nat) : UInt8 :=
  contentByte st.fs st.dnodeBlock st.indirectBlock pos

/-- The content of the file `d` in the loop of a write of `data₀` at `start`, from the disk
`fs₀` on. -/
structure Filled (fs₀ : Dzfs) (d : Nat) (data₀ : List UInt8) (start : Nat) (st : WriteState) :
    Prop where
  start_le : start ≤ st.offset
  end_eq : st.offset + st.data.length = start + data₀.length
  data : st.data = data₀.drop (st.offset - start)
  blank : st.offset = 0 → st.dataBlock = Bytes.zero
  allocated : ∀ pos, start ≤ pos → pos < st.offset → memBlock st (pos / DZFS_BLOCK_SIZE) ≠ 0
  written : ∀ pos, start ≤ pos → pos < st.offset → data₀[pos - start]? = some (memByte st pos)
  kept : ∀ pos < DZFS_MAX_FILESIZE, pos < start ∨ st.offset ≤ pos →
    readContentBlock (fs₀.disk d) (indirectOf fs₀ d) (pos / DZFS_BLOCK_SIZE) ≠ 0 ∨
      ¬ Touched start st.offset (pos / DZFS_BLOCK_SIZE) →
    memByte st pos = if start = 0 ∧ 0 < st.offset ∧ pos < DZFS_BLOCK_SIZE then 0
      else byteAt fs₀ d pos

section
variable {fs₀ : Dzfs} {E : Finset Nat} {ls : Nat → List Nat} {d : Nat} {st : WriteState}
  {data₀ : List UInt8} {start : Nat}

theorem Filled.init (fs₀ : Dzfs) (d : Nat) (data₀ : List UInt8) (start : Nat) :
    Filled fs₀ d data₀ start
      ⟨fs₀, fs₀.readBlock d, indirectOf fs₀ d, Bytes.zero, data₀, start⟩ where
  start_le := Nat.le_refl _
  end_eq := rfl
  data := by simp
  blank _ := rfl
  allocated pos h1 h2 := by simp only at h2; omega
  written pos h1 h2 := by simp only at h2; omega
  kept pos _ _ _ := by
    rw [if_neg (by simp only; omega)]
    rfl

/-! ### One turn -/

/-- The allocation of a turn changes no content block but that of the offset. -/
theorem contentBlock_block (hw : Writing fs₀ E d st) {st₁ : WriteState}
    (hw₁ : Writing fs₀ E d st₁) {index₀ : Nat}
    (hg : Grown d (fun q => q = .indirect d ∨ q = contentPlace d index₀) st st₁) {index : Nat}
    (hidx : index < 1024 + DZFS_DIRECT_BLOCKS) (hidx₀ : index₀ < 1024 + DZFS_DIRECT_BLOCKS)
    (hor : index ≠ index₀ ∨ memBlock st index ≠ 0) : memBlock st₁ index = memBlock st index := by
  by_cases hz : memBlock st index = 0
  · -- A pointer that was 0 stays 0, since only that of `index₀` may get a block.
    rw [hz]
    by_contra hne
    have hown := own_content d hw₁.noIndirect hidx hne
    rcases hg.new _ _ hown with hold | hplace | hplace
    · have hblock : memBlock st index = memBlock st₁ index := readContentBlock_of_own hold
      exact hne (hblock.symm.trans hz)
    · exact (contentPlace_ne d index).2 d hplace
    · have hinj : index = index₀ := by
        unfold contentPlace at hplace
        split at hplace <;> split at hplace <;> simp at hplace <;> omega
      exact hor.elim (fun h => h hinj) fun h => h hz
  · exact readContentBlock_of_own (hg.own _ _ (own_content d hw.noIndirect hidx hz))

/-- A content block that was allocated before the write keeps its number. -/
theorem Writing.memBlock_of_old (hw : Writing fs₀ E d st) (hd : d ∈ E)
    (hfile : entityType (fs₀.disk d) = DZFS_ENTITY_FILE) (hidx : index < 1024 + DZFS_DIRECT_BLOCKS)
    (hne : readContentBlock (fs₀.disk d) (indirectOf fs₀ d) index ≠ 0) :
    memBlock st index = readContentBlock (fs₀.disk d) (indirectOf fs₀ d) index := by
  have hown := own_content d (fun hzero => indirectOf_of_eq hzero) hidx hne
  have hholds := ((own_start hd hfile _ _).mp hown).2
  exact readContentBlock_of_own (hw.grows _ _ hown.entity hholds)

/-- A content block of the loop is block 0 or lies in the file area. -/
theorem Writing.memBlock_area (hinv : Core fs₀ E ls) (hw : Writing fs₀ E d st)
    (hidx : index < 1024 + DZFS_DIRECT_BLOCKS) :
    memBlock st index < 2 ∨ st.fs.freeBitmapBlocks + 2 ≤ memBlock st index := by
  by_cases hz : memBlock st index = 0
  · exact Or.inl (by omega)
  · right
    have hused := hw.owns.used _ _ (Or.inr (own_content d hw.noIndirect hidx hz))
    rw [hw.freeBitmapBlocks, ← hinv.root_eq, ← hw.rootDnode]
    exact hused.1

/-- One turn of the loop: the allocation from `st` to `st₁`, and the copy to the block `n`. -/
structure Turn (fs₀ : Dzfs) (E : Finset Nat) (d : Nat) (st st₁ : WriteState) (n : Nat) :
    Prop where
  writing : Writing fs₀ E d st
  writing₁ : Writing fs₀ E d st₁
  grown : Grown d (fun q => q = .indirect d ∨
    q = contentPlace d (st.offset / DZFS_BLOCK_SIZE)) st st₁
  own : Own d st₁.dnodeBlock st₁.indirectBlock (contentPlace d (st.offset / DZFS_BLOCK_SIZE)) n
  ne_zero : n ≠ 0
  bound : st.offset < DZFS_MAX_FILESIZE

/-- The number of bytes that a turn copies. -/
def turnLength (st : WriteState) : Nat :=
  min (DZFS_BLOCK_SIZE - st.offset % DZFS_BLOCK_SIZE) st.data.length

/-- The block that a turn writes. -/
def turnBlock (st st₁ : WriteState) (n : Nat) : Bytes :=
  (if st.offset > 0 then st₁.fs.disk n else st.dataBlock).blit (st.offset % DZFS_BLOCK_SIZE)
    (st.data.take (turnLength st))

section
variable {st₁ : WriteState} {n : Nat}

theorem Turn.copy (h : Turn fs₀ E d st st₁ n) :
    copyToBlock st₁ n = { st₁ with
      fs := st₁.fs.writeBlock n (turnBlock st st₁ n)
      dataBlock := turnBlock st st₁ n
      data := st.data.drop (turnLength st)
      offset := st.offset + turnLength st } := by
  simp only [copyToBlock, turnBlock, turnLength, h.grown.data, h.grown.offset,
    h.grown.dataBlock]

theorem Turn.block_eq (h : Turn fs₀ E d st st₁ n) :
    memBlock (copyToBlock st₁ n) (st.offset / DZFS_BLOCK_SIZE) = n := by
  rw [h.copy]
  exact readContentBlock_of_own h.own

theorem Turn.memBlock_eq (h : Turn fs₀ E d st st₁ n) (hidx : index < 1024 + DZFS_DIRECT_BLOCKS)
    (hor : index ≠ st.offset / DZFS_BLOCK_SIZE ∨ memBlock st index ≠ 0) :
    memBlock (copyToBlock st₁ n) index = memBlock st index := by
  rw [h.copy]
  exact contentBlock_block h.writing h.writing₁ h.grown hidx (index_lt h.bound) hor

/-- The positions outside the content block of the turn keep their bytes. -/
theorem Turn.byte_other (hinv : Core fs₀ E ls) (h : Turn fs₀ E d st st₁ n)
    (hpos : pos < DZFS_MAX_FILESIZE) (hne : pos / DZFS_BLOCK_SIZE ≠ st.offset / DZFS_BLOCK_SIZE) :
    memByte (copyToBlock st₁ n) pos = memByte st pos := by
  have hidx := index_lt hpos
  have hblock := h.memBlock_eq hidx (Or.inl hne)
  have hdisk : (copyToBlock st₁ n).fs.disk (memBlock st (pos / DZFS_BLOCK_SIZE))
      = st.fs.disk (memBlock st (pos / DZFS_BLOCK_SIZE)) := by
    have hn : memBlock st (pos / DZFS_BLOCK_SIZE) ≠ n := by
      intro heq
      have hz : memBlock st (pos / DZFS_BLOCK_SIZE) ≠ 0 := heq ▸ h.ne_zero
      have hown := h.grown.own _ _ (own_content d h.writing.noIndirect hidx hz)
      change Own d _ _ _ (memBlock st (pos / DZFS_BLOCK_SIZE)) at hown
      rw [heq] at hown
      have hplace := h.writing₁.owns.inj _ _ n (Or.inr hown) (Or.inr h.own)
      refine hne ?_
      unfold contentPlace at hplace
      split at hplace <;> split at hplace <;> simp at hplace <;> omega
    rw [h.copy]
    exact (Function.update_of_ne hn _ _).trans
      (h.grown.only.disk _ (h.writing.memBlock_area hinv hidx))
  unfold memByte contentByte
  change (copyToBlock st₁ n).fs.disk (memBlock (copyToBlock st₁ n) _) _ = _
  rw [hblock, hdisk]
  rfl

/-- The positions in the content block of the turn have the bytes that the turn writes. -/
theorem Turn.byte_same (h : Turn fs₀ E d st st₁ n)
    (heq : pos / DZFS_BLOCK_SIZE = st.offset / DZFS_BLOCK_SIZE) :
    memByte (copyToBlock st₁ n) pos = turnBlock st st₁ n (pos % DZFS_BLOCK_SIZE) := by
  unfold memByte contentByte
  change (copyToBlock st₁ n).fs.disk (memBlock (copyToBlock st₁ n) _) _ = _
  rw [heq, h.block_eq, h.copy]
  exact congrFun (Function.update_self _ _ _) _

/-- What is in the content block before the copy, when it was allocated before the turn. -/
theorem Turn.byte_before (hinv : Core fs₀ E ls) (h : Turn fs₀ E d st st₁ n)
    (heq : pos / DZFS_BLOCK_SIZE = st.offset / DZFS_BLOCK_SIZE)
    (hz : memBlock st (st.offset / DZFS_BLOCK_SIZE) ≠ 0) :
    st₁.fs.disk n (pos % DZFS_BLOCK_SIZE) = memByte st pos := by
  have hidx := index_lt h.bound
  have hn : memBlock st (st.offset / DZFS_BLOCK_SIZE) = n := by
    rw [← h.memBlock_eq hidx (Or.inr hz), h.block_eq]
  have hdisk := h.grown.only.disk _ (h.writing.memBlock_area hinv hidx)
  rw [hn] at hdisk
  unfold memByte contentByte
  change _ = st.fs.disk (memBlock st _) _
  rw [heq, hn, hdisk]

theorem turnLength_le (st : WriteState) : turnLength st ≤ st.data.length := Nat.min_le_right _ _

theorem turnLength_pos (hdata : st.data ≠ []) : 0 < turnLength st := by
  have hmod : st.offset % DZFS_BLOCK_SIZE < DZFS_BLOCK_SIZE := Nat.mod_lt _ (by decide)
  have hpos := List.length_pos_of_ne_nil hdata
  simp only [turnLength]
  omega

/-- Where the bytes of the turn's block come from, outside the data of the turn. -/
theorem turnBlock_of_apart (st st₁ : WriteState) (n : Nat)
    (hi : i < st.offset % DZFS_BLOCK_SIZE ∨ st.offset % DZFS_BLOCK_SIZE + turnLength st ≤ i) :
    turnBlock st st₁ n i = (if st.offset > 0 then st₁.fs.disk n else st.dataBlock) i := by
  refine Bytes.blit_of_apart ?_
  rw [List.length_take, Nat.min_eq_left (turnLength_le st)]
  exact hi

theorem turnBlock_of_mem (st st₁ : WriteState) (n : Nat) (hi : i < turnLength st) :
    st.data[i]? = some (turnBlock st st₁ n (st.offset % DZFS_BLOCK_SIZE + i)) := by
  have hlen : (st.data.take (turnLength st)).length = turnLength st := by
    rw [List.length_take, Nat.min_eq_left (turnLength_le st)]
  have hlt : i < st.data.length := lt_of_lt_of_le hi (turnLength_le st)
  unfold turnBlock
  rw [Bytes.blit_of_mem (by omega) (by omega), List.getElem?_eq_getElem hlt]
  simp

/-- A position that a turn has written before. -/
theorem Turn.byte_written (hinv : Core fs₀ E ls) (h : Turn fs₀ E d st st₁ n) (hlt : pos < st.offset)
    (hz : memBlock st (pos / DZFS_BLOCK_SIZE) ≠ 0) :
    memByte (copyToBlock st₁ n) pos = memByte st pos := by
  have hbound := h.bound
  by_cases heq : pos / DZFS_BLOCK_SIZE = st.offset / DZFS_BLOCK_SIZE
  · -- The position is in front of the copy, in a block that the turn has read.
    have hfront : pos % DZFS_BLOCK_SIZE < st.offset % DZFS_BLOCK_SIZE := by
      simp only [DZFS_BLOCK_SIZE] at heq ⊢
      omega
    rw [h.byte_same heq, turnBlock_of_apart _ _ _ (Or.inl hfront), if_pos (by omega)]
    exact h.byte_before hinv heq (heq ▸ hz)
  · exact h.byte_other hinv (by omega) heq

/-- A turn keeps the invariant of the content. -/
theorem Filled.turn (hinv : Core fs₀ E ls) (hd : d ∈ E)
    (hfile : entityType (fs₀.disk d) = DZFS_ENTITY_FILE) (hf : Filled fs₀ d data₀ start st)
    (h : Turn fs₀ E d st st₁ n) (hdata : st.data ≠ []) :
    Filled fs₀ d data₀ start (copyToBlock st₁ n) := by
  have hmod : st.offset % DZFS_BLOCK_SIZE < DZFS_BLOCK_SIZE := Nat.mod_lt _ (by decide)
  have hlen := turnLength_pos hdata
  have hle := turnLength_le st
  have hfit : st.offset % DZFS_BLOCK_SIZE + turnLength st ≤ DZFS_BLOCK_SIZE := by
    simp only [turnLength]
    omega
  -- The positions of the turn are in the content block of the offset.
  have hinside : ∀ pos, st.offset ≤ pos → pos < st.offset + turnLength st →
      pos / DZFS_BLOCK_SIZE = st.offset / DZFS_BLOCK_SIZE ∧
        pos % DZFS_BLOCK_SIZE = st.offset % DZFS_BLOCK_SIZE + (pos - st.offset) := by
    intro pos h1 h2
    simp only [DZFS_BLOCK_SIZE] at hfit ⊢
    omega
  have hoffset : (copyToBlock st₁ n).offset = st.offset + turnLength st := by rw [h.copy]
  have hdata' : (copyToBlock st₁ n).data = st.data.drop (turnLength st) := by rw [h.copy]
  have hstart := hf.start_le
  have hend := hf.end_eq
  have hbound := h.bound
  refine ⟨by omega, ?_, ?_, fun hz => by omega, fun pos h1 h2 => ?_, fun pos h1 h2 => ?_,
    fun pos hpos hout hcond => ?_⟩
  · rw [hoffset, hdata', List.length_drop]
    omega
  · rw [hdata', hoffset, hf.data, List.drop_drop]
    congr 1
    omega
  · rw [hoffset] at h2
    rcases Nat.lt_or_ge pos st.offset with hlt | hge
    · have hz := hf.allocated pos h1 hlt
      rw [h.memBlock_eq (index_lt (by omega)) (Or.inr hz)]
      exact hz
    · rw [(hinside pos hge h2).1, h.block_eq]
      exact h.ne_zero
  · rw [hoffset] at h2
    rcases Nat.lt_or_ge pos st.offset with hlt | hge
    · rw [h.byte_written hinv hlt (hf.allocated pos h1 hlt)]
      exact hf.written pos h1 hlt
    · obtain ⟨heq, hrem⟩ := hinside pos hge h2
      have hget := turnBlock_of_mem (i := pos - st.offset) st st₁ n (by omega)
      rw [h.byte_same heq, hrem, ← hget, hf.data, List.getElem?_drop]
      congr 1
      omega
  · rw [hoffset] at hout hcond ⊢
    by_cases heq : pos / DZFS_BLOCK_SIZE = st.offset / DZFS_BLOCK_SIZE
    · -- The content block of the turn. It was allocated before the write.
      have hold : readContentBlock (fs₀.disk d) (indirectOf fs₀ d) (pos / DZFS_BLOCK_SIZE) ≠ 0 :=
        hcond.resolve_right fun hno => hno ⟨st.offset, hstart, by omega, heq.symm⟩
      have hapart : pos % DZFS_BLOCK_SIZE < st.offset % DZFS_BLOCK_SIZE ∨
          st.offset % DZFS_BLOCK_SIZE + turnLength st ≤ pos % DZFS_BLOCK_SIZE := by
        simp only [DZFS_BLOCK_SIZE] at heq ⊢
        omega
      rw [h.byte_same heq, turnBlock_of_apart _ _ _ hapart]
      by_cases hzero : st.offset > 0
      · have hz : memBlock st (pos / DZFS_BLOCK_SIZE) ≠ 0 := by
          rw [h.writing.memBlock_of_old hd hfile (index_lt hpos) hold]
          exact hold
        have hiff : (start = 0 ∧ 0 < st.offset + turnLength st ∧ pos < DZFS_BLOCK_SIZE) ↔
            (start = 0 ∧ 0 < st.offset ∧ pos < DZFS_BLOCK_SIZE) := by omega
        rw [if_pos hzero, h.byte_before hinv heq (heq ▸ hz),
          hf.kept pos hpos (by omega) (Or.inl hold)]
        simp only [hiff]
      · rw [if_neg hzero, hf.blank (by omega), if_pos]
        · rfl
        · simp only [DZFS_BLOCK_SIZE] at heq ⊢
          omega
    · rw [h.byte_other hinv hpos heq, hf.kept pos hpos (by omega)
        (hcond.imp_right fun hno ht => hno (ht.mono (by omega)))]
      have hiff : (start = 0 ∧ 0 < st.offset ∧ pos < DZFS_BLOCK_SIZE) ↔
          (start = 0 ∧ 0 < st.offset + turnLength st ∧ pos < DZFS_BLOCK_SIZE) := by
        simp only [DZFS_BLOCK_SIZE] at heq ⊢
        omega
      simp only [hiff]

end

/-! ### The whole write -/

/-- The loop keeps the invariant of the content and ends with no data left. -/
theorem writeLoop_filled (hinv : Core fs₀ E ls) (hd : d ∈ E)
    (hfile : entityType (fs₀.disk d) = DZFS_ENTITY_FILE)
    (hmax : start + data₀.length ≤ DZFS_MAX_FILESIZE) (fuel : Nat)
    (hw : Writing fs₀ E d st) (hf : Filled fs₀ d data₀ start st)
    (hfuel : st.data.length ≤ fuel) {st' : WriteState}
    (hloop : writeLoop fuel st = (.OK, st')) :
    Filled fs₀ d data₀ start st' ∧ st'.data = [] := by
  induction fuel generalizing st with
  | zero =>
    obtain ⟨-, rfl⟩ := Prod.mk.inj hloop
    exact ⟨hf, List.length_eq_zero_iff.mp (by omega)⟩
  | succ fuel ih =>
    unfold writeLoop at hloop
    by_cases hdata : st.data = []
    · rw [if_pos hdata] at hloop
      obtain ⟨-, rfl⟩ := Prod.mk.inj hloop
      exact ⟨hf, hdata⟩
    · rw [if_neg hdata] at hloop
      have hpos := List.length_pos_of_ne_nil hdata
      have hend := hf.end_eq
      have hbound : st.offset < DZFS_MAX_FILESIZE := by omega
      rcases hc : contentBlock st with ⟨n, st₁⟩
      obtain ⟨hw₁, hg, hown⟩ := hw.contentBlock hinv hbound hc
      rw [hc] at hloop
      simp only at hloop
      by_cases hn : n = 0
      · rw [if_pos hn] at hloop
        cases hloop
      · rw [if_neg hn] at hloop
        have hturn : Turn fs₀ E d st st₁ n := ⟨hw, hw₁, hg, hown hn, hn, hbound⟩
        have hf' := hf.turn hinv hd hfile hturn hdata
        refine ih (hw₁.copyToBlock hinv (hown hn)) hf' ?_ hloop
        -- Each turn copies at least one byte.
        have hoffset : (copyToBlock st₁ n).offset = st.offset + turnLength st := by
          rw [hturn.copy]
        have hlen := turnLength_pos hdata
        have hend' := hf'.end_eq
        omega

/-- The content blocks on the disk after the write are those in memory at the end of the loop. -/
theorem Writing.finish_block (hw : Writing fs₀ E d st) (size index : Nat) :
    readContentBlock ((finishWrite st d size).disk d) (indirectOf (finishWrite st d size) d) index
      = memBlock st index := by
  have hself := finishWrite_disk_self d st size
  have hlinks := finalDnode_links st size
  have hind : indirectOf (finishWrite st d size) d = st.indirectBlock := by
    by_cases hne : fileIndirect st.dnodeBlock = 0
    · rw [indirectOf_of_eq (by rw [hself, hlinks.indirect, hne]), hw.noIndirect hne]
    · rw [indirectOf_of_ne (by rw [hself, hlinks.indirect]; exact hne), hself,
        hlinks.indirect, finishWrite_disk_indirect d st size hne (hw.indirect_ne hne)]
  rw [hind, hself]
  simp only [readContentBlock, memBlock, hlinks.direct]

/-- The bytes on the disk after the write are those in memory at the end of the loop. -/
theorem Writing.finish_byte (hinv : Core fs₀ E ls) (hw : Writing fs₀ E d st) (size : Nat)
    (hpos : pos < DZFS_MAX_FILESIZE) : byteAt (finishWrite st d size) d pos = memByte st pos := by
  have hdisk : (finishWrite st d size).disk (memBlock st (pos / DZFS_BLOCK_SIZE))
      = st.fs.disk (memBlock st (pos / DZFS_BLOCK_SIZE)) := by
    by_cases hz : memBlock st (pos / DZFS_BLOCK_SIZE) = 0
    · have hroot : ∀ p m, WHolds fs₀.disk E d st.dnodeBlock st.indirectBlock p m → m ≠ 0 := by
        intro p m hp
        have hle := (hw.owns.used p m hp).1
        have htwo := hinv.two_le
        rw [hw.rootDnode] at hle
        omega
      rw [hz]
      exact finishWrite_disk_other d st size (hroot (.dnode d) d (Or.inr ⟨rfl, rfl⟩)).symm
        fun hne => hne.symm
    · have hown := own_content d hw.noIndirect (index_lt hpos) hz
      exact hw.finish_disk size (Or.inr hown) ((contentPlace_ne d _).1 d)
        ((contentPlace_ne d _).2 d)
  unfold byteAt contentByte
  rw [hw.finish_block size, hdisk]
  rfl

/-- What a write that succeeds leaves of the content of its file. -/
structure Written (fs₀ fs' : Dzfs) (d : Nat) (data : List UInt8) (start : Nat) : Prop where
  file : entityType (fs₀.disk d) = DZFS_ENTITY_FILE
  file' : entityType (fs'.disk d) = DZFS_ENTITY_FILE
  size : fileSize (fs'.disk d) = (fileSize (fs₀.disk d) + data.length) % 2 ^ 32
  start_le : start ≤ fileSize (fs₀.disk d)
  written : ∀ pos, start ≤ pos → pos < start + data.length →
    data[pos - start]? = some (byteAt fs' d pos)
  kept : ∀ pos < DZFS_MAX_FILESIZE, pos < start ∨ start + data.length ≤ pos →
    readContentBlock (fs₀.disk d) (indirectOf fs₀ d) (pos / DZFS_BLOCK_SIZE) ≠ 0 ∨
      ¬ Touched start (start + data.length) (pos / DZFS_BLOCK_SIZE) →
    byteAt fs' d pos = if start = 0 ∧ 0 < data.length ∧ pos < DZFS_BLOCK_SIZE then 0
      else byteAt fs₀ d pos

/-- A write that succeeds stores its data and nothing else. -/
theorem dzfsWrite_written (hinv : Core fs₀ E ls) (hd : d ∈ E) {data : List UInt8}
    (hmax : start + data.length ≤ DZFS_MAX_FILESIZE) {fs' : Dzfs}
    (hw : dzfsWrite fs₀ d data start = (.OK, fs')) : Written fs₀ fs' d data start := by
  have hlimit : DZFS_MAX_FILESIZE < 2 ^ 64 := by decide
  rcases dzfsWrite_cases hinv hd (by omega) hw with
    ⟨-, hr⟩ | ⟨hfile, -, hoff, st, hst, ⟨hr, -⟩ | ⟨-, rfl, hloop⟩⟩
  · exact absurd rfl hr
  · cases hr
  · obtain ⟨hf, hdone⟩ := writeLoop_filled hinv hd hfile hmax data.length
      (Writing.start hinv hd hfile Bytes.zero data start) (Filled.init fs₀ d data start)
      (Nat.le_refl _) hloop
    have hend : st.offset = start + data.length := by
      have hlen := hf.end_eq
      rw [hdone, List.length_nil] at hlen
      omega
    have hheader : fileSize st.dnodeBlock = fileSize (fs₀.disk d) :=
      Bytes.getLE_congr fun i _ hi => hst.header i (by simp only [SIZE_OFFSET] at hi; omega)
    refine ⟨hfile, ?_, ?_, hoff, fun pos h1 h2 => ?_, fun pos hpos hout hcond => ?_⟩
    · rw [finishWrite_disk_self, (finalDnode_links st _).type, ← hfile]
      exact hst.header 0 (by decide)
    · rw [finishWrite_disk_self, ← hheader, finalDnode, fileSize, Bytes.getLE_setLE_self]
      exact Nat.mod_eq_of_lt (Nat.mod_lt _ (by decide))
    · rw [hst.finish_byte hinv _ (by omega)]
      exact hf.written pos h1 (by omega)
    · rw [hst.finish_byte hinv _ hpos, hf.kept pos hpos (by omega) (by rw [hend]; exact hcond)]
      have hiff : (start = 0 ∧ 0 < st.offset ∧ pos < DZFS_BLOCK_SIZE) ↔
          (start = 0 ∧ 0 < data.length ∧ pos < DZFS_BLOCK_SIZE) := by omega
      simp only [hiff]

end

/-! ### What is written is read back -/

/-- In every state of a run of valid and safe calls from a disk that `dzfsNew` formatted, the
data of a write that succeeds is what a read of its range returns. -/
theorem written_reads_back (disk : Nat → Bytes) (blocks : Nat) (date : UInt64) (fs : Dzfs)
    (hle : blocks ≤ 2 ^ 20) (hnew : dzfsNew disk blocks date = (.OK, fs)) (s : FsState)
    (hs : Reachable (fun s c => Valid s c ∧ Safe s c) (newState fs) s) (d : Nat)
    (hd : IsFile s d) (data : List UInt8) (offset : Nat) (hdata : data ≠ [])
    (hmax : offset + data.length ≤ DZFS_MAX_FILESIZE)
    (hsize : fileSize (s.fs.disk d) + data.length < 2 ^ 32) (fs' : Dzfs)
    (hw : dzfsWrite s.fs d data offset = (.OK, fs')) :
    dzfsRead fs' d data.length offset = (Int.ofNat data.length, data) := by
  obtain ⟨ls, hinv⟩ := hs.inv (hle.trans (by decide)) hnew
  have h := dzfsWrite_written hinv.toCore hd.1 hmax hw
  have hpos := List.length_pos_of_ne_nil hdata
  have hstart := h.start_le
  have hlimit : DZFS_MAX_FILESIZE < 2 ^ 31 := by decide
  have hcount : readCount (fileSize (fs'.disk d)) data.length offset = data.length := by
    rw [h.size, Nat.mod_eq_of_lt hsize]
    unfold readCount
    have hmin : min (fileSize (s.fs.disk d) + data.length - offset) data.length
        = data.length := by omega
    rw [if_neg (by omega), hmin, Nat.mod_eq_of_lt (by omega), if_pos (by omega)]
  rw [dzfsRead_eq h.file', hcount]
  congr 1
  refine List.ext_getElem (by simp) fun i hi hi' => ?_
  have hget := h.written (offset + i) (Nat.le_add_right _ _) (by omega)
  rw [Nat.add_sub_cancel_left, List.getElem?_eq_getElem hi'] at hget
  simpa using (Option.some.inj hget).symm

theorem written_reads_back_oneFile :
    dzfsRead (dzfsWrite oneFileState.fs 4 [65, 66] 0).2 4 2 0 = (2, [65, 66]) :=
  written_reads_back (fun _ => Bytes.zero) 32768 0 formattedDisk (by decide)
    (Prod.ext (by decide +kernel) rfl) oneFileState
    (.call _ .start ⟨by decide +kernel, by unfold Safe; decide +kernel⟩) 4 (by decide +kernel)
    [65, 66] 0 (by decide) (by decide) (by decide +kernel) _ (Prod.ext (by decide +kernel) rfl)

/-- The calls of `staleParentCalls`, and a write to the file `f` whose second block is the
dnode 8 of the file `y`: the first direct block of `y` becomes the dnode of `y`. -/
def ownDnodeCalls : List Call :=
  staleParentCalls ++ [.write 4 (1 :: List.replicate 271 0 ++ [8, 0, 0, 0]) 4096]

/-- A run of valid calls after which a file does not return the byte that was written. -/
theorem staleParent_not_read_back :
    ∃ fs s fs', dzfsNew (fun _ => Bytes.zero) 32768 0 = (.OK, fs) ∧
      Reachable Valid (newState fs) s ∧ IsFile s 8 ∧ fileSize (s.fs.disk 8) = 0 ∧
      dzfsWrite s.fs 8 [65] 0 = (.OK, fs') ∧ dzfsRead fs' 8 1 0 = (1, [1]) := by
  have hrun : ValidRun (newState formattedDisk) ownDnodeCalls ∧
      IsFile (ownDnodeCalls.foldl exec (newState formattedDisk)) 8 ∧
      fileSize ((ownDnodeCalls.foldl exec (newState formattedDisk)).fs.disk 8) = 0 ∧
      (dzfsWrite (ownDnodeCalls.foldl exec (newState formattedDisk)).fs 8 [65] 0).1 = .OK ∧
      dzfsRead (dzfsWrite (ownDnodeCalls.foldl exec (newState formattedDisk)).fs 8 [65] 0).2
        8 1 0 = (1, [1]) := by
    decide +kernel
  obtain ⟨hvalid, hfile, hsize, hok, hread⟩ := hrun
  have hs := ValidRun.reachable .start hvalid
  have hnew := formattedDisk_new
  generalize ownDnodeCalls.foldl exec (newState formattedDisk) = s at hfile hsize hok hread hs
  exact ⟨formattedDisk, s, _, hnew, hs, hfile, hsize, Prod.ext hok rfl, hread⟩

/-! ### What is not written stays -/

/-- Every content block that the write touches, and that has a position below the size of the
file outside the range of the write, is allocated. -/
def TouchedAllocated (fs : Dzfs) (d offset len : Nat) : Prop :=
  ∀ pos < fileSize (fs.disk d), pos < offset ∨ offset + len ≤ pos →
    Touched offset (offset + len) (pos / DZFS_BLOCK_SIZE) →
      readContentBlock (fs.disk d) (indirectOf fs d) (pos / DZFS_BLOCK_SIZE) ≠ 0

/-- One byte of a file, as `dzfsRead` returns it. -/
theorem dzfsRead_one {fs : Dzfs} {d : Nat} (hfile : entityType (fs.disk d) = DZFS_ENTITY_FILE)
    (hpos : pos < fileSize (fs.disk d)) : dzfsRead fs d 1 pos = (1, [byteAt fs d pos]) := by
  have hmin : min (fileSize (fs.disk d) - pos) 1 = 1 := by omega
  have hcount : readCount (fileSize (fs.disk d)) 1 pos = 1 := by
    unfold readCount
    rw [if_neg (by omega), hmin]
    rfl
  rw [dzfsRead_eq hfile, hcount]
  rfl

/-- In every state of a run of valid and safe calls from a disk that `dzfsNew` formatted, take
a file within the size limit whose touched blocks are allocated. A write that succeeds keeps
the bytes of the file outside its range if and only if it does not start at the offset 0, or
has no data, or the bytes behind it in the first block are 0 already. -/
theorem write_frame_iff (disk : Nat → Bytes) (blocks : Nat) (date : UInt64) (fs : Dzfs)
    (hle : blocks ≤ 2 ^ 20) (hnew : dzfsNew disk blocks date = (.OK, fs)) (s : FsState)
    (hs : Reachable (fun s c => Valid s c ∧ Safe s c) (newState fs) s) (d : Nat)
    (hd : IsFile s d) (data : List UInt8) (offset : Nat)
    (hmax : offset + data.length ≤ DZFS_MAX_FILESIZE) (fs' : Dzfs)
    (hw : dzfsWrite s.fs d data offset = (.OK, fs'))
    (hsize : fileSize (s.fs.disk d) ≤ DZFS_MAX_FILESIZE)
    (halloc : TouchedAllocated s.fs d offset data.length) :
    (∀ pos < fileSize (s.fs.disk d), pos < offset ∨ offset + data.length ≤ pos →
      dzfsRead fs' d 1 pos = dzfsRead s.fs d 1 pos) ↔
    (0 < offset ∨ data = [] ∨
      ∀ pos < fileSize (s.fs.disk d), data.length ≤ pos → pos < DZFS_BLOCK_SIZE →
        byteAt s.fs d pos = 0) := by
  obtain ⟨ls, hinv⟩ := hs.inv (hle.trans (by decide)) hnew
  have h := dzfsWrite_written hinv.toCore hd.1 hmax hw
  have hlimit : DZFS_MAX_FILESIZE < 2 ^ 31 := by decide
  have hsize' : fileSize (fs'.disk d) = fileSize (s.fs.disk d) + data.length := by
    rw [h.size]
    exact Nat.mod_eq_of_lt (by omega)
  -- One position, before and after the write.
  have hread : ∀ pos < fileSize (s.fs.disk d), pos < offset ∨ offset + data.length ≤ pos →
      (dzfsRead fs' d 1 pos = dzfsRead s.fs d 1 pos ↔
        (offset = 0 ∧ 0 < data.length ∧ pos < DZFS_BLOCK_SIZE → byteAt s.fs d pos = 0)) := by
    intro pos hpos hout
    have hcond : readContentBlock (s.fs.disk d) (indirectOf s.fs d) (pos / DZFS_BLOCK_SIZE) ≠ 0 ∨
        ¬ Touched offset (offset + data.length) (pos / DZFS_BLOCK_SIZE) := by
      by_cases ht : Touched offset (offset + data.length) (pos / DZFS_BLOCK_SIZE)
      · exact Or.inl (halloc pos hpos hout ht)
      · exact Or.inr ht
    have hkept := h.kept pos (by omega) hout hcond
    rw [dzfsRead_one h.file' (by omega), dzfsRead_one h.file hpos, hkept]
    split
    · rename_i hzero
      simp only [Prod.mk.injEq, List.cons.injEq, and_true, true_and]
      exact ⟨fun heq _ => heq.symm, fun himp => (himp hzero).symm⟩
    · rename_i hzero
      exact ⟨fun _ hcase => absurd hcase hzero, fun _ => rfl⟩
  constructor
  · intro hall
    by_cases hoff : 0 < offset
    · exact Or.inl hoff
    · by_cases hnil : data = []
      · exact Or.inr (Or.inl hnil)
      · refine Or.inr (Or.inr fun pos hpos hlen hblock => ?_)
        have hout : pos < offset ∨ offset + data.length ≤ pos := by omega
        exact (hread pos hpos hout).mp (hall pos hpos hout)
          ⟨by omega, List.length_pos_of_ne_nil hnil, hblock⟩
  · intro hcases pos hpos hout
    refine (hread pos hpos hout).mpr fun ⟨hoff, hlen, hblock⟩ => ?_
    rcases hcases with hcase | hcase | hcase
    · omega
    · rw [hcase] at hlen
      cases hlen
    · exact hcase pos hpos (by omega) hblock

/-- A disk with the file `f` of the bytes `AB`. -/
def twoBytesState : FsState := exec oneFileState (.write 4 [65, 66] 0)

theorem write_frame_iff_secondByte :
    dzfsRead (dzfsWrite twoBytesState.fs 4 [67] 1).2 4 1 0 = dzfsRead twoBytesState.fs 4 1 0 := by
  have halloc : TouchedAllocated twoBytesState.fs 4 1 1 := by
    intro pos hpos _ _
    have hsize : fileSize (twoBytesState.fs.disk 4) = 2 := by decide +kernel
    rw [hsize] at hpos
    rw [Nat.div_eq_of_lt (hpos.trans (by decide))]
    decide +kernel
  exact (write_frame_iff (fun _ => Bytes.zero) 32768 0 formattedDisk (by decide)
    (Prod.ext (by decide +kernel) rfl) twoBytesState
    (.call _ (.call _ .start ⟨by decide +kernel, by unfold Safe; decide +kernel⟩)
      ⟨by decide +kernel, by unfold Safe; decide +kernel⟩) 4 (by decide +kernel) [67] 1
    (by decide) _ (Prod.ext (by decide +kernel) rfl) (by decide +kernel) halloc).mpr
    (Or.inl (by decide)) 0 (by decide +kernel) (Or.inl (by decide))

/-- A write of one byte at the offset 0 clears the second byte of a file, in a state that
valid calls lead to. -/
theorem overwrite_clears_rest :
    ∃ fs s fs', dzfsNew (fun _ => Bytes.zero) 32768 0 = (.OK, fs) ∧
      Reachable Valid (newState fs) s ∧ IsFile s 4 ∧ fileSize (s.fs.disk 4) = 2 ∧
      dzfsWrite s.fs 4 [67] 0 = (.OK, fs') ∧ dzfsRead s.fs 4 1 1 = (1, [66]) ∧
      dzfsRead fs' 4 1 1 = (1, [0]) :=
  ⟨formattedDisk, twoBytesState, _, Prod.ext (by decide +kernel) rfl,
    .call _ (.call _ .start (by decide +kernel)) (by decide +kernel), by decide +kernel,
    by decide +kernel, Prod.ext (by decide +kernel) rfl, by decide +kernel, by decide +kernel⟩

end DzOS.Proofs.Fs
