import DzOS.Proofs.Fs.FileSize
import DzOS.Proofs.Fs.Space
import DzOS.Proofs.Fs.Tree

/-!
# `DzOS.Proofs.Fs.Access`: the content blocks that reads and writes use

`dzfsReadLogged` and `dzfsWriteLogged` are `dzfsRead` and `dzfsWrite` with a log of the content
block indices that they compute, and for a read also of the block numbers that it passes on.
`InRange` states that every index is that of a pointer, and that no read passes on block 0.

What makes this true is `Solid`: the size of every file is within the limit, and every content
block below it is allocated. A write adds its length to the size, wherever it starts, so it
keeps `Solid` only if it leaves no block below the new size without a pointer (`NoHole`), or if
it fails. `access_in_range` is the result for runs of creations and writes that keep to this.
`rewrite_not_in_range` writes one block twice, and the read behind it goes to block 0.
-/

set_option autoImplicit false

namespace DzOS.Proofs.Fs

open DzOS.Lib DzOS.Fs

variable {a : Nat × Nat} {date : UInt64} {flags : UInt32} {index offset d : Nat} {s : FsState}
  {st : WriteState} {data : List UInt8} {fs : Dzfs}

/-! ### Logs -/

/-- `readLoop` with the index and the number of the content block of each turn. -/
def readLoopLogged (fs : Dzfs) (dnodeBlock indirectBlock : Bytes) :
    Nat → Nat → Nat → List UInt8 × List (Nat × Nat)
  | 0, _, _ => ([], [])
  | fuel + 1, toRead, offset =>
    if toRead = 0 then ([], [])
    else
      let contentBlockIndex := offset / DZFS_BLOCK_SIZE
      let contentBlock := readContentBlock dnodeBlock indirectBlock contentBlockIndex
      let rawDataIndex := offset % DZFS_BLOCK_SIZE
      let toCopy := min (DZFS_BLOCK_SIZE - rawDataIndex) toRead
      let (buf, log) :=
        readLoopLogged fs dnodeBlock indirectBlock fuel (toRead - toCopy) (offset + toCopy)
      ((fs.readBlock contentBlock).slice rawDataIndex toCopy ++ buf,
        (contentBlockIndex, contentBlock) :: log)

/-- `dzfsRead` with the log of its loop. -/
def dzfsReadLogged (fs : Dzfs) (dnode size offset : Nat) :
    (Int × List UInt8) × List (Nat × Nat) :=
  let dnodeBlock := fs.readBlock dnode
  if entityType dnodeBlock ≠ DZFS_ENTITY_FILE then ((DzfsResult.ERR_ARGUMENT.code, []), [])
  else if offset ≥ fileSize dnodeBlock then ((0, []), [])
  else
    let toRead := min (fileSize dnodeBlock - offset) size % 2 ^ 32
    if toRead < 2 ^ 31 then
      let (buf, log) := readLoopLogged fs dnodeBlock (indirectOf fs dnode) toRead toRead offset
      ((buf.length, buf), log)
    else ((0, []), [])

/-- `writeLoop` with the index of the content block of each turn. -/
def writeLoopLogged : Nat → WriteState → (DzfsResult × WriteState) × List Nat
  | 0, st => ((.OK, st), [])
  | fuel + 1, st =>
    if st.data = [] then ((.OK, st), [])
    else
      let contentBlockIndex := st.offset / DZFS_BLOCK_SIZE
      let (n, st) := contentBlock st
      if n = 0 then ((.ERR_FULL, st), [contentBlockIndex])
      else
        let (out, log) := writeLoopLogged fuel (copyToBlock st n)
        (out, contentBlockIndex :: log)

/-- `dzfsWrite` with the log of its loop. -/
def dzfsWriteLogged (fs : Dzfs) (dnode : Nat) (data : List UInt8) (offset : Nat) :
    (DzfsResult × Dzfs) × List Nat :=
  let dnodeBlock := fs.readBlock dnode
  if entityType dnodeBlock ≠ DZFS_ENTITY_FILE then ((.ERR_ARGUMENT, fs), [])
  else if (data.length + offset) % 2 ^ 64 > DZFS_MAX_FILESIZE then ((.ERR_LIMIT, fs), [])
  else if offset > fileSize dnodeBlock then ((.ERR_ARGUMENT, fs), [])
  else
    match writeLoopLogged data.length (startWrite fs dnode data offset) with
    | ((.OK, st), log) => ((.OK, finishWrite st dnode data.length), log)
    | ((r, st), log) => ((r, st.fs), log)

theorem readLoopLogged_fst (fs : Dzfs) (b ind : Bytes) (fuel toRead offset : Nat) :
    (readLoopLogged fs b ind fuel toRead offset).1 = readLoop fs b ind fuel toRead offset := by
  induction fuel generalizing toRead offset with
  | zero => rfl
  | succ fuel ih =>
    unfold readLoopLogged readLoop
    split
    · rfl
    · simp only [ih]

/-- Without its log, `dzfsReadLogged` is `dzfsRead`. -/
theorem dzfsReadLogged_fst (fs : Dzfs) (dnode size offset : Nat) :
    (dzfsReadLogged fs dnode size offset).1 = dzfsRead fs dnode size offset := by
  unfold dzfsReadLogged dzfsRead
  simp only
  split
  · rfl
  · split
    · rfl
    · split
      · simp only [readLoopLogged_fst]
        rfl
      · rfl

theorem writeLoopLogged_fst (fuel : Nat) (st : WriteState) :
    (writeLoopLogged fuel st).1 = writeLoop fuel st := by
  induction fuel generalizing st with
  | zero => rfl
  | succ fuel ih =>
    unfold writeLoopLogged writeLoop
    split
    · rfl
    · simp only
      split
      · rfl
      · exact ih _

/-- The log of a write that its arguments allow is that of its loop. -/
theorem dzfsWriteLogged_of_accepted (h : Accepted fs d data offset) :
    dzfsWriteLogged fs d data offset =
      match writeLoopLogged data.length (startWrite fs d data offset) with
      | ((.OK, st), log) => ((.OK, finishWrite st d data.length), log)
      | ((r, st), log) => ((r, st.fs), log) := by
  obtain ⟨hfile, hmax, hoff⟩ := h
  unfold dzfsWriteLogged
  simp only [Dzfs.readBlock]
  rw [if_neg (not_not_intro hfile), if_neg (not_lt.mpr hmax), if_neg (not_lt.mpr hoff)]

theorem dzfsWriteLogged_of_not_accepted (h : ¬ Accepted fs d data offset) :
    (dzfsWriteLogged fs d data offset).1 = dzfsWrite fs d data offset ∧
      (dzfsWriteLogged fs d data offset).2 = [] := by
  unfold dzfsWriteLogged dzfsWrite
  simp only [Dzfs.readBlock]
  split
  · exact ⟨rfl, rfl⟩
  · rename_i hfile
    split
    · exact ⟨rfl, rfl⟩
    · rename_i hmax
      split
      · exact ⟨rfl, rfl⟩
      · rename_i hoff
        exact absurd ⟨not_not.mp hfile, not_lt.mp hmax, not_lt.mp hoff⟩ h

/-- Without its log, `dzfsWriteLogged` is `dzfsWrite`. -/
theorem dzfsWriteLogged_fst (fs : Dzfs) (d : Nat) (data : List UInt8) (offset : Nat) :
    (dzfsWriteLogged fs d data offset).1 = dzfsWrite fs d data offset := by
  by_cases h : Accepted fs d data offset
  · rw [dzfsWriteLogged_of_accepted h, dzfsWrite_of_accepted h, ← writeLoopLogged_fst]
    rcases writeLoopLogged data.length (startWrite fs d data offset) with ⟨⟨r, st⟩, log⟩
    cases r <;> rfl
  · exact (dzfsWriteLogged_of_not_accepted h).1

/-! ### What is in the logs -/

/-- The log of a read has the content blocks of the positions that it reads. -/
theorem mem_readLoopLogged {b ind : Bytes} (fuel toRead offset : Nat)
    (ha : a ∈ (readLoopLogged fs b ind fuel toRead offset).2) :
    ∃ pos, offset ≤ pos ∧ pos < offset + toRead ∧
      a = (pos / DZFS_BLOCK_SIZE, readContentBlock b ind (pos / DZFS_BLOCK_SIZE)) := by
  induction fuel generalizing toRead offset with
  | zero => cases ha
  | succ fuel ih =>
    unfold readLoopLogged at ha
    by_cases hzero : toRead = 0
    · rw [if_pos hzero] at ha
      cases ha
    · rw [if_neg hzero] at ha
      simp only [List.mem_cons] at ha
      rcases ha with rfl | ha
      · exact ⟨offset, Nat.le_refl _, by omega, rfl⟩
      · obtain ⟨pos, h1, h2, heq⟩ := ih _ _ ha
        exact ⟨pos, by omega, by omega, heq⟩

/-- The log of `dzfsRead` has the content blocks of positions below the size of the file. -/
theorem mem_dzfsReadLogged {size : Nat} (ha : a ∈ (dzfsReadLogged fs d size offset).2) :
    entityType (fs.disk d) = DZFS_ENTITY_FILE ∧ ∃ pos < fileSize (fs.disk d),
      a = (pos / DZFS_BLOCK_SIZE,
        readContentBlock (fs.disk d) (indirectOf fs d) (pos / DZFS_BLOCK_SIZE)) := by
  unfold dzfsReadLogged at ha
  simp only [Dzfs.readBlock] at ha
  split at ha
  · cases ha
  · rename_i hfile
    split at ha
    · cases ha
    · rename_i hoff
      split at ha
      · obtain ⟨pos, -, hlt, heq⟩ := mem_readLoopLogged _ _ _ ha
        have hmod := Nat.mod_le (min (fileSize (fs.disk d) - offset) size) (2 ^ 32)
        exact ⟨not_not.mp hfile, pos, by omega, heq⟩
      · cases ha

/-- The log of `dzfsWrite` is that of its loop, if the arguments pass the checks. -/
theorem mem_dzfsWriteLogged (hi : index ∈ (dzfsWriteLogged fs d data offset).2) :
    Accepted fs d data offset ∧
      index ∈ (writeLoopLogged data.length (startWrite fs d data offset)).2 := by
  by_cases h : Accepted fs d data offset
  · rw [dzfsWriteLogged_of_accepted h] at hi
    rcases hloop : writeLoopLogged data.length (startWrite fs d data offset) with ⟨⟨r, st⟩, log⟩
    rw [hloop] at hi
    refine ⟨h, ?_⟩
    cases r <;> exact hi
  · rw [(dzfsWriteLogged_of_not_accepted h).2] at hi
    cases hi

section
variable {fs₀ : Dzfs} {E : Finset Nat} {ls : Nat → List Nat} {d : Nat} {st : WriteState}

/-- A loop that ends within the limit, or runs out of space, uses the indices of pointers
only. -/
theorem writeLoopLogged_lt (hinv : Core fs₀ E ls) (fuel : Nat) (h : Writing fs₀ E d st)
    (hbound : st.offset + st.data.length ≤ DZFS_MAX_FILESIZE ∨
      dzfsFreeBlocks st.fs < stillNeeded st) (hi : index ∈ (writeLoopLogged fuel st).2) :
    index < 1024 + DZFS_DIRECT_BLOCKS := by
  induction fuel generalizing st with
  | zero => cases hi
  | succ fuel ih =>
    unfold writeLoopLogged at hi
    by_cases hdata : st.data = []
    · rw [if_pos hdata] at hi
      cases hi
    · have hpos := List.length_pos_of_ne_nil hdata
      have hoff : st.offset < DZFS_MAX_FILESIZE := by
        rcases hbound with hmax | hshort
        · omega
        · exact (short_bound hshort).2
      have hidx := index_lt hoff
      rcases hc : contentBlock st with ⟨n, st₁⟩
      rw [if_neg hdata, hc] at hi
      simp only at hi
      rcases h.turn_cases hinv hoff hc with ⟨hn, -⟩ | hturn
      · rw [if_pos hn] at hi
        simp only [List.mem_singleton] at hi
        exact hi ▸ hidx
      · rw [if_neg hturn.ne_zero] at hi
        simp only [List.mem_cons] at hi
        rcases hi with rfl | hi
        · exact hidx
        · have hspace := hturn.space hinv hc hdata
          have hend := copyToBlock_end st₁ n
          rw [hturn.grown.offset, hturn.grown.data] at hend
          refine ih (hturn.writing₁.copyToBlock hinv hturn.own) ?_ hi
          exact hbound.imp (fun hmax => by omega) fun hshort => by omega

end

/-! ### Files without holes -/

/-- The size of the file is within the limit, and its content blocks are allocated. -/
structure SolidFile (fs : Dzfs) (d : Nat) : Prop where
  size_le : fileSize (fs.disk d) ≤ DZFS_MAX_FILESIZE
  block : ∀ index, index * DZFS_BLOCK_SIZE < fileSize (fs.disk d) →
    readContentBlock (fs.disk d) (indirectOf fs d) index ≠ 0

/-- Every file is without holes. -/
def Solid (fs : Dzfs) (E : Finset Nat) : Prop :=
  ∀ d ∈ E, entityType (fs.disk d) = DZFS_ENTITY_FILE → SolidFile fs d

/-- The write leaves no hole: the new size is within the limit, and below it the content blocks
are allocated before or written now. -/
def NoHole (fs : Dzfs) (d : Nat) (data : List UInt8) (offset : Nat) : Prop :=
  fileSize (fs.disk d) + data.length ≤ DZFS_MAX_FILESIZE ∧
    ∀ index < 1024 + DZFS_DIRECT_BLOCKS,
      index * DZFS_BLOCK_SIZE < fileSize (fs.disk d) + data.length →
        readContentBlock (fs.disk d) (indirectOf fs d) index ≠ 0 ∨
          Touched offset (offset + data.length) index

instance (fs : Dzfs) (d : Nat) (data : List UInt8) (offset : Nat) :
    Decidable (NoHole fs d data offset) :=
  inferInstanceAs (Decidable (_ ∧ ∀ index < 1024 + DZFS_DIRECT_BLOCKS, _ → _ ∨ _))

section
variable {fs fs' : Dzfs} {E : Finset Nat} {ls : Nat → List Nat} {d : Nat}

/-- A file depends on its dnode and its indirect block. -/
theorem SolidFile.congr (h : SolidFile fs d) (hdisk : fs'.disk d = fs.disk d)
    (hind : fileIndirect (fs.disk d) ≠ 0 →
      fs'.disk (fileIndirect (fs.disk d)) = fs.disk (fileIndirect (fs.disk d))) :
    SolidFile fs' d := by
  have heq := indirectOf_congr (congrArg fileIndirect hdisk) hind
  constructor
  · rw [hdisk]
    exact h.size_le
  · rw [hdisk, heq]
    exact h.block

/-- A new file is empty. -/
theorem Solid.create (h : Solid fs E) (hinv : Inv fs E ls) {cur n : Nat} (hcur : cur ∈ E)
    (hfolder : entityType (fs.disk cur) = DZFS_ENTITY_FOLDER) {name : List UInt8}
    (hc : Creation fs fs' E ls cur n name flags date)
    (hname : flags &&& DZFS_O_DIR = 0 → name.length < SIZE_OFFSET) : Solid fs' (insert n E) := by
  intro e hmem hfile
  rcases Finset.mem_insert.mp hmem with rfl | he
  · have hflags : flags &&& DZFS_O_DIR = 0 := by
      rw [hc.block] at hfile
      exact newDnode_flags hfile
    have hsize : fileSize (fs'.disk e) = 0 := by
      rw [hc.block]
      exact newDnode_size hflags (hname hflags)
    exact ⟨by omega, fun index hlt => by omega⟩
  · have hen : e ≠ n := by
      rintro rfl
      exact hc.not_mem he
    have hec : e ≠ cur := by
      rintro rfl
      have htype : entityType (fs'.disk e) = DZFS_ENTITY_FOLDER := by
        rw [hc.folder, ← hfolder]
        exact Bytes.setLE_of_apart (Or.inl (by simp only [contentOffset]; omega))
      exact file_ne_folder hfile htype
    have hdisk := hc.disk e (Or.inr (hinv.root_le he)) hec hen
    rw [hdisk] at hfile
    refine (h e he hfile).congr hdisk fun hne => ?_
    -- The indirect block is neither the folder nor the new dnode.
    have hp : Holds fs.disk E (.indirect e) (fileIndirect (fs.disk e)) := ⟨he, hfile, rfl, hne⟩
    refine hc.disk _ (Or.inr (hinv.blocks.used _ _ hp).1) ?_ ?_
    · intro heq
      have hinj := hinv.blocks.inj _ (.dnode cur) _ hp ⟨hcur, heq⟩
      cases hinj
    · intro heq
      exact hc.not_holds _ (heq ▸ hp)

/-- A file that no write goes to keeps its blocks. -/
theorem Solid.other (h : Solid fs E) {e : Nat} (he : e ∈ E)
    (hkeep : ∀ p m, p = .dnode e ∨ p = .indirect e → Holds fs.disk E p m →
      fs'.disk m = fs.disk m) (hfile : entityType (fs'.disk e) = DZFS_ENTITY_FILE) :
    SolidFile fs' e := by
  have hdisk : fs'.disk e = fs.disk e := hkeep (.dnode e) e (Or.inl rfl) ⟨he, rfl⟩
  rw [hdisk] at hfile
  exact (h e he hfile).congr hdisk fun hne =>
    hkeep (.indirect e) _ (Or.inr rfl) ⟨he, hfile, rfl, hne⟩

/-- A write that stops at a full disk leaves the files as they are. -/
theorem Solid.stopped (h : Solid fs E) (hst : Writing fs E d st) : Solid st.fs E := by
  intro e he hfile
  refine h.other he (fun p m hp hm => hst.kept p m hm ?_) hfile
  by_cases hed : e = d
  · subst hed
    exact Or.inr hp
  · refine Or.inl ?_
    rcases hp with rfl | rfl
    · exact hed
    · exact hed

/-- A write that succeeds and leaves no hole. -/
theorem Solid.finished (h : Solid fs E) (hinv : Core fs E ls) (hd : d ∈ E)
    (hacc : Accepted fs d data offset) (hlt : data.length + offset < 2 ^ 64)
    (hhole : NoHole fs d data offset) (hst : Writing fs E d st)
    (hloop : writeLoop data.length (startWrite fs d data offset) = (.OK, st)) :
    Solid (finishWrite st d data.length) E := by
  obtain ⟨hfile, hmax, hoff⟩ := hacc
  rw [Nat.mod_eq_of_lt hlt] at hmax
  obtain ⟨hnew, hblocks⟩ := hhole
  intro e he hefile
  by_cases hed : e = d
  · subst hed
    obtain ⟨hfilled, hdone⟩ := writeLoop_filled hinv hd hfile (by omega) data.length
      (Writing.start hinv hd hfile Bytes.zero data offset) (Filled.init fs e data offset)
      (Nat.le_refl _) hloop
    have hend := hfilled.end_eq
    rw [hdone, List.length_nil] at hend
    have hsize : fileSize ((finishWrite st e data.length).disk e)
        = fileSize (fs.disk e) + data.length := by
      have hw : dzfsWrite fs e data offset = (.OK, finishWrite st e data.length) := by
        rw [dzfsWrite_of_accepted ⟨hfile, by rwa [Nat.mod_eq_of_lt hlt], hoff⟩, hloop]
      have hlimit : DZFS_MAX_FILESIZE < 2 ^ 32 := by decide
      rw [(dzfsWrite_size hw).1]
      exact Nat.mod_eq_of_lt (by omega)
    refine ⟨by omega, fun index hlt' => ?_⟩
    rw [hsize] at hlt'
    have hidx : index < 1024 + DZFS_DIRECT_BLOCKS := by
      have hpos : index * DZFS_BLOCK_SIZE < DZFS_MAX_FILESIZE := by omega
      have hdiv := index_lt hpos
      rwa [Nat.mul_div_cancel _ (by decide)] at hdiv
    rw [hst.finish_block]
    rcases hblocks index hidx hlt' with hne | ⟨pos, h1, h2, rfl⟩
    · rw [hst.memBlock_of_old hd hfile hidx hne]
      exact hne
    · exact hfilled.allocated pos h1 (by omega)
  · refine h.other he (fun p m hp hm => hst.finish_kept _ hm ?_) hefile
    rcases hp with rfl | rfl
    · exact hed
    · exact hed

end

/-! ### Calls -/

/-- If the open creates a file, its name ends in front of the size of the new dnode. -/
def NewFileFits (fs : Dzfs) (path : List UInt8) (relativeTo : Nat) (flags : UInt32) : Prop :=
  flags &&& DZFS_O_DIR = 0 → ∀ name ∈ createdName fs path relativeTo flags,
    name.length < SIZE_OFFSET

instance (fs : Dzfs) (path : List UInt8) (relativeTo : Nat) (flags : UInt32) :
    Decidable (NewFileFits fs path relativeTo flags) :=
  inferInstanceAs (Decidable (_ → ∀ name ∈ createdName fs path relativeTo flags, _))

/-- Creations, and writes to entities. A write that its arguments allow ends within 64 bits and
leaves no hole, or it runs out of space. The name of a new file ends in front of its size. -/
def AccessOk (s : FsState) : Call → Prop
  | .openRelative path relativeTo flags _ =>
    IsFolder s relativeTo ∧ NewNameFits s.fs path relativeTo flags ∧
      NewFileFits s.fs path relativeTo flags
  | .openAbsolute path flags _ =>
    path.head? = some SLASH → NewNameFits s.fs path s.fs.rootDnode flags ∧
      NewFileFits s.fs path s.fs.rootDnode flags
  | .write dnode data offset =>
    dnode ∈ s.entities ∧ (Accepted s.fs dnode data offset →
      data.length + offset < 2 ^ 64 ∧ NoHole s.fs dnode data offset ∨
        Short s.fs dnode data offset)
  | .delete _ _ => False
  | .move _ _ _ _ => False

instance (s : FsState) (c : Call) : Decidable (AccessOk s c) :=
  match c with
  | .openRelative _ _ _ _ => inferInstanceAs (Decidable (_ ∧ _ ∧ _))
  | .openAbsolute path flags _ =>
    inferInstanceAs (Decidable (_ → NewNameFits s.fs path s.fs.rootDnode flags ∧ _))
  | .write dnode data offset =>
    inferInstanceAs (Decidable (_ ∧ (Accepted s.fs dnode data offset → _ ∧ _ ∨ _)))
  | .delete _ _ => isFalse not_false
  | .move _ _ _ _ => isFalse not_false

/-- The invariant of the runs: a tree, and files without holes. -/
def Accessible (fs : Dzfs) (E : Finset Nat) : Prop := (∃ ls, Tree fs E ls) ∧ Solid fs E

section
variable {fs fs' : Dzfs} {E : Finset Nat}

theorem Accessible.openRelative (h : Accessible fs E) {path : List UInt8} {relativeTo : Nat}
    {out : OpenOut} (hrel : relativeTo ∈ E ∧ entityType (fs.disk relativeTo) = DZFS_ENTITY_FOLDER)
    (hname : NewNameFits fs path relativeTo flags) (hfits : NewFileFits fs path relativeTo flags)
    (ho : dzfsOpenRelative fs flags date path relativeTo = (out, fs')) :
    Accessible fs' (entitiesAfterOpen E out) := by
  obtain ⟨⟨ls, htree⟩, hsolid⟩ := h
  rcases htree.openRelative_creation hrel hname ho with
    ⟨rfl, hok⟩ | ⟨cur, n, name, -, hcreated, hcur, rfl, hc⟩
  · rw [entitiesAfterOpen_same hok]
    exact ⟨⟨ls, htree⟩, hsolid⟩
  · refine ⟨⟨_, htree.create hcur.1 hc⟩, ?_⟩
    exact hsolid.create htree.toInv hcur.1 hcur.2 hc fun hflags => hfits hflags name hcreated

/-- A write that runs out of space leaves the tree and the files as they are. -/
theorem Accessible.short (h : Accessible fs E) (hd : d ∈ E) (hacc : Accepted fs d data offset)
    (hshort : Short fs d data offset) : Accessible (dzfsWrite fs d data offset).2 E := by
  obtain ⟨⟨ls, htree⟩, hsolid⟩ := h
  obtain ⟨last, st, hw, hstuck⟩ := dzfsWrite_short htree.toCore hd hacc hshort
  have hst := hstuck.stopped
  have hdnode : ∀ e ∈ E, st.fs.disk e = fs.disk e := by
    intro e he
    refine hst.kept (.dnode e) e ⟨he, rfl⟩ ?_
    by_cases hed : e = d
    · exact Or.inr (Or.inl (by rw [hed]))
    · exact Or.inl hed
  have hroot : st.fs.rootDnode = fs.rootDnode := hst.rootDnode
  rw [hw]
  refine ⟨⟨ls, htree.of_same ⟨hst.stopped htree.toCore, ?_⟩ hroot (fun _ _ => Iff.rfl)
    (fun e he => by rw [hdnode e he]) fun e he _ => by rw [hdnode e he]⟩, hsolid.stopped hst⟩
  rw [hroot]
  exact htree.listing

theorem Accessible.write (h : Accessible fs E) {d : Nat} (hd : d ∈ E) {data : List UInt8}
    {offset : Nat} (hacc : Accepted fs d data offset) (hlt : data.length + offset < 2 ^ 64)
    (hhole : NoHole fs d data offset) : Accessible (dzfsWrite fs d data offset).2 E := by
  obtain ⟨⟨ls, htree⟩, hsolid⟩ := h
  refine ⟨⟨ls, htree.write hd hlt⟩, ?_⟩
  rcases hw : dzfsWrite fs d data offset with ⟨r, fs'⟩
  rcases dzfsWrite_cases htree.toCore hd hlt hw with
    ⟨rfl, -⟩ | ⟨-, -, -, st, hst, ⟨-, rfl⟩ | ⟨-, rfl, hloop⟩⟩
  · exact hsolid
  · exact hsolid.stopped hst
  · exact hsolid.finished htree.toCore hd hacc hlt hhole hst hloop

end

/-- A call that is `AccessOk` keeps the invariant. -/
theorem exec_accessible (h : Accessible s.fs s.entities) {c : Call} (hc : AccessOk s c) :
    Accessible (exec s c).fs (exec s c).entities := by
  cases c with
  | openRelative path relativeTo flags date =>
    rcases ho : dzfsOpenRelative s.fs flags date path relativeTo with ⟨out, fs'⟩
    rw [exec_openRelative ho]
    exact h.openRelative hc.1 hc.2.1 hc.2.2 ho
  | openAbsolute path flags date =>
    obtain ⟨ls, htree⟩ := h.1
    rcases exec_openAbsolute htree.root_mem path flags date with hexec | ⟨rest, rfl, hexec⟩
    · rw [hexec]
      exact h
    · rcases ho : dzfsOpenRelative s.fs flags date rest s.fs.rootDnode with ⟨out, fs'⟩
      rw [hexec, exec_openRelative ho]
      obtain ⟨hname, hfits⟩ := hc rfl
      unfold NewNameFits at hname
      unfold NewFileFits at hfits
      rw [createdName_slash] at hname hfits
      exact h.openRelative ⟨htree.root_mem, htree.root_folder⟩ hname hfits ho
  | write dnode data offset =>
    obtain ⟨hd, hc⟩ := hc
    show Accessible (dzfsWrite s.fs dnode data offset).2 s.entities
    by_cases hacc : Accepted s.fs dnode data offset
    · rcases hc hacc with ⟨hlt, hhole⟩ | hshort
      · exact h.write hd hacc hlt hhole
      · exact h.short hd hacc hshort
    · rw [(dzfsWrite_of_not_accepted hacc).2]
      exact h
  | delete dnode parentDnode => exact absurd hc not_false
  | move dnode oldParent newParent newName => exact absurd hc not_false

/-! ### Runs -/

/-- Every read of an entity, and every write whose range ends within 64 bits, that its
arguments rule out or that runs out of space, uses the indices of pointers only. No read passes
on block 0. -/
structure InRange (s : FsState) : Prop where
  read : ∀ d ∈ s.entities, ∀ size offset, ∀ a ∈ (dzfsReadLogged s.fs d size offset).2,
    a.1 < DZFS_DIRECT_BLOCKS + DZFS_INDIRECT_BLOCK_COUNT ∧ a.2 ≠ 0
  write : ∀ d ∈ s.entities, ∀ data offset,
    WriteInRange s.fs d data offset → ∀ index ∈ (dzfsWriteLogged s.fs d data offset).2,
      index < DZFS_DIRECT_BLOCKS + DZFS_INDIRECT_BLOCK_COUNT

/-- On an accessible disk every access is inside it. -/
theorem Accessible.inRange (h : Accessible s.fs s.entities) : InRange s := by
  obtain ⟨⟨ls, htree⟩, hsolid⟩ := h
  have hcount : DZFS_DIRECT_BLOCKS + DZFS_INDIRECT_BLOCK_COUNT = 1024 + DZFS_DIRECT_BLOCKS := rfl
  constructor
  · intro d hd size offset a ha
    obtain ⟨hfile, pos, hlt, rfl⟩ := mem_dzfsReadLogged ha
    obtain ⟨hsize, hblock⟩ := hsolid d hd hfile
    rw [hcount]
    refine ⟨index_lt (by omega), hblock _ ?_⟩
    exact lt_of_le_of_lt (Nat.div_mul_le_self _ _) hlt
  · intro d hd data offset hcond index hi
    obtain ⟨hacc, hi⟩ := mem_dzfsWriteLogged hi
    rw [hcount]
    refine writeLoopLogged_lt htree.toCore data.length
      (Writing.start htree.toCore hd hacc.1 Bytes.zero data offset) ?_ hi
    refine (hcond hacc).imp_left fun hlt => ?_
    have hmax := hacc.2.1
    rw [Nat.mod_eq_of_lt hlt] at hmax
    simp only
    omega

/-- In every state of a run of creations and writes that are `AccessOk`, from a formatted disk,
reads and writes stay in range. -/
theorem access_in_range {disk : Nat → Bytes} {blocks : Nat} {date : UInt64} {fs : Dzfs}
    (hle : blocks ≤ formatLimit) (hnew : dzfsNew disk blocks date = (.OK, fs)) {s : FsState}
    (hs : Reachable AccessOk (newState fs) s) : InRange s := by
  have hinv : Accessible s.fs s.entities := by
    induction hs with
    | start =>
      have htree := (dzfsNew_formatted hle hnew).tree
      refine ⟨⟨_, htree⟩, fun d hd hfile => ?_⟩
      rw [Finset.mem_singleton.mp hd] at hfile
      exact absurd htree.root_folder (file_ne_folder hfile)
    | call c _ hc ih => exact exec_accessible ih hc
  exact hinv.inRange

/-- The file `f` gets a block and one byte, and then one byte more at its end. -/
def appendCalls : List Call :=
  [.openRelative [102] 3 1 0, .write 4 (List.replicate 4097 0) 0, .write 4 [1] 4097]

theorem access_in_range_append : InRange (appendCalls.foldl exec (newState formattedDisk)) :=
  access_in_range (show 32768 ≤ formatLimit by decide) formattedDisk_new
    (OkRun.reachable .start (show OkRun AccessOk (newState formattedDisk) appendCalls by
      decide +kernel))

/-- The first block of the file `f` is written twice, which doubles its size. -/
def rewriteCalls : List Call :=
  [.openRelative [102] 3 1 0, .write 4 (List.replicate 4096 0) 0,
    .write 4 (List.replicate 4096 0) 0]

/-- After these valid calls, a read of the second block passes on block 0. -/
theorem rewrite_not_in_range :
    Reachable Valid (newState formattedDisk) (rewriteCalls.foldl exec (newState formattedDisk)) ∧
      ¬ InRange (rewriteCalls.foldl exec (newState formattedDisk)) := by
  have hrun : ValidRun (newState formattedDisk) rewriteCalls := by decide +kernel
  refine ⟨hrun.reachable .start, fun hrange => ?_⟩
  have hmem : 4 ∈ (rewriteCalls.foldl exec (newState formattedDisk)).entities := by
    decide +kernel
  have hlog : (1, 0) ∈
      (dzfsReadLogged (rewriteCalls.foldl exec (newState formattedDisk)).fs 4 1 4096).2 := by
    decide +kernel
  exact (hrange.read 4 hmem 1 4096 (1, 0) hlog).2 rfl

end DzOS.Proofs.Fs
