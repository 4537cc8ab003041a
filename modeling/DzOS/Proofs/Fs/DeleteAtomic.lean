import DzOS.Proofs.Fs.Runs

/-!
# `DzOS.Proofs.Fs.DeleteAtomic`: when a failed delete leaves the disk as it was

`dzfsDelete` frees the blocks of a file before it looks at the folder that it is given. When
that block is no folder, or has no entry for the file, the call fails with the blocks freed.
Nothing else is written before the last check, so a failed delete of a folder changes nothing.

`delete_atomic_iff` is the exact condition, for every disk and for any two block numbers.
-/

set_option autoImplicit false

namespace DzOS.Proofs.Fs

open DzOS.Lib DzOS.Fs

variable {freed : List Nat}

section
variable {fs : Dzfs} {d p : Nat}

/-- The block `p` is a folder, and one of its entries is `d`. -/
def HasEntry (fs : Dzfs) (d p : Nat) : Prop :=
  entityType (fs.disk p) = DZFS_ENTITY_FOLDER ∧
    ∃ i < DZFS_MAX_DIR_CONTENTS, contentDnode (fs.disk p) i = d

instance (fs : Dzfs) (d p : Nat) : Decidable (HasEntry fs d p) :=
  inferInstanceAs (Decidable (_ ∧ _))

/-- The folder `p` lists the dnode `d`. An entry 0 lists nothing. -/
def ListedAt (fs : Dzfs) (d p : Nat) : Prop := d ≠ 0 ∧ HasEntry fs d p

/-- A failed delete leaves the disk as it was, and a successful one had its entity in the
folder. -/
structure DeleteLaw (fs : Dzfs) (d p : Nat) : Prop where
  failed : (dzfsDelete fs d p).1 ≠ .OK → (dzfsDelete fs d p).2.disk = fs.disk
  listed : (dzfsDelete fs d p).1 = .OK → ListedAt fs d p

/-! ### The last checks -/

theorem unlinkDnode_of_entry (h : HasEntry fs d p) : (unlinkDnode fs d p).1 = .OK := by
  unfold unlinkDnode
  simp only [Dzfs.readBlock]
  rw [if_neg (not_not_intro h.1)]
  cases hrem : folderRemoveContent (fs.disk p) d with
  | none => exact absurd h.2 (folderRemoveContent_eq_none.mp hrem)
  | some block => rfl

theorem unlinkDnode_of_no_entry (h : ¬ HasEntry fs d p) :
    unlinkDnode fs d p = (.ERR_ARGUMENT, fs) := by
  unfold unlinkDnode
  simp only [Dzfs.readBlock]
  by_cases hfolder : entityType (fs.disk p) = DZFS_ENTITY_FOLDER
  · have hno : folderRemoveContent (fs.disk p) d = none :=
      folderRemoveContent_eq_none.mpr fun hentry => h ⟨hfolder, hentry⟩
    rw [if_neg (not_not_intro hfolder), hno]
  · rw [if_pos hfolder]

/-- The law for the last checks on the disk `fs'`, when the call began on the disk `fs`. -/
theorem unlinkDnode_law (fs fs' : Dzfs) (d p : Nat) :
    (((unlinkDnode fs' d p).1 ≠ .OK → (unlinkDnode fs' d p).2.disk = fs.disk) ∧
        ((unlinkDnode fs' d p).1 = .OK → ListedAt fs d p)) ↔
      if HasEntry fs' d p then ListedAt fs d p else fs'.disk = fs.disk := by
  split
  · rename_i hentry
    have hok := unlinkDnode_of_entry hentry
    exact ⟨fun h => h.2 hok, fun h => ⟨fun hne => absurd hok hne, fun _ => h⟩⟩
  · rename_i hentry
    rw [unlinkDnode_of_no_entry hentry]
    exact ⟨fun h => h.1 (by simp), fun h => ⟨fun _ => h, fun hok => by cases hok⟩⟩

/-! ### The branches of `dzfsDelete` -/

/-- The folder `b` has an entry. -/
def HasChild (b : Bytes) : Prop := ∃ i < DZFS_MAX_DIR_CONTENTS, contentDnode b i ≠ 0

theorem isSome_scan_child (b : Bytes) :
    (scan (fun i => contentDnode b i ≠ 0) DZFS_MAX_DIR_CONTENTS 0).isSome ↔ HasChild b := by
  cases hs : scan (fun i => contentDnode b i ≠ 0) DZFS_MAX_DIR_CONTENTS 0 with
  | none =>
    constructor
    · intro h
      cases h
    · rintro ⟨i, hi, hne⟩
      have hzero := scan_eq_none hs i (Nat.zero_le i) (by omega)
      exact absurd hne (of_decide_eq_false hzero)
  | some i =>
    obtain ⟨-, hi, hne, -⟩ := scan_eq_some hs
    exact ⟨fun _ => ⟨i, by omega, of_decide_eq_true hne⟩, fun _ => rfl⟩

theorem dzfsDelete_file (hroot : d ≠ fs.rootDnode)
    (hfile : entityType (fs.disk d) = DZFS_ENTITY_FILE) :
    dzfsDelete fs d p = unlinkDnode ((freedBlocks fs (fs.disk d)).foldl blockFree fs) d p := by
  rw [← freeFileBlocks_eq]
  unfold dzfsDelete
  rw [if_neg hroot]
  exact if_pos hfile

theorem dzfsDelete_empty (hroot : d ≠ fs.rootDnode)
    (hfolder : entityType (fs.disk d) = DZFS_ENTITY_FOLDER) (hempty : ¬ HasChild (fs.disk d)) :
    dzfsDelete fs d p = unlinkDnode fs d p := by
  unfold dzfsDelete
  simp only [Dzfs.readBlock]
  rw [if_neg hroot, if_neg (fun hfile => file_ne_folder hfile hfolder), if_pos hfolder, if_neg]
  rwa [isSome_scan_child]

/-- The calls that `dzfsDelete` refuses before it frees a block. -/
theorem dzfsDelete_refused (h : d = fs.rootDnode ∨
    (entityType (fs.disk d) ≠ DZFS_ENTITY_FILE ∧ entityType (fs.disk d) ≠ DZFS_ENTITY_FOLDER) ∨
    (entityType (fs.disk d) = DZFS_ENTITY_FOLDER ∧ HasChild (fs.disk d))) :
    (dzfsDelete fs d p).1 ≠ .OK ∧ (dzfsDelete fs d p).2 = fs := by
  unfold dzfsDelete
  simp only [Dzfs.readBlock]
  by_cases hroot : d = fs.rootDnode
  · rw [if_pos hroot]
    exact ⟨by simp, rfl⟩
  rw [if_neg hroot]
  rcases h with h | ⟨hfile, hfolder⟩ | ⟨hfolder, hchild⟩
  · exact absurd h hroot
  · rw [if_neg hfile, if_neg hfolder]
    exact ⟨by simp, rfl⟩
  · rw [if_neg (fun hfile => file_ne_folder hfile hfolder), if_pos hfolder,
      if_pos ((isSome_scan_child _).mpr hchild)]
    exact ⟨by simp, rfl⟩

/-- The block `p` lists the file `d`, and still does when the bits of the blocks in `freed`
are set. The bits matter only if `p` is itself a bitmap block. -/
def ListedThroughout (fs : Dzfs) (d p : Nat) (freed : List Nat) : Prop :=
  ListedAt fs d p ∧ HasEntry (freed.foldl blockFree fs) d p

/-- Outside the bitmap, the entry is all that counts. -/
theorem listedThroughout_iff (hp : p < 2 ∨ fs.freeBitmapBlocks + 2 ≤ p)
    (hfreed : ∀ n ∈ freed, n < covered fs) : ListedThroughout fs d p freed ↔ ListedAt fs d p := by
  have hsame := (freeAll_bitsOnly hfreed).disk p hp
  refine ⟨fun h => h.1, fun h => ⟨h, ?_⟩⟩
  rw [HasEntry, hsame]
  exact h.2

/-- When a delete keeps the law: it is refused before it frees a block, the folder lists the
entity, or it fails behind frees that set no bit. -/
def DeleteOk (fs : Dzfs) (d p : Nat) : Prop :=
  d = fs.rootDnode ∨
  (entityType (fs.disk d) ≠ DZFS_ENTITY_FILE ∧ entityType (fs.disk d) ≠ DZFS_ENTITY_FOLDER) ∨
  (entityType (fs.disk d) = DZFS_ENTITY_FOLDER ∧
    (HasChild (fs.disk d) ∨ d ≠ 0 ∨ ¬ HasEntry fs d p)) ∨
  (entityType (fs.disk d) = DZFS_ENTITY_FILE ∧
    (ListedThroughout fs d p (freedBlocks fs (fs.disk d)) ∨
      ((∀ n ∈ freedBlocks fs (fs.disk d), bit fs n = true) ∧ (d ≠ 0 ∨ ¬ HasEntry fs d p))))

/-- The law for a file that `dzfsDelete` does not refuse at once. -/
theorem freed_law_iff :
    (if HasEntry (freed.foldl blockFree fs) d p then ListedAt fs d p
      else (freed.foldl blockFree fs).disk = fs.disk) ↔
      ListedThroughout fs d p freed ∨
        ((∀ n ∈ freed, bit fs n = true) ∧ (d ≠ 0 ∨ ¬ HasEntry fs d p)) := by
  have hdisk := freeAll_eq_self_iff fs freed
  constructor
  · intro h
    split at h
    · rename_i hentry
      exact Or.inl ⟨h, hentry⟩
    · rename_i hno
      refine Or.inr ⟨hdisk.mp h, Or.inr ?_⟩
      rwa [HasEntry, h] at hno
  · rintro (hlisted | ⟨hfree, hno⟩)
    · rw [if_pos hlisted.2]
      exact hlisted.1
    · -- No bit changes, so the last checks see the disk as it was.
      have hsame := hdisk.mpr hfree
      split
      · rename_i hentry
        rw [HasEntry, hsame] at hentry
        rcases hno with hne | hno
        · exact ⟨hne, hentry⟩
        · exact absurd hentry hno
      · exact hsame

/-- The law for an empty folder. -/
theorem empty_law_iff : (if HasEntry fs d p then ListedAt fs d p else fs.disk = fs.disk) ↔
    d ≠ 0 ∨ ¬ HasEntry fs d p := by
  split
  · rename_i hentry
    refine ⟨fun h => Or.inl h.1, fun h => ⟨?_, hentry⟩⟩
    exact h.resolve_right (not_not_intro hentry)
  · rename_i hno
    exact ⟨fun _ => Or.inr hno, fun _ => rfl⟩

/-- A failed delete leaves the disk as it was, and a successful one had its entity in the
folder, if and only if `DeleteOk` holds of the two block numbers. -/
theorem delete_atomic_iff (fs : Dzfs) (d p : Nat) : DeleteLaw fs d p ↔ DeleteOk fs d p := by
  have hlaw : DeleteLaw fs d p ↔
      ((dzfsDelete fs d p).1 ≠ .OK → (dzfsDelete fs d p).2.disk = fs.disk) ∧
        ((dzfsDelete fs d p).1 = .OK → ListedAt fs d p) :=
    ⟨fun h => ⟨h.failed, h.listed⟩, fun h => ⟨h.1, h.2⟩⟩
  -- A call that is refused at once keeps the law.
  have hrefused := @dzfsDelete_refused fs d p
  have hkeeps : (dzfsDelete fs d p).1 ≠ .OK ∧ (dzfsDelete fs d p).2 = fs → DeleteLaw fs d p :=
    fun h => ⟨fun _ => congrArg Dzfs.disk h.2, fun hok => absurd hok h.1⟩
  by_cases hroot : d = fs.rootDnode
  · exact iff_of_true (hkeeps (hrefused (Or.inl hroot))) (Or.inl hroot)
  by_cases hfile : entityType (fs.disk d) = DZFS_ENTITY_FILE
  · have hnot := file_ne_folder hfile
    rw [hlaw, dzfsDelete_file hroot hfile, unlinkDnode_law, freed_law_iff]
    constructor
    · intro h
      exact Or.inr (Or.inr (Or.inr ⟨hfile, h⟩))
    · rintro (h | ⟨h, -⟩ | ⟨h, -⟩ | ⟨-, h⟩)
      · exact absurd h hroot
      · exact absurd hfile h
      · exact absurd h hnot
      · exact h
  by_cases hfolder : entityType (fs.disk d) = DZFS_ENTITY_FOLDER
  · by_cases hchild : HasChild (fs.disk d)
    · exact iff_of_true (hkeeps (hrefused (Or.inr (Or.inr ⟨hfolder, hchild⟩))))
        (Or.inr (Or.inr (Or.inl ⟨hfolder, Or.inl hchild⟩)))
    · rw [hlaw, dzfsDelete_empty hroot hfolder hchild, unlinkDnode_law, empty_law_iff]
      constructor
      · intro h
        exact Or.inr (Or.inr (Or.inl ⟨hfolder, Or.inr h⟩))
      · rintro (h | ⟨-, h⟩ | ⟨-, h⟩ | ⟨h, -⟩)
        · exact absurd h hroot
        · exact absurd hfolder h
        · exact h.resolve_left hchild
        · exact absurd h hfile
  · exact iff_of_true (hkeeps (hrefused (Or.inr (Or.inl ⟨hfile, hfolder⟩))))
      (Or.inr (Or.inl ⟨hfile, hfolder⟩))

end

/-- The file `f` with one block of data. Its dnode is 4, and the block is 5. -/
def oneBlockState : FsState := exec oneFileState (.write 4 [1] 0)

/-- `dzfsDelete` of the file with a parent that is no folder fails, but the block of the file
is free afterwards. -/
theorem failed_delete_frees :
    (Reachable (fun s c => Valid s c ∧ Safe s c) (newState formattedDisk) oneBlockState) ∧
      ¬ DeleteLaw oneBlockState.fs 4 4 := by
  have hrun : OkRun (fun s c => Valid s c ∧ Safe s c) (newState formattedDisk)
      [.openRelative [102] 3 1 0, .write 4 [1] 0] := by decide +kernel
  refine ⟨hrun.reachable .start, fun hlaw => ?_⟩
  have hfailed : (dzfsDelete oneBlockState.fs 4 4).1 ≠ .OK := by decide +kernel
  have hused : bit oneBlockState.fs 5 = false := by decide +kernel
  have hfree : bit (dzfsDelete oneBlockState.fs 4 4).2 5 = true := by decide +kernel
  rw [bit, hlaw.failed hfailed] at hfree
  exact absurd (hused.symm.trans hfree) (by decide)

end DzOS.Proofs.Fs
