import DzOS.Proofs.Fs.InodeTable
import DzOS.Proofs.Fs.Tree

/-!
# `DzOS.Proofs.Fs.OpenInodes`: the inode list agrees with the disk

`OpenInodes` adds the inode list to the tree on the disk: each inode in use is that of an entity,
has its type, and is the only one of the entity. `fs_open` keeps this if it starts at a folder and
a new name fits the header of a block (`OpenInodes.fsOpen`), and so do the functions that work on
an inode. An open does not touch the block of a file (`Tree.openRelative_file`).
-/

set_option autoImplicit false

namespace DzOS.Proofs.Fs

open DzOS.Lib DzOS.Fs

variable {fs' : Dzfs} {offset : Nat} {date : UInt64} {flags : UInt32} {path buffer : List UInt8}
  {relativeTo : Option InodePtr} {t : UInt8}

/-! ### An open on the disk -/

section
variable {fs fs' : Dzfs} {E : Finset Nat} {ls : Nat → List Nat} {path : List UInt8}
  {relativeTo : Nat} {flags : UInt32} {date : UInt64} {out : OpenOut}

section

variable {e : Nat} (h : Tree fs E ls)
  (hrel : relativeTo ∈ E ∧ entityType (fs.disk relativeTo) = DZFS_ENTITY_FOLDER)
  (hname : NewNameFits fs path relativeTo flags)
  (ho : dzfsOpenRelative fs flags date path relativeTo = (out, fs')) (he : e ∈ E)

include h hrel hname ho he

/-- An open keeps the types of the entities. -/
theorem Tree.openRelative_type : entityType (fs'.disk e) = entityType (fs.disk e) := by
  rcases h.openRelative_creation hrel hname ho with
    ⟨rfl, -⟩ | ⟨cur, n, name, -, -, -, -, hc⟩
  · rfl
  · have hen : e ≠ n := fun heq => hc.not_mem (heq ▸ he)
    by_cases hec : e = cur
    · rw [hec, hc.folder]
      exact Bytes.setLE_of_apart (Or.inl (by simp only [contentOffset]; omega))
    · rw [hc.disk e (Or.inr (h.root_le he)) hec hen]

/-- An open does not touch the block of a file. -/
theorem Tree.openRelative_file (hfile : entityType (fs.disk e) = DZFS_ENTITY_FILE) :
    fs'.disk e = fs.disk e := by
  rcases h.openRelative_creation hrel hname ho with
    ⟨rfl, -⟩ | ⟨cur, n, name, -, -, hcur, -, hc⟩
  · rfl
  · have hen : e ≠ n := fun heq => hc.not_mem (heq ▸ he)
    have hec : e ≠ cur := by
      rintro rfl
      exact file_ne_folder hfile hcur.2
    exact hc.disk e (Or.inr (h.root_le he)) hec hen

end

/-- The entities before an open are entities after it. -/
theorem subset_entitiesAfterOpen (E : Finset Nat) (out : OpenOut) :
    E ⊆ entitiesAfterOpen E out := by
  unfold entitiesAfterOpen
  split
  · exact Finset.subset_insert _ _
  · exact Finset.Subset.refl E

end

/-! ### The inode list -/

/-- The inodes in use are those of entities, with their types, and no entity has two. -/
structure OpenInodes (s : FsVars) (E : Finset Nat) (ls : Nat → List Nat) : Prop
    extends Tree s.fs E ls where
  mem : ∀ i, (s.inodes i).type ≠ .EMPTY → (s.inodes i).dnode ∈ E
  type : ∀ i, (s.inodes i).type ≠ .EMPTY →
    inodeType (entityType (s.fs.disk (s.inodes i).dnode)) = some (s.inodes i).type
  inj : ∀ i j, (s.inodes i).type ≠ .EMPTY → (s.inodes j).type ≠ .EMPTY →
    (s.inodes i).dnode = (s.inodes j).dnode → i = j

section
variable {s s' : FsVars} {E E' : Finset Nat} {ls ls' : Nat → List Nat} {i : InodePtr}
  {inode : FsInode}

theorem inodeType_file : inodeType t = some .FILE ↔ t = DZFS_ENTITY_FILE := by
  unfold inodeType
  split
  · simp [*]
  · rename_i h
    split
    · simp [h]
    · simp [h]

theorem inodeType_directory : inodeType t = some .DIRECTORY ↔ t = DZFS_ENTITY_FOLDER := by
  unfold inodeType
  split
  · rename_i h
    simp [h, DZFS_ENTITY_FILE, DZFS_ENTITY_FOLDER]
  · split
    · simp [*]
    · simp [*]

section

variable (h : OpenInodes s E ls)

include h

/-- A change on the disk that keeps the open entities. -/
theorem OpenInodes.setDisk (htree : Tree fs' E' ls')
    (hkeep : ∀ i, (s.inodes i).type ≠ .EMPTY → (s.inodes i).dnode ∈ E' ∧
      entityType (fs'.disk (s.inodes i).dnode) = entityType (s.fs.disk (s.inodes i).dnode)) :
    OpenInodes { s with fs := fs' } E' ls' := by
  refine ⟨htree, fun i hi => (hkeep i hi).1, fun i hi => ?_, h.inj⟩
  show inodeType (entityType (fs'.disk (s.inodes i).dnode)) = _
  rw [(hkeep i hi).2]
  exact h.type i hi

/-- A write to an inode that keeps its type and its dnode. -/
theorem OpenInodes.setInode (htype : inode.type = (s.inodes i).type)
    (hdnode : inode.dnode = (s.inodes i).dnode) : OpenInodes (s.setInode i inode) E ls := by
  have hsame : ∀ j, ((s.setInode i inode).inodes j).type = (s.inodes j).type ∧
      ((s.setInode i inode).inodes j).dnode = (s.inodes j).dnode := by
    intro j
    by_cases hj : j = i
    · rw [hj, setInode_self]
      exact ⟨htype, hdnode⟩
    · rw [setInode_of_ne s hj]
      exact ⟨rfl, rfl⟩
  refine ⟨h.toTree, fun j hj => ?_, fun j hj => ?_, fun j k hj hk heq => ?_⟩
  · rw [(hsame j).1] at hj
    rw [(hsame j).2]
    exact h.mem j hj
  · rw [(hsame j).1] at hj
    rw [(hsame j).1, (hsame j).2]
    exact h.type j hj
  · rw [(hsame j).1] at hj
    rw [(hsame k).1] at hk
    rw [(hsame j).2, (hsame k).2] at heq
    exact h.inj j k hj hk heq

/-- An inode that is given back. -/
theorem OpenInodes.clear (i : InodePtr) : OpenInodes (s.setInode i FsInode.zero) E ls := by
  have hother : ∀ j, ((s.setInode i FsInode.zero).inodes j).type ≠ .EMPTY →
      (s.setInode i FsInode.zero).inodes j = s.inodes j := by
    intro j hj
    refine setInode_of_ne s ?_ _
    rintro rfl
    rw [setInode_self] at hj
    exact hj rfl
  refine ⟨h.toTree, fun j hj => ?_, fun j hj => ?_, fun j k hj hk heq => ?_⟩
  · have heq := hother j hj
    rw [heq] at hj ⊢
    exact h.mem j hj
  · have heq := hother j hj
    rw [heq] at hj ⊢
    exact h.type j hj
  · have hj' := hother j hj
    have hk' := hother k hk
    rw [hj'] at hj heq
    rw [hk'] at hk heq
    exact h.inj j k hj hk heq

/-- An entity that was not open gets an inode. -/
theorem OpenInodes.take (hmem : inode.dnode ∈ E)
    (htype : inodeType (entityType (s.fs.disk inode.dnode)) = some inode.type)
    (habsent : ∀ j, (s.inodes j).type ≠ .EMPTY → (s.inodes j).dnode ≠ inode.dnode) :
    OpenInodes (s.setInode i inode) E ls := by
  refine ⟨h.toTree, fun j hj => ?_, fun j hj => ?_, fun j k hj hk heq => ?_⟩
  · by_cases hji : j = i
    · rw [hji, setInode_self]
      exact hmem
    · rw [setInode_of_ne s hji] at hj ⊢
      exact h.mem j hj
  · by_cases hji : j = i
    · rw [hji, setInode_self]
      exact htype
    · rw [setInode_of_ne s hji] at hj ⊢
      exact h.type j hj
  · by_cases hji : j = i
    · by_cases hki : k = i
      · rw [hji, hki]
      · rw [setInode_of_ne s hki] at hk
        rw [hji, setInode_self, setInode_of_ne s hki] at heq
        exact absurd heq.symm (habsent k hk)
    · rw [setInode_of_ne s hji] at hj
      by_cases hki : k = i
      · rw [hki, setInode_self, setInode_of_ne s hji] at heq
        exact absurd heq (habsent j hj)
      · rw [setInode_of_ne s hki] at hk
        rw [setInode_of_ne s hji, setInode_of_ne s hki] at heq
        exact h.inj j k hj hk heq

theorem OpenInodes.fsDup (i : InodePtr) : OpenInodes (fsDup s i) E ls :=
  h.setInode rfl rfl

theorem OpenInodes.fsClose (i : InodePtr) : OpenInodes (fsClose s i) E ls := by
  unfold Fs.fsClose
  simp only
  split
  · exact h.clear i
  · exact h.setInode rfl rfl

/-- The inode of a folder. -/
theorem OpenInodes.folder (hdir : (s.inodes i).type = .DIRECTORY) :
    (s.inodes i).dnode ∈ E ∧ entityType (s.fs.disk (s.inodes i).dnode) = DZFS_ENTITY_FOLDER := by
  have hused : (s.inodes i).type ≠ .EMPTY := by
    rw [hdir]
    exact nofun
  have htype := h.type i hused
  rw [hdir, inodeType_directory] at htype
  exact ⟨h.mem i hused, htype⟩

/-- The inode of a file. -/
theorem OpenInodes.file (hfile : (s.inodes i).type = .FILE) :
    (s.inodes i).dnode ∈ E ∧ entityType (s.fs.disk (s.inodes i).dnode) = DZFS_ENTITY_FILE := by
  have hused : (s.inodes i).type ≠ .EMPTY := by
    rw [hfile]
    exact nofun
  have htype := h.type i hused
  rw [hfile, inodeType_file] at htype
  exact ⟨h.mem i hused, htype⟩

/-- The folder that a path is relative to. -/
theorem OpenInodes.relative (hdir : ∀ i ∈ relativeTo, (s.inodes i).type = .DIRECTORY) :
    relativeDnode s relativeTo ∈ E ∧
      entityType (s.fs.disk (relativeDnode s relativeTo)) = DZFS_ENTITY_FOLDER := by
  cases relativeTo with
  | none => exact ⟨h.root_mem, h.root_folder⟩
  | some i => exact h.folder (hdir i rfl)

/-- An open on the disk adds the entity that it creates. -/
theorem OpenInodes.openRelative {relativeTo : Nat}
    (hrel : relativeTo ∈ E ∧ entityType (s.fs.disk relativeTo) = DZFS_ENTITY_FOLDER)
    (hname : NewNameFits s.fs path relativeTo flags) {out : OpenOut}
    (ho : dzfsOpenRelative s.fs flags date path relativeTo = (out, fs')) :
    ∃ ls', OpenInodes { s with fs := fs' } (entitiesAfterOpen E out) ls' := by
  obtain ⟨ls', htree⟩ := h.toTree.openRelative hrel hname ho
  refine ⟨ls', h.setDisk htree fun i hi => ?_⟩
  exact ⟨subset_entitiesAfterOpen E out (h.mem i hi),
    h.openRelative_type hrel hname ho (h.mem i hi)⟩

/-- `fs_open` adds the entity that it creates. -/
theorem OpenInodes.fsOpen {r : Option InodePtr}
    (hdir : ∀ i ∈ relativeTo, (s.inodes i).type = .DIRECTORY)
    (hname : NewNameFits s.fs path (relativeDnode s relativeTo) flags)
    (hopen : fsOpen s path relativeTo flags date = .ok (r, s')) :
    ∃ ls', OpenInodes s' (entitiesAfterOpen E
      (dzfsOpenRelative s.fs flags date path (relativeDnode s relativeTo)).1) ls' := by
  rcases ho : dzfsOpenRelative s.fs flags date path (relativeDnode s relativeTo) with ⟨out, fs'⟩
  obtain ⟨ls', hdisk⟩ := h.openRelative (h.relative hdir) hname ho
  refine ⟨ls', ?_⟩
  rcases fsOpen_cases ho hopen with ⟨rfl, rfl⟩ | ⟨d, parent, rfl, hopened⟩
  · exact hdisk
  · have hd : d ∈ entitiesAfterOpen E ⟨.OK, some d, some parent⟩ := Finset.mem_insert_self d E
    cases hopened with
    | shared used dnode => exact hdisk.setInode rfl rfl
    | taken empty absent htype => exact hdisk.take hd htype absent
    | full => exact hdisk

end

/-- The size of an inode after a write that `dzfs_write` carries out. -/
theorem fsWrite_ok (hw : dzfsWrite s.fs (s.inodes i).dnode buffer offset = (.OK, fs')) :
    (fsWrite s i buffer offset).2 = FsVars.setInode { s with fs := fs' } i { s.inodes i with
      size := if (offset + buffer.length) % 2 ^ 64 > (s.inodes i).size then
        (offset + buffer.length) % 2 ^ 32 else (s.inodes i).size } := by
  rw [fsWrite, hw]

/-- A write that fails keeps the inodes. -/
theorem fsWrite_failed (hw : (dzfsWrite s.fs (s.inodes i).dnode buffer offset).1 ≠ .OK) :
    (fsWrite s i buffer offset).2
      = { s with fs := (dzfsWrite s.fs (s.inodes i).dnode buffer offset).2 } := by
  rw [fsWrite]
  split
  · rename_i heq
    rw [heq] at hw
    exact absurd rfl hw
  · rename_i heq
    rw [heq]

/-- A write keeps the inodes in agreement with the disk. -/
theorem OpenInodes.fsWrite (h : OpenInodes s E ls) (hused : (s.inodes i).type ≠ .EMPTY)
    (hlt : buffer.length + offset < 2 ^ 64) : OpenInodes (fsWrite s i buffer offset).2 E ls := by
  have hmem := h.mem i hused
  have hdisk := h.setDisk (h.write hmem hlt) fun j hj =>
    ⟨h.mem j hj, (dzfsWrite_dnode h.toCore hmem hlt (h.mem j hj)).1⟩
  rcases hw : dzfsWrite s.fs (s.inodes i).dnode buffer offset with ⟨r, fs'⟩
  rw [hw] at hdisk
  by_cases hr : r = .OK
  · rw [hr] at hw
    rw [fsWrite_ok hw]
    exact hdisk.setInode rfl rfl
  · rw [fsWrite_failed (by rw [hw]; exact hr), hw]
    exact hdisk

/-- The state before the first open. -/
theorem openInodes_boot {fs : Dzfs} (h : Tree fs E ls) :
    OpenInodes (FsVars.boot fs) E ls :=
  ⟨h, fun _ hi => absurd rfl hi, fun _ hi => absurd rfl hi, fun _ _ hi => absurd rfl hi⟩

end

end DzOS.Proofs.Fs
