import DzOS.Proofs.Fs.OpenInodes
import DzOS.Proofs.Fs.References

/-!
# `DzOS.Proofs.Fs.FileTree`: the processes, the inodes and the tree

`FileTree` puts the invariants together: the directory tree on the disk, the inode list, the
reference counts, and that each live process works in a folder. A call keeps it
(`FileStep.fileTree`) if it meets three conditions:

- `FileCallOk`: no process exits, and a new name fits the header of a block;
- `ChdirOk`: a change of the working directory does not lead to a file;
- `UnlinkOk`: an entity that is deleted is not open.

An inode that is in use before and after a call is that of the same entity (`FileStep.keeps`).
The entities are those that the folders lead to (`InTree`).
-/

set_option autoImplicit false

namespace DzOS.Proofs.Fs

open DzOS.Lib DzOS.Fs DzOS.Sched

variable {vars : FsVars} {path : List UInt8} {date : UInt64} {E' : Finset Nat} {flags : UInt32}
  {ls' : Nat → List Nat} {relativeTo : Option InodePtr}

/-! ### Paths -/

section
variable {fs fs' : Dzfs} {E : Finset Nat} {ls : Nat → List Nat} {path : List UInt8}
  {relativeTo : Nat} {flags : UInt32} {date : UInt64} {out : OpenOut} {d f : Nat}

/-- The folder where a path ends is a folder of the tree. -/
theorem Tree.pathEnd_folder (h : Tree fs E ls)
    (hrel : relativeTo ∈ E ∧ entityType (fs.disk relativeTo) = DZFS_ENTITY_FOLDER) {cur : Nat}
    (hend : (pathEnd fs path relativeTo).folder = some cur) :
    cur ∈ E ∧ entityType (fs.disk cur) = DZFS_ENTITY_FOLDER := by
  refine h.toInv.pathEnd_folder hrel ?_ hend
  exact upFolders_of_goUp (P := fun f => f ∈ E ∧ entityType (fs.disk f) = DZFS_ENTITY_FOLDER)
    (fun f hf => h.goUp_folder hf) ⟨h.root_mem, h.root_folder⟩ hrel

/-- A folder is listed in its parent. -/
theorem Tree.listed_in_parent (h : Tree fs E ls) (hf : f ∈ E)
    (hfolder : entityType (fs.disk f) = DZFS_ENTITY_FOLDER) (hroot : f ≠ fs.rootDnode) :
    f ∈ ls (folderParent (fs.disk f)) := by
  rcases (h.under f hf).cases_child with heq | ⟨g, -, hg⟩
  · exact absurd heq hroot
  · rw [h.parent g f hg hfolder]
    exact hg

/-- A path of slashes starts at the root folder. -/
theorem openStart_root (hpath : path ≠ []) (hslashes : (openStart fs path relativeTo).2 = []) :
    (openStart fs path relativeTo).1 = fs.rootDnode := by
  induction path generalizing relativeTo with
  | nil => exact absurd rfl hpath
  | cons c rest ih =>
    by_cases hc : c = SLASH
    · rw [hc, openStart_slash] at hslashes ⊢
      cases rest with
      | nil => rfl
      | cons c' rest => exact ih (List.cons_ne_nil _ _) hslashes
    · rw [openStart_of_ne fs hc] at hslashes
      cases hslashes

/-- An open without `DZFS_O_CREATE` finds the entity where the path ends, in its folder. -/
theorem Tree.open_plain (h : Tree fs E ls)
    (hrel : relativeTo ∈ E ∧ entityType (fs.disk relativeTo) = DZFS_ENTITY_FOLDER)
    (hflags : flags &&& DZFS_O_CREATE = 0)
    (ho : dzfsOpenRelative fs flags date path relativeTo = (out, fs')) :
    fs' = fs ∧ ((pathEnd fs path relativeTo).entity = none ∧ out.result ≠ .OK ∨
      ∃ d parent, (pathEnd fs path relativeTo).entity = some d ∧
        out = ⟨.OK, some d, some parent⟩ ∧ d ∈ E ∧
        (d = fs.rootDnode ∨ InFolder fs E ls d parent)) := by
  have hfolder : ∀ cur, (pathEnd fs path relativeTo).folder = some cur →
      cur ∈ E ∧ entityType (fs.disk cur) = DZFS_ENTITY_FOLDER :=
    fun cur hend => h.pathEnd_folder hrel hend
  rw [dzfsOpenRelative_eq (h.ne_zero h.root_mem) flags date path (h.ne_zero hrel.1)] at ho
  split at ho
  · rename_i hslashes
    cases ho
    have hend : pathEnd fs path relativeTo = .self fs.rootDnode := by
      rw [pathEnd, openStart_root hslashes.1 hslashes.2, hslashes.2]
      rfl
    rw [hend]
    exact ⟨rfl, Or.inr ⟨_, _, rfl, rfl, h.root_mem, Or.inl rfl⟩⟩
  · cases hend : pathEnd fs path relativeTo with
    | self folder =>
      rw [hend] at ho hfolder
      cases ho
      obtain ⟨hmem, htype⟩ := hfolder folder rfl
      refine ⟨rfl, Or.inr ⟨_, _, rfl, rfl, hmem, ?_⟩⟩
      by_cases hroot : folder = fs.rootDnode
      · exact Or.inl hroot
      · have hlisted := h.listed_in_parent hmem htype hroot
        obtain ⟨hparent, hparentType⟩ := h.folder_of_listed hlisted
        exact Or.inr ⟨hparent, hparentType, hlisted⟩
    | found folder n =>
      rw [hend] at ho hfolder
      cases ho
      obtain ⟨hmem, htype⟩ := hfolder folder rfl
      obtain ⟨hne, name, hname⟩ := resolve_found (show resolve fs _ _ = _ from hend)
      have hlisted : n ∈ ls folder := by
        rw [hname] at hne ⊢
        exact (h.lists folder hmem htype).lookup_mem hne
      exact ⟨rfl, Or.inr ⟨_, _, rfl, rfl, (h.entity_of_listed hlisted).1,
        Or.inr ⟨hmem, htype, hlisted⟩⟩⟩
    | missing folder name =>
      rw [hend, openAt, if_neg (by simp [hflags])] at ho
      cases ho
      exact ⟨rfl, Or.inl ⟨rfl, fun hok => by cases hok⟩⟩
    | nowhere =>
      rw [hend] at ho
      cases ho
      exact ⟨rfl, Or.inl ⟨rfl, fun hok => by cases hok⟩⟩

/-- An open without `DZFS_O_CREATE` creates nothing. -/
theorem newNameFits_plain (hflags : flags &&& DZFS_O_CREATE = 0) :
    NewNameFits fs path relativeTo flags := by
  intro name hname
  obtain ⟨cur, -, hcreate, -⟩ := createdName_eq_some hname
  exact absurd hflags hcreate

/-! ### The entities -/

/-- An entity of the disk: the folders lead to it from the root folder. -/
def InTree (fs : Dzfs) (n : Nat) : Prop :=
  Relation.ReflTransGen (fun f m => entityType (fs.disk f) = DZFS_ENTITY_FOLDER ∧ m ≠ 0 ∧
    ∃ i < DZFS_MAX_DIR_CONTENTS, contentDnode (fs.disk f) i = m) fs.rootDnode n

theorem Tree.inTree_iff (h : Tree fs E ls) {n : Nat} : InTree fs n ↔ n ∈ E := by
  constructor
  · intro hn
    induction hn with
    | refl => exact h.root_mem
    | tail _ hstep ih =>
      obtain ⟨hfolder, hne, hentry⟩ := hstep
      have hlisted := ((h.lists _ ih hfolder).mem_iff hne).mp hentry
      exact (h.entity_of_listed hlisted).1
  · intro hn
    refine Relation.ReflTransGen.mono (fun f m hm => ?_) _ _ (h.under n hn)
    obtain ⟨hf, hfolder⟩ := h.folder_of_listed hm
    have hne := h.ne_zero (h.entity_of_listed hm).1
    exact ⟨hfolder, hne, ((h.lists f hf hfolder).mem_iff hne).mpr hm⟩

/-! ### Deleting -/

/-- `dzfs_delete` accepts the entity: it is a file, or an empty folder other than the root. -/
def Deletable (fs : Dzfs) (d : Nat) : Prop :=
  d ≠ fs.rootDnode ∧ (entityType (fs.disk d) = DZFS_ENTITY_FILE ∨
    entityType (fs.disk d) = DZFS_ENTITY_FOLDER ∧ ¬ HasChild (fs.disk d))

instance (fs : Dzfs) (d : Nat) : Decidable (Deletable fs d) :=
  inferInstanceAs (Decidable (_ ∧ (_ ∨ _ ∧ ¬ ∃ i < DZFS_MAX_DIR_CONTENTS, _)))

/-- `dzfs_delete` of an entity in its folder. -/
theorem dzfsDelete_ok_iff (h : Inv fs E ls) (hf : InFolder fs E ls d f) :
    (dzfsDelete fs d f).1 = .OK ↔ Deletable fs d := by
  obtain ⟨hd, hroot⟩ := h.entity_of_listed hf.listed
  constructor
  · intro hok
    refine ⟨hroot, ?_⟩
    rcases h.typed d hd with hfile | hfolder
    · exact Or.inl hfile
    · refine Or.inr ⟨hfolder, fun hchild => ?_⟩
      exact (dzfsDelete_refused (Or.inr (Or.inr ⟨hfolder, hchild⟩))).1 hok
  · rintro ⟨-, hfile | ⟨hfolder, hempty⟩⟩
    · obtain ⟨fs'', hun, -⟩ := unlinkDnode_unlinked h hf
        (h.unlisted d (Or.inr (file_ne_folder hfile))) fun n hn => by
          obtain ⟨p, hp, -, -, hpn⟩ := holds_of_freed hd hfile hn
          exact ⟨p, hp, hpn⟩
      rw [dzfsDelete_file hroot hfile, hun]
    · have hls : ls d = [] := by
        refine (h.lists d hd hfolder).eq_nil ?_
        rw [← Option.not_isSome_iff_eq_none, isSome_scan_child]
        exact hempty
      have hnone : ∀ n ∈ [], ∃ p : Place, p.entity = d ∧ Holds fs.disk E p n :=
        fun n hn => absurd hn List.not_mem_nil
      obtain ⟨fs'', hun, -⟩ := unlinkDnode_unlinked h hf hls hnone
      rw [dzfsDelete_empty hroot hfolder hempty]
      exact congrArg Prod.fst hun

end

section

variable {s : FsVars} {E : Finset Nat} {ls : Nat → List Nat} {i : InodePtr} (h : OpenInodes s E ls)
  (hdir : (s.inodes i).type = .DIRECTORY) (date : UInt64)

include h hdir

/-- `fs_delete` of an entity that is not open, or that is not deleted. -/
theorem OpenInodes.fsDelete
    (hclosed : ∀ d ∈ (pathEnd s.fs path (s.inodes i).dnode).entity, Deletable s.fs d →
      ∀ j, (s.inodes j).type ≠ .EMPTY → (s.inodes j).dnode ≠ d) :
    ∃ E' ls', OpenInodes (fsDelete s path i date).2 E' ls' := by
  rcases ho : dzfsOpenRelative s.fs 0 date path (s.inodes i).dnode with ⟨out, fs'⟩
  obtain ⟨rfl, hentity⟩ := h.open_plain (h.folder hdir) (by decide) ho
  rcases fsDelete_snd s path i date with heq | ⟨d, parent, hout, heq⟩
  · rw [heq, ho]
    exact ⟨E, ls, h⟩
  rw [ho] at hout heq
  change out = _ at hout
  rcases hentity with ⟨-, hfail⟩ | ⟨d', parent', hd, hout', -, hplace⟩
  · rw [hout] at hfail
    exact absurd rfl hfail
  rw [hout] at hout'
  cases hout'
  rw [heq]
  rcases hdel : dzfsDelete s.fs d parent with ⟨r, fs'⟩
  rcases hplace with hroot | hf
  · have hrefused := (dzfsDelete_refused (p := parent) (Or.inl hroot)).2
    rw [hdel] at hrefused
    obtain rfl : fs' = s.fs := hrefused
    exact ⟨E, ls, h⟩
  rcases dzfsDelete_unlinked h.toInv hf hdel with ⟨rfl, -⟩ | ⟨rfl, hu⟩
  · exact ⟨E, ls, h⟩
  · obtain ⟨l, hperm, hinv⟩ := hu.inv
    have hdeletable : Deletable s.fs d := (dzfsDelete_ok_iff h.toInv hf).mp (by rw [hdel])
    refine ⟨_, _, h.setDisk (h.delete hf hu hperm hinv) fun j hj => ?_⟩
    refine ⟨Finset.mem_erase.mpr ⟨hclosed d hd hdeletable j hj, h.mem j hj⟩, ?_⟩
    by_cases hparent : (s.inodes j).dnode = parent
    · rw [hparent]
      exact hu.type.trans hf.folder.symm
    · rw [hu.disk _ (Or.inr (h.root_le (h.mem j hj))) hparent]

/-- `fs_delete` of an entity that `dzfs_delete` accepts frees its block and keeps the inodes. -/
theorem OpenInodes.fsDelete_frees {d : Nat} (hd : d ∈ (pathEnd s.fs path (s.inodes i).dnode).entity)
    (hdeletable : Deletable s.fs d) :
    bit (Fs.fsDelete s path i date).2.fs d = true ∧
      (Fs.fsDelete s path i date).2.inodes = s.inodes := by
  rcases ho : dzfsOpenRelative s.fs 0 date path (s.inodes i).dnode with ⟨out, fs'⟩
  obtain ⟨rfl, ⟨hnone, -⟩ | ⟨d', parent, hd', rfl, hmem, hplace⟩⟩ :=
    h.open_plain (h.folder hdir) (by decide) ho
  · rw [hnone] at hd
    cases hd
  obtain rfl : d = d' := Option.some.inj (hd.symm.trans hd')
  have hf := hplace.resolve_left hdeletable.1
  have hok := (dzfsDelete_ok_iff h.toInv hf).mpr hdeletable
  rcases hdel : dzfsDelete s.fs d parent with ⟨r, fs'⟩
  rw [hdel] at hok
  obtain rfl : r = .OK := hok
  have hu := ((dzfsDelete_unlinked h.toInv hf hdel).resolve_left fun hno => hno.2 rfl).2
  have hrun : (Fs.fsDelete s path i date).2 = { s with fs := fs' } := by
    rw [Fs.fsDelete, ho]
    simp only [hdel]
  rw [hrun]
  refine ⟨?_, rfl⟩
  show bit fs' d = true
  rw [hu.bits d (h.mem_used hmem).2.1]
  simp

end

/-! ### Inodes in use -/

/-- The inodes in use stay those of their entities. -/
def Stays (s s' : FsVars) : Prop :=
  ∀ i, (s.inodes i).type ≠ .EMPTY →
    (s'.inodes i).type = (s.inodes i).type ∧ (s'.inodes i).dnode = (s.inodes i).dnode

/-- An inode that is in use before and after is that of the same entity. -/
def Keeps (s s' : FsVars) : Prop :=
  ∀ i, (s.inodes i).type ≠ .EMPTY → (s'.inodes i).type ≠ .EMPTY →
    (s'.inodes i).type = (s.inodes i).type ∧ (s'.inodes i).dnode = (s.inodes i).dnode

section
variable {s s' s'' : FsVars} {i : InodePtr}

theorem Stays.refl (s : FsVars) : Stays s s := fun _ _ => ⟨rfl, rfl⟩

theorem Stays.trans (h : Stays s s') (h' : Stays s' s'') : Stays s s'' := by
  intro i hi
  obtain ⟨htype, hdnode⟩ := h i hi
  obtain ⟨htype', hdnode'⟩ := h' i (by rw [htype]; exact hi)
  exact ⟨htype'.trans htype, hdnode'.trans hdnode⟩

theorem Stays.keeps (h : Stays s s') : Keeps s s' := fun i hi _ => h i hi

theorem Stays.trans_keeps (h : Stays s s') (h' : Keeps s' s'') : Keeps s s'' := by
  intro i hi hi'
  obtain ⟨htype, hdnode⟩ := h i hi
  obtain ⟨htype', hdnode'⟩ := h' i (by rw [htype]; exact hi) hi'
  exact ⟨htype'.trans htype, hdnode'.trans hdnode⟩

/-- A write to an inode that is empty, or that keeps its type and its dnode. -/
theorem Stays.setInode {inode : FsInode} (hinode : (s.inodes i).type = .EMPTY ∨
    inode.type = (s.inodes i).type ∧ inode.dnode = (s.inodes i).dnode) :
    Stays s (s.setInode i inode) := by
  intro j hj
  by_cases hji : j = i
  · rw [hji] at hj ⊢
    rw [setInode_self]
    exact hinode.resolve_left hj
  · rw [setInode_of_ne s hji]
    exact ⟨rfl, rfl⟩

theorem stays_fsOpen {r : Option InodePtr} (h : fsOpen s path relativeTo flags date = .ok (r, s')) :
    Stays s s' := by
  rcases fsOpen_cases rfl h with ⟨-, rfl⟩ | ⟨d, parent, -, hopened⟩
  · exact Stays.refl s
  · cases hopened with
    | shared used dnode =>
      exact Stays.trans (Stays.refl s) (Stays.setInode (Or.inr ⟨rfl, rfl⟩))
    | taken empty absent htype => exact Stays.trans (Stays.refl s) (Stays.setInode (Or.inl empty))
    | full => exact Stays.refl s

theorem stays_fsDup (s : FsVars) (i : InodePtr) : Stays s (fsDup s i) :=
  Stays.setInode (Or.inr ⟨rfl, rfl⟩)

theorem stays_fsWrite (s : FsVars) (i : InodePtr) (buffer : List UInt8) (offset : Nat) :
    Stays s (fsWrite s i buffer offset).2 := by
  obtain ⟨size, heq⟩ := fsWrite_snd s i buffer offset
  rw [heq]
  exact Stays.trans (Stays.refl s) (Stays.setInode (Or.inr ⟨rfl, rfl⟩))

/-- The inodes that are left in use are as they were. -/
def Releases (s s' : FsVars) : Prop :=
  ∀ i, (s'.inodes i).type ≠ .EMPTY →
    (s'.inodes i).type = (s.inodes i).type ∧ (s'.inodes i).dnode = (s.inodes i).dnode

theorem Releases.keeps (h : Releases s s') : Keeps s s' := fun i _ hi => h i hi

theorem releases_fsClose (s : FsVars) (i : InodePtr) : Releases s (fsClose s i) := by
  intro j hj
  unfold Fs.fsClose at hj ⊢
  simp only at hj ⊢
  by_cases hji : j = i
  · split at hj
    · rw [hji, setInode_self] at hj
      exact absurd rfl hj
    · rename_i hne
      rw [if_neg hne, hji, setInode_self]
      exact ⟨rfl, rfl⟩
  · split
    · rw [setInode_of_ne s hji]
      exact ⟨rfl, rfl⟩
    · rw [setInode_of_ne s hji]
      exact ⟨rfl, rfl⟩

theorem keeps_fsClose (s : FsVars) (i : InodePtr) : Keeps s (fsClose s i) :=
  (releases_fsClose s i).keeps

/-- The exit of a process closes its files one after the other. -/
theorem releases_closeFiles (proc : FileProc) (fds : List (Fin MAX_OPEN_FILES)) (s : FsVars) :
    Releases s (closeFiles proc fds s) := by
  induction fds generalizing s with
  | nil => exact fun _ _ => ⟨rfl, rfl⟩
  | cons fd fds ih =>
    rw [Fs.closeFiles]
    split
    · rename_i i hkind
      intro j hj
      obtain ⟨htype, hdnode⟩ := ih (fsClose s i) j hj
      obtain ⟨htype', hdnode'⟩ := releases_fsClose s i j (by rw [← htype]; exact hj)
      exact ⟨htype.trans htype', hdnode.trans hdnode'⟩
    · exact ih s

/-- An open that is followed by the close of its inode. -/
theorem stays_openClose (hempty : ∀ i, (s.inodes i).type = .EMPTY ↔ (s.inodes i).referenceCount = 0)
    (h : fsOpen s path relativeTo flags date = .ok (some i, s')) : Stays s (fsClose s' i) := by
  have hopen := stays_fsOpen h
  intro j hj
  obtain ⟨htype, hdnode⟩ := hopen j hj
  by_cases hji : j = i
  · -- The inode was in use already, so it has another user.
    have hcount : (s'.inodes i).referenceCount - 1 = (s.inodes i).referenceCount := by
      rcases fsOpen_cases rfl h with ⟨hnone, -⟩ | ⟨d, parent, -, hopened⟩
      · cases hnone
      · cases hopened with
        | shared used dnode =>
          rw [setInode_self]
          exact add_sub_cancel_right _ _
        | taken empty => exact absurd empty (hji ▸ hj)
    have hne : (s'.inodes i).referenceCount - 1 ≠ 0 := by
      rw [hcount]
      exact fun hzero => hj (hji ▸ (hempty i).mpr hzero)
    rw [hji] at htype hdnode ⊢
    rw [Fs.fsClose, if_neg hne, setInode_self]
    exact ⟨htype, hdnode⟩
  · rw [Fs.fsClose]
    split
    · rw [setInode_of_ne s' hji]
      exact ⟨htype, hdnode⟩
    · rw [setInode_of_ne s' hji]
      exact ⟨htype, hdnode⟩

/-- The inode that `fs_open` returns. -/
theorem fsOpen_inode (h : fsOpen s path relativeTo flags date = .ok (some i, s')) :
    ∃ d parent, (dzfsOpenRelative s.fs flags date path (relativeDnode s relativeTo)).1
        = ⟨.OK, some d, some parent⟩ ∧ (s'.inodes i).type ≠ .EMPTY ∧ (s'.inodes i).dnode = d ∧
      ((s.inodes i).type = .EMPTY ∨ (s.inodes i).dnode = d) := by
  rcases fsOpen_cases rfl h with ⟨hnone, -⟩ | ⟨d, parent, hout, hopened⟩
  · cases hnone
  · refine ⟨d, parent, hout, ?_⟩
    cases hopened with
    | shared used dnode =>
      rw [setInode_self]
      exact ⟨used, dnode, Or.inr dnode⟩
    | taken empty absent htype =>
      rw [setInode_self]
      exact ⟨inodeType_ne_empty htype, rfl, Or.inl empty⟩

end

/-! ### The system -/

/-- The tree, the inodes and the reference counts agree, and a live process works in a folder. -/
structure FileTree (s : FileState) (E : Finset Nat) (ls : Nat → List Nat) : Prop
    extends OpenInodes s.vars E ls, Exact s where
  wd : ∀ p ∈ s.live, (s.vars.inodes (s.wd p)).type = .DIRECTORY

/-- The same for a run with exits, where the references in `lost` are left. -/
structure FileWorld (s : FileState) (lost : List InodePtr) (E : Finset Nat) (ls : Nat → List Nat) :
    Prop extends OpenInodes s.vars E ls, Leaky s lost where
  wd : ∀ p ∈ s.live, (s.vars.inodes (s.wd p)).type = .DIRECTORY

/-- `proc_exit`. -/
def isExit : FileCall → Bool
  | .exit _ => true
  | _ => false

/-- The data of a write. -/
def writtenData : FileCall → List UInt8
  | .write _ _ buffer _ => buffer
  | _ => []

/-- No process exits, a new name fits the header of a block, and the data of a write is in
memory. -/
def FileCallOk (s : FileState) (c : FileCall) : Prop :=
  (∀ o ∈ openCall s c, NewNameFits s.vars.fs o.1 o.2.1 o.2.2) ∧ isExit c = false ∧
    (writtenData c).length < 2 ^ 63

instance (s : FileState) (c : FileCall) : Decidable (FileCallOk s c) :=
  inferInstanceAs (Decidable (_ ∧ _ ∧ _))

/-- `fs_open` has an inode for the entity: its own, or an empty one. -/
def Openable (s : FsVars) (d : Nat) : Prop :=
  ∃ i, (s.inodes i).type = .EMPTY ∨ (s.inodes i).dnode = d

instance (s : FsVars) (d : Nat) : Decidable (Openable s d) :=
  inferInstanceAs (Decidable (∃ i : InodePtr, (s.inodes i).type = .EMPTY ∨ (s.inodes i).dnode = d))

/-- The entity that `chdir` opens. -/
def chdirEntity (s : FileState) : FileCall → Option Nat
  | .chdir p path _ => (pathEnd s.vars.fs path (s.vars.inodes (s.wd p)).dnode).entity
  | _ => none

/-- `chdir` does not open a file. -/
def ChdirOk (s : FileState) (c : FileCall) : Prop :=
  ∀ d ∈ chdirEntity s c, entityType (s.vars.fs.disk d) = DZFS_ENTITY_FILE →
    ¬ Openable s.vars d

instance (s : FileState) (c : FileCall) : Decidable (ChdirOk s c) :=
  inferInstanceAs (Decidable (∀ d ∈ chdirEntity s c, _))

/-- The entity that `unlink` finds. -/
def unlinkEntity (s : FileState) : FileCall → Option Nat
  | .unlink p path _ => (pathEnd s.vars.fs path (s.vars.inodes (s.wd p)).dnode).entity
  | _ => none

/-- `unlink` does not delete an entity that is open. -/
def UnlinkOk (s : FileState) (c : FileCall) : Prop :=
  ∀ d ∈ unlinkEntity s c, Deletable s.vars.fs d →
    ∀ i, (s.vars.inodes i).type ≠ .EMPTY → (s.vars.inodes i).dnode ≠ d

instance (s : FileState) (c : FileCall) : Decidable (UnlinkOk s c) :=
  inferInstanceAs (Decidable (∀ d ∈ unlinkEntity s c, _))

section
variable {s s' : FileState} {c : FileCall} {E : Finset Nat} {ls : Nat → List Nat} {p : ProcPtr}
  {i : InodePtr} {lost : List InodePtr}

theorem FileTree.world (h : FileTree s E ls) : FileWorld s [] E ls :=
  ⟨h.toOpenInodes, h.toExact.leaky, h.wd⟩

/-- The inode of a slot of a live process is in use. -/
theorem Leaky.used (h : Leaky s lost) {o : Option (Fin MAX_OPEN_FILES)} (hlive : p ∈ s.live)
    (href : slotInode s.procs (p, o) = some i) : (s.vars.inodes i).type ≠ .EMPTY := by
  intro hempty
  have hpos : 0 < refs (liveSlots s.live) (slotInode s.procs) i :=
    refs_pos (mem_liveSlots.mpr hlive) href
  have hcount := h.counts.counted i
  rw [refCounts, (h.counts.empty i).mp hempty] at hcount
  change 0 = _ at hcount
  omega

/-- What a call does to the inodes in use. -/
theorem FileStep.keeps_inodes (h : FileStep s c s') (hs : Leaky s lost) :
    Keeps s.vars s'.vars := by
  have hempty := hs.counts.empty
  cases h with
  | idle => exact (Stays.refl _).keeps
  | execFailed _ hopen => exact (stays_fsOpen hopen).keeps
  | execRejected _ hopen => exact (stays_openClose hempty hopen).keeps
  | execChild _ _ _ hopen =>
    exact ((stays_openClose hempty hopen).trans (stays_fsDup _ _)).keeps
  | execFirst _ _ hopen hroot =>
    exact ((stays_openClose hempty hopen).trans (stays_fsOpen hroot)).keeps
  | @exit p hlive => exact (releases_closeFiles (s.procs p) _ _).keeps
  | openFailed _ _ hopen => exact (stays_fsOpen hopen).keeps
  | opened _ _ _ _ hopen => exact (stays_fsOpen hopen).keeps
  | openedDevice => exact (Stays.refl _).keeps
  | closed => exact keeps_fsClose _ _
  | chdirFailed _ hopen => exact (stays_fsOpen hopen).keeps
  | chdir _ hopen => exact (stays_fsOpen hopen).trans_keeps (keeps_fsClose _ _)
  | mkdir => exact Stays.keeps fun i hi => ⟨rfl, rfl⟩
  | @unlink p path date hlive =>
    rcases fsDelete_snd s.vars path (s.wd p) date with heq | ⟨d, parent, -, heq⟩
    · rw [heq]
      exact Stays.keeps fun _ _ => ⟨rfl, rfl⟩
    · rw [heq]
      exact Stays.keeps fun _ _ => ⟨rfl, rfl⟩
  | written => exact (stays_fsWrite _ _ _ _).keeps
  | read => exact (Stays.refl _).keeps

theorem FileStep.keeps (h : FileStep s c s') (_ : ∀ p, c ≠ .exit p) (hs : Exact s) :
    Keeps s.vars s'.vars := h.keeps_inodes hs.leaky

/-- The inode of a folder is a directory. -/
theorem OpenInodes.directory {s : FsVars} (h : OpenInodes s E ls)
    (hused : (s.inodes i).type ≠ .EMPTY)
    (hfolder : entityType (s.fs.disk (s.inodes i).dnode) = DZFS_ENTITY_FOLDER) :
    (s.inodes i).type = .DIRECTORY :=
  (Option.some.inj ((inodeType_directory.mpr hfolder).symm.trans (h.type i hused))).symm

/-- The exit of a process keeps the inodes. -/
theorem OpenInodes.closeFiles (h : OpenInodes vars E ls) (proc : FileProc)
    (fds : List (Fin MAX_OPEN_FILES)) : OpenInodes (closeFiles proc fds vars) E ls := by
  induction fds generalizing vars with
  | nil => exact h
  | cons fd fds ih =>
    rw [Fs.closeFiles]
    split
    · exact ih (h.fsClose _)
    · exact ih h

/-- The disk and the inodes after a call. -/
theorem FileStep.world_openInodes (h : FileStep s c s') (hs : FileWorld s lost E ls)
    (hname : ∀ o ∈ openCall s c, NewNameFits s.vars.fs o.1 o.2.1 o.2.2)
    (hdata : (writtenData c).length < 2 ^ 63) (hunlink : UnlinkOk s c) :
    ∃ E' ls', OpenInodes s'.vars E' ls' := by
  have hwd : ∀ p ∈ s.live, ∀ i ∈ some (s.wd p), (s.vars.inodes i).type = .DIRECTORY := by
    intro p hp i hi
    rw [← Option.some.inj hi]
    exact hs.wd p hp
  have hparent : ∀ parent : Option ProcPtr, (∀ p ∈ parent, p ∈ s.live) →
      ∀ i ∈ parent.map s.wd, (s.vars.inodes i).type = .DIRECTORY := by
    intro parent hlive i hi
    cases parent with
    | none => cases hi
    | some p => exact hwd p (hlive p rfl) i hi
  have hplain : ∀ {fs : Dzfs} {path : List UInt8} {d : Nat}, NewNameFits fs path d 0 :=
    newNameFits_plain (by decide)
  have hdir : ∀ {fs : Dzfs} {path : List UInt8} {d : Nat}, NewNameFits fs path d DZFS_O_DIR :=
    newNameFits_plain (by decide)
  cases h with
  | idle => exact ⟨E, ls, hs.toOpenInodes⟩
  | @execFailed parent _ _ _ _ _ _ hlive hopen =>
    obtain ⟨ls', h'⟩ := hs.toOpenInodes.fsOpen (hparent parent hlive) hplain hopen
    exact ⟨_, ls', h'⟩
  | @execRejected parent _ _ _ _ _ i hlive hopen =>
    obtain ⟨ls', h'⟩ := hs.toOpenInodes.fsOpen (hparent parent hlive) hplain hopen
    exact ⟨_, ls', h'.fsClose i⟩
  | @execChild p _ _ _ _ _ i hlive _ _ hopen =>
    obtain ⟨ls', h'⟩ := hs.toOpenInodes.fsOpen (hwd p hlive) hplain hopen
    exact ⟨_, ls', (h'.fsClose i).fsDup (s.wd p)⟩
  | @execFirst _ _ _ _ vars _ i j _ _ hopen hroot =>
    obtain ⟨ls', h'⟩ := hs.toOpenInodes.fsOpen (hparent none fun _ hp => nomatch hp) hplain hopen
    have hnone : ∀ k ∈ (none : Option InodePtr), ((fsClose vars i).inodes k).type = .DIRECTORY := by
      intro k hk
      cases hk
    obtain ⟨ls'', h''⟩ := (h'.fsClose i).fsOpen hnone hdir hroot
    exact ⟨_, ls'', h''⟩
  | exit => exact ⟨E, ls, hs.toOpenInodes.closeFiles _ _⟩
  | @openFailed p path flags _ _ hlive htried hopen =>
    have hfits := hname (path, (s.vars.inodes (s.wd p)).dnode, fsFlags flags)
      (by rw [openCall, if_neg htried]; rfl)
    obtain ⟨ls', h'⟩ := hs.toOpenInodes.fsOpen (hwd p hlive) hfits hopen
    exact ⟨_, ls', h'⟩
  | @opened p path flags _ _ _ _ _ hlive htried _ _ hopen =>
    have hfits := hname (path, (s.vars.inodes (s.wd p)).dnode, fsFlags flags)
      (by rw [openCall, if_neg htried]; rfl)
    obtain ⟨ls', h'⟩ := hs.toOpenInodes.fsOpen (hwd p hlive) hfits hopen
    exact ⟨_, ls', h'⟩
  | openedDevice => exact ⟨E, ls, hs.toOpenInodes⟩
  | @closed _ _ _ i => exact ⟨E, ls, hs.toOpenInodes.fsClose i⟩
  | @chdirFailed p _ _ _ hlive hopen =>
    obtain ⟨ls', h'⟩ := hs.toOpenInodes.fsOpen (hwd p hlive) hdir hopen
    exact ⟨_, ls', h'⟩
  | @chdir p _ _ _ _ hlive hopen =>
    obtain ⟨ls', h'⟩ := hs.toOpenInodes.fsOpen (hwd p hlive) hdir hopen
    exact ⟨_, ls', h'.fsClose (s.wd p)⟩
  | @mkdir p path date hlive =>
    have hfits := hname (path, (s.vars.inodes (s.wd p)).dnode, _) rfl
    obtain ⟨ls', h'⟩ := hs.toOpenInodes.openRelative (hs.folder (hs.wd p hlive)) hfits
      (Prod.mk.eta
        (p := dzfsOpenRelative s.vars.fs (DZFS_O_CREATE ||| DZFS_O_DIR) date path _)).symm
    exact ⟨_, ls', h'⟩
  | @unlink p path date hlive => exact hs.toOpenInodes.fsDelete (hs.wd p hlive) date hunlink
  | @written p _ buffer _ fd _ i offset hlive hkind hoffset =>
    have hused := hs.toLeaky.used (o := some fd) hlive (fileInode_of_kind hkind)
    refine ⟨E, ls, hs.toOpenInodes.fsWrite hused ?_⟩
    change buffer.length < 2 ^ 63 at hdata
    omega
  | read => exact ⟨E, ls, hs.toOpenInodes⟩

theorem FileStep.openInodes (h : FileStep s c s') (hs : FileTree s E ls) (hc : FileCallOk s c)
    (hunlink : UnlinkOk s c) : ∃ E' ls', OpenInodes s'.vars E' ls' :=
  h.world_openInodes hs.world hc.1 hc.2.2 hunlink

/-- A call that writes to a descriptor keeps the working directories. -/
theorem afterCall_wd (vars : FsVars) (q : ProcPtr) (fd : Fin MAX_OPEN_FILES) (file : ProcessFile)
    (p : ProcPtr) : (s.afterCall q vars ((s.procs q).setFile fd file)).wd p = s.wd p := by
  show (Function.update s.procs q ((s.procs q).setFile fd file) p).workingDirectory = _
  by_cases hp : p = q
  · rw [hp, Function.update_self]
    rfl
  · rw [Function.update_of_ne hp]
    rfl

/-- The root folder, which a process without a parent works in. -/
theorem OpenInodes.fsOpen_root {vars' : FsVars} (h : OpenInodes vars E ls)
    (h' : OpenInodes vars' E' ls')
    (hopen : Fs.fsOpen vars [SLASH] none DZFS_O_DIR date = .ok (some i, vars')) :
    (vars'.inodes i).type = .DIRECTORY := by
  have hdisk := fsOpen_fs hopen
  obtain ⟨d, parent, hout, hused, rfl, -⟩ := fsOpen_inode hopen
  have hroot : dzfsOpenRelative vars.fs DZFS_O_DIR date [SLASH] (relativeDnode vars none)
      = (⟨.OK, some vars.fs.rootDnode, some vars.fs.rootDnode⟩, vars.fs) := rfl
  rw [hroot] at hout hdisk
  obtain ⟨-, hdnode, -⟩ := OpenOut.mk.inj hout
  refine h'.directory hused ?_
  rw [hdisk, ← Option.some.inj hdnode]
  exact h.root_folder

/-- The folder that `chdir` opens. -/
theorem FileWorld.fsOpen_chdir (hs : FileWorld s lost E ls) (hlive : p ∈ s.live)
    (h' : OpenInodes vars E' ls') (hchdir : ChdirOk s (.chdir p path date))
    (hopen : fsOpen s.vars path (some (s.wd p)) DZFS_O_DIR date = .ok (some i, vars)) :
    (vars.inodes i).type = .DIRECTORY := by
  have hdisk := fsOpen_fs hopen
  obtain ⟨d, parent, hout, hused, rfl, hopenable⟩ := fsOpen_inode hopen
  obtain ⟨hsame, ⟨-, hfail⟩ | ⟨d', parent', hd, hout', hmem, -⟩⟩ :=
    hs.open_plain (hs.folder (hs.wd p hlive)) (by decide)
      (Prod.mk.eta (p := dzfsOpenRelative s.vars.fs DZFS_O_DIR date path _)).symm
  · exact absurd (congrArg OpenOut.result hout) hfail
  obtain ⟨-, hdnode, -⟩ := OpenOut.mk.inj (hout.symm.trans hout')
  obtain rfl := Option.some.inj hdnode
  refine h'.directory hused ?_
  change vars.fs = (dzfsOpenRelative s.vars.fs DZFS_O_DIR date path
    (s.vars.inodes (s.wd p)).dnode).2 at hdisk
  rw [hdisk, hsame]
  refine (hs.typed _ hmem).resolve_left fun hfile => ?_
  exact hchdir _ hd hfile ⟨i, hopenable⟩

/-- The folders of the live processes after a call. -/
theorem FileStep.world_wd (h : FileStep s c s') (hs : FileWorld s lost E ls) (hchdir : ChdirOk s c)
    {lost' : List InodePtr} (hlost : Leaky s' lost') (h' : OpenInodes s'.vars E' ls')
    (hp : p ∈ s'.live) : (s'.vars.inodes (s'.wd p)).type = .DIRECTORY := by
  have hkeeps := h.keeps_inodes hs.toLeaky
  have hused : (s'.vars.inodes (s'.wd p)).type ≠ .EMPTY := hlost.used (o := none) hp rfl
  -- A folder of a process before the call is one after it.
  have hold : ∀ q ∈ s.live, s'.wd p = s.wd q →
      (s'.vars.inodes (s'.wd p)).type = .DIRECTORY := by
    intro q hq heq
    have htype := hs.wd q hq
    rw [← heq] at htype
    rw [(hkeeps (s'.wd p) (by rw [htype]; exact nofun) hused).1, htype]
  cases h with
  | idle => exact hold p hp rfl
  | execFailed => exact hold p hp rfl
  | execRejected => exact hold p hp rfl
  | @execChild q child _ _ _ _ _ hlive =>
    by_cases hpc : p = child
    · refine hold q hlive ?_
      show (Function.update s.procs child _ p).workingDirectory = _
      rw [hpc, Function.update_self]
    · refine hold p ((Finset.mem_insert.mp hp).resolve_left hpc) ?_
      show (Function.update s.procs child _ p).workingDirectory = _
      rw [Function.update_of_ne hpc]
      rfl
  | @execFirst child _ serial _ vars vars' i j _ _ hopen hroot =>
    by_cases hpc : p = child
    · have hwd : FileState.wd ⟨vars', insert child s.live,
          Function.update s.procs child ⟨standardFiles serial, j⟩⟩ p = j := by
        show (Function.update s.procs child _ p).workingDirectory = _
        rw [hpc, Function.update_self]
      rw [hwd]
      have hnone : ∀ k ∈ (none : Option InodePtr), (s.vars.inodes k).type = .DIRECTORY := by
        intro k hk
        cases hk
      obtain ⟨ls₁, h₁⟩ := hs.toOpenInodes.fsOpen hnone
        (newNameFits_plain (by decide)) hopen
      exact (h₁.fsClose i).fsOpen_root h' hroot
    · refine hold p ((Finset.mem_insert.mp hp).resolve_left hpc) ?_
      show (Function.update s.procs child _ p).workingDirectory = _
      rw [Function.update_of_ne hpc]
      rfl
  | exit => exact hold p (Finset.mem_of_mem_erase hp) rfl
  | openFailed => exact hold p hp rfl
  | opened => exact hold p hp (afterCall_wd _ _ _ _ p)
  | openedDevice => exact hold p hp (afterCall_wd _ _ _ _ p)
  | closed => exact hold p hp (afterCall_wd _ _ _ _ p)
  | chdirFailed => exact hold p hp rfl
  | @chdir q _ _ vars i hlive hopen =>
    by_cases hpq : p = q
    · have hwd : FileState.wd (s.afterCall q (fsClose vars (s.wd q))
          { s.procs q with workingDirectory := i }) p = i := by
        show (Function.update s.procs q _ p).workingDirectory = _
        rw [hpq, Function.update_self]
      rw [hwd] at hused ⊢
      have hdir : ∀ k ∈ some (s.wd q), (s.vars.inodes k).type = .DIRECTORY := by
        intro k hk
        rw [← Option.some.inj hk]
        exact hs.wd q hlive
      obtain ⟨ls₁, h₁⟩ := hs.toOpenInodes.fsOpen hdir (newNameFits_plain (by decide)) hopen
      have htype := hs.fsOpen_chdir hlive h₁ hchdir hopen
      have hkept := keeps_fsClose vars (s.wd q) i (by rw [htype]; exact nofun) hused
      exact hkept.1.trans htype
    · refine hold p hp ?_
      show (Function.update s.procs q _ p).workingDirectory = _
      rw [Function.update_of_ne hpq]
      rfl
  | mkdir => exact hold p hp rfl
  | unlink => exact hold p hp rfl
  | written => exact hold p hp (afterCall_wd _ _ _ _ p)
  | read => exact hold p hp (afterCall_wd _ _ _ _ p)

/-- The state before the first process. -/
theorem fileTree_boot {fs : Dzfs} (h : Tree fs E ls) (procs : ProcPtr → FileProc) :
    FileTree (FileState.boot fs procs) E ls :=
  ⟨openInodes_boot h, exact_boot fs procs, fun p hp => absurd hp (Finset.notMem_empty p)⟩

/-- A call that meets the three conditions keeps the invariant. -/
theorem FileStep.fileTree (h : FileStep s c s') (hs : FileTree s E ls) (hc : FileCallOk s c)
    (hchdir : ChdirOk s c) (hunlink : UnlinkOk s c) : ∃ E' ls', FileTree s' E' ls' := by
  have hexit : ∀ p, c ≠ .exit p := by
    rintro p rfl
    cases hc.2.1
  obtain ⟨E', ls', h'⟩ := h.openInodes hs hc hunlink
  have hexact := h.exact hexit hs.toExact
  exact ⟨E', ls', h', hexact, fun p hp => h.world_wd hs.world hchdir hexact.leaky h' hp⟩

/-- A call keeps the invariant of the runs with exits. -/
theorem FileStep.world (h : FileStep s c s') (hs : FileWorld s lost E ls) (hfew : FewLost lost)
    (hname : ∀ o ∈ openCall s c, NewNameFits s.vars.fs o.1 o.2.1 o.2.2)
    (hdata : (writtenData c).length < 2 ^ 63) (hchdir : ChdirOk s c) (hunlink : UnlinkOk s c) :
    ∃ lost' E' ls', FileWorld s' lost' E' ls' ∧ lost'.length ≤ lost.length + (isExit c).toNat := by
  obtain ⟨E', ls', h'⟩ := h.world_openInodes hs hname hdata hunlink
  have hlost : ∃ lost', Leaky s' lost' ∧ lost'.length ≤ lost.length + (isExit c).toNat := by
    cases hc : isExit c with
    | false =>
      refine ⟨lost, h.leaky ?_ hs.toLeaky hfew, Nat.le_add_right _ _⟩
      rintro p rfl
      cases hc
    | true =>
      cases h with
      | exit hlive => exact ⟨_, hs.toLeaky.exit hlive, Nat.le_refl _⟩
      | idle => exact ⟨lost, hs.toLeaky, Nat.le_add_right _ _⟩
      | _ => cases hc
  obtain ⟨lost', hlost, hlen⟩ := hlost
  exact ⟨lost', E', ls', ⟨h', hlost, fun p hp => h.world_wd hs hchdir hlost h' hp⟩, hlen⟩

end

end DzOS.Proofs.Fs
