import DzOS.Lib.Run
import DzOS.Proofs.Fs.FileSize
import DzOS.Proofs.Fs.OpenInodes
import DzOS.Proofs.Fs.Space

/-!
# `DzOS.Proofs.Fs.CachedSize`: the sizes in the inodes and on the disk

The size of an open file is in its inode and in its dnode. `fs_write` makes the size in the inode
the end of the data when that is larger, and `dzfs_write` adds the length of the data to the size
on the disk. The two agree after a write exactly if the write appends, as `Appends` of
`FileSize.lean` says (`write_sizes_iff`).

`sizes_agree_iff` is about the runs of the functions of `fs.c`: the sizes of all open files agree
throughout a run exactly if each write that `dzfs_write` carries out appends.
-/

set_option autoImplicit false

namespace DzOS.Proofs.Fs

open DzOS.Lib DzOS.Fs

variable {E : Finset Nat} {c : FsCall} {d offset : Nat} {fs : Dzfs} {ls : Nat → List Nat}
  {s s' : FsVars} {buffer : List UInt8}

/-- The size of every open file is that of its dnode. -/
def SizesAgree (s : FsVars) : Prop :=
  ∀ i, (s.inodes i).type = .FILE →
    (s.inodes i).size = fileSize (s.fs.disk (s.inodes i).dnode)

/-- The size that `dzfs_stat` reports for a file. -/
theorem dzfsStat_size (hfile : entityType (fs.disk d) = DZFS_ENTITY_FILE) :
    (dzfsStat fs d).2.size = fileSize (fs.disk d) := by
  unfold dzfsStat
  simp only [Dzfs.readBlock]
  rw [if_pos hfile]

/-! ### One call -/

section
variable {s s' : FsVars} {E : Finset Nat} {ls : Nat → List Nat} {i : InodePtr}
  {inode : FsInode}

/-- A write to an inode keeps the sizes if the new one is right. -/
theorem SizesAgree.setInode (h : SizesAgree s)
    (hnew : inode.type = .FILE → inode.size = fileSize (s.fs.disk inode.dnode)) :
    SizesAgree (s.setInode i inode) := by
  intro j hj
  by_cases hji : j = i
  · rw [hji, setInode_self] at hj ⊢
    exact hnew hj
  · rw [setInode_of_ne s hji] at hj ⊢
    exact h j hj

theorem SizesAgree.fsDup (h : SizesAgree s) (i : InodePtr) : SizesAgree (fsDup s i) :=
  h.setInode (h i)

theorem SizesAgree.fsClose (h : SizesAgree s) (i : InodePtr) : SizesAgree (fsClose s i) := by
  unfold Fs.fsClose
  simp only
  split
  · exact h.setInode fun hfile => nomatch hfile
  · exact h.setInode (h i)

/-- `fs_open` takes the size of a new inode from the disk. -/
theorem SizesAgree.fsOpen (h : SizesAgree s) (hs : OpenInodes s E ls) {path : List UInt8}
    {relativeTo : Option InodePtr} {flags : UInt32} {date : UInt64} {r : Option InodePtr}
    (hdir : ∀ i ∈ relativeTo, (s.inodes i).type = .DIRECTORY)
    (hname : NewNameFits s.fs path (relativeDnode s relativeTo) flags)
    (hopen : fsOpen s path relativeTo flags date = .ok (r, s')) : SizesAgree s' := by
  rcases ho : dzfsOpenRelative s.fs flags date path (relativeDnode s relativeTo) with ⟨out, fs'⟩
  have hdisk : SizesAgree { s with fs := fs' } := by
    intro j hj
    obtain ⟨hmem, hfile⟩ := hs.file hj
    show (s.inodes j).size = fileSize (fs'.disk (s.inodes j).dnode)
    rw [hs.openRelative_file (hs.relative hdir) hname ho hmem hfile]
    exact h j hj
  rcases fsOpen_cases ho hopen with ⟨rfl, rfl⟩ | ⟨d, parent, rfl, hopened⟩
  · exact hdisk
  · cases hopened with
    | @shared i used dnode => exact hdisk.setInode (hdisk i)
    | taken empty absent htype =>
      refine hdisk.setInode fun hfile => ?_
      exact dzfsStat_size (inodeType_file.mp (htype.trans (congrArg some hfile)))
    | full => exact hdisk

/-- A write that fails keeps the dnodes. -/
theorem dzfsWrite_failed_dnode (h : Core fs E ls) (hd : d ∈ E) {data : List UInt8}
    (hlt : data.length + offset < 2 ^ 64) (hw : (dzfsWrite fs d data offset).1 ≠ .OK) {e : Nat}
    (he : e ∈ E) : (dzfsWrite fs d data offset).2.disk e = fs.disk e := by
  rcases hrun : dzfsWrite fs d data offset with ⟨r, fs'⟩
  rw [hrun] at hw
  rcases dzfsWrite_cases h hd hlt hrun with
    ⟨rfl, -⟩ | ⟨-, -, -, st, hst, ⟨-, rfl⟩ | ⟨rfl, -⟩⟩
  · rfl
  · refine hst.kept (.dnode e) e ⟨he, rfl⟩ ?_
    by_cases hed : e = d
    · exact Or.inr (Or.inl (by rw [hed]))
    · exact Or.inl hed
  · exact absurd rfl hw

/-- The condition for a write: if it is accepted, it appends, or there are not enough blocks. -/
def SizeOk (s : FsVars) : FsCall → Prop
  | .write i buffer offset =>
    Accepted s.fs (s.inodes i).dnode buffer offset →
      Appends (fileSize (s.fs.disk (s.inodes i).dnode)) buffer offset ∨
        Short s.fs (s.inodes i).dnode buffer offset
  | _ => True

/-- A write that is not carried out keeps the sizes. -/
theorem SizesAgree.write_failed (h : SizesAgree s) (hs : OpenInodes s E ls)
    (hused : (s.inodes i).type ≠ .EMPTY) (hlt : buffer.length + offset < 2 ^ 64)
    (hw : (dzfsWrite s.fs (s.inodes i).dnode buffer offset).1 ≠ .OK) :
    SizesAgree (fsWrite s i buffer offset).2 := by
  rw [fsWrite_failed hw]
  intro j hj
  show (s.inodes j).size = fileSize ((dzfsWrite s.fs _ buffer offset).2.disk (s.inodes j).dnode)
  rw [dzfsWrite_failed_dnode hs.toCore (hs.mem i hused) hlt hw (hs.file hj).1]
  exact h j hj

/-- The two sizes after a write, without the wrap of a `uint32_t`. -/
theorem new_sizes_iff {size len : Nat} (hsize : size < 2 ^ 32) (hoff : offset ≤ size)
    (hmax : offset + len < 2 ^ 32) :
    (if (offset + len) % 2 ^ 64 > size then (offset + len) % 2 ^ 32 else size)
        = (size + len) % 2 ^ 32 ↔ len = 0 ∨ offset = size := by
  have h64 : (offset + len) % 2 ^ 64 = offset + len := Nat.mod_eq_of_lt (by omega)
  have h32 : (offset + len) % 2 ^ 32 = offset + len := Nat.mod_eq_of_lt hmax
  rw [h64, h32]
  split
  · omega
  · omega

section

variable (h : SizesAgree s) (hs : OpenInodes s E ls) (hused : (s.inodes i).type ≠ .EMPTY)
  (hlt : buffer.length + offset < 2 ^ 64)

include h hs hused hlt

/-- A write that is carried out keeps the sizes exactly if it appends. -/
theorem SizesAgree.write_ok_iff {fs' : Dzfs} (hacc : Accepted s.fs (s.inodes i).dnode buffer offset)
    (hw : dzfsWrite s.fs (s.inodes i).dnode buffer offset = (.OK, fs')) :
    SizesAgree (fsWrite s i buffer offset).2 ↔
      Appends (fileSize (s.fs.disk (s.inodes i).dnode)) buffer offset := by
  have htype : (s.inodes i).type = .FILE := by
    have htype := hs.type i hused
    rw [inodeType_file.mpr hacc.1] at htype
    exact (Option.some.inj htype).symm
  obtain ⟨hsize, hoff, hmax⟩ := dzfsWrite_size hw
  rw [Nat.mod_eq_of_lt hlt] at hmax
  have hlimit : DZFS_MAX_FILESIZE < 2 ^ 32 := by decide
  have hiff := new_sizes_iff (fileSize_lt (s.fs.disk (s.inodes i).dnode)) hoff
    (show offset + buffer.length < 2 ^ 32 by omega)
  have happends : Appends (fileSize (s.fs.disk (s.inodes i).dnode)) buffer offset ↔
      buffer.length = 0 ∨ offset = fileSize (s.fs.disk (s.inodes i).dnode) := by
    rw [Appends, ← List.length_eq_zero_iff]
    exact or_congr Iff.rfl (and_iff_left hlt)
  rw [happends, ← hiff, ← hsize, fsWrite_ok hw, h i htype]
  constructor
  · intro hagree
    have hi := hagree i
    rw [setInode_self] at hi
    exact hi htype
  · intro heq
    -- No other inode is that of the file, so the other files are not written.
    have hother : ∀ j ≠ i, (s.inodes j).type = .FILE →
        (s.inodes j).size = fileSize (fs'.disk (s.inodes j).dnode) := by
      intro j hj hfile
      have hne : (s.inodes j).dnode ≠ (s.inodes i).dnode := by
        intro hsame
        refine hj (hs.inj j i ?_ hused hsame)
        rw [hfile]
        decide
      have hdnode := (dzfsWrite_dnode hs.toCore (hs.mem i hused) hlt (hs.file hfile).1).2 hne
      rw [hw] at hdnode
      rw [hdnode]
      exact h j hfile
    intro j hj
    by_cases hji : j = i
    · rw [hji, setInode_self]
      exact heq
    · rw [setInode_of_ne _ hji] at hj ⊢
      exact hother j hji hj

/-- The sizes after a write agree exactly if it meets the condition. -/
theorem write_sizes_iff :
    SizesAgree (fsWrite s i buffer offset).2 ↔ SizeOk s (.write i buffer offset) := by
  by_cases hacc : Accepted s.fs (s.inodes i).dnode buffer offset
  · by_cases hshort : Short s.fs (s.inodes i).dnode buffer offset
    · obtain ⟨last, st, hw, -⟩ := dzfsWrite_short hs.toCore (hs.mem i hused) hacc hshort
      refine iff_of_true (h.write_failed hs hused hlt ?_) fun _ => Or.inr hshort
      rw [hw]
      exact nofun
    · have hok := dzfsWrite_enough hs.toCore (hs.mem i hused) hacc hlt hshort
      rcases hw : dzfsWrite s.fs (s.inodes i).dnode buffer offset with ⟨r, fs'⟩
      rw [hw] at hok
      obtain rfl : r = .OK := hok
      rw [h.write_ok_iff hs hused hlt hacc hw]
      constructor
      · intro happends _
        exact Or.inl happends
      · intro hcond
        exact (hcond hacc).resolve_right hshort
  · have hw := (dzfsWrite_of_not_accepted hacc).1
    exact iff_of_true (h.write_failed hs hused hlt hw) fun h => absurd h hacc

end

end

/-! ### Runs -/

/-- The arguments that the callers give: a path starts at a folder, a new name fits the header of
a block, an inode is in use, and the data of a write is in memory. -/
def FsCallOk (s : FsVars) : FsCall → Prop
  | .open path relativeTo flags _ =>
    (∀ i ∈ relativeTo, (s.inodes i).type = .DIRECTORY) ∧
      NewNameFits s.fs path (relativeDnode s relativeTo) flags
  | .dup i => (s.inodes i).type ≠ .EMPTY
  | .close i => (s.inodes i).type ≠ .EMPTY
  | .write i buffer offset => (s.inodes i).type ≠ .EMPTY ∧ buffer.length + offset < 2 ^ 64
  | .read i _ _ => (s.inodes i).type ≠ .EMPTY

instance (s : FsVars) (c : FsCall) : Decidable (FsCallOk s c) :=
  match c with
  | .open path relativeTo flags _ =>
    inferInstanceAs (Decidable ((∀ i ∈ relativeTo, (s.inodes i).type = .DIRECTORY) ∧
      NewNameFits s.fs path (relativeDnode s relativeTo) flags))
  | .dup i => inferInstanceAs (Decidable ((s.inodes i).type ≠ .EMPTY))
  | .close i => inferInstanceAs (Decidable ((s.inodes i).type ≠ .EMPTY))
  | .write i buffer offset =>
    inferInstanceAs (Decidable ((s.inodes i).type ≠ .EMPTY ∧ buffer.length + offset < 2 ^ 64))
  | .read i _ _ => inferInstanceAs (Decidable ((s.inodes i).type ≠ .EMPTY))

/-- A call keeps the inodes in agreement with the disk. -/
theorem OpenInodes.fsStep (h : OpenInodes s E ls) (hc : FsCallOk s c)
    (hcall : fsStep s c = some s') :
    ∃ E' ls', OpenInodes s' E' ls' := by
  cases c with
  | «open» path relativeTo flags date =>
    rw [Fs.fsStep] at hcall
    split at hcall
    · cases hcall
    · rename_i hopen
      cases hcall
      obtain ⟨ls', hs'⟩ := h.fsOpen hc.1 hc.2 hopen
      exact ⟨_, ls', hs'⟩
  | dup i =>
    cases hcall
    exact ⟨E, ls, h.fsDup i⟩
  | close i =>
    cases hcall
    exact ⟨E, ls, h.fsClose i⟩
  | write i buffer offset =>
    cases hcall
    exact ⟨E, ls, h.fsWrite hc.1 hc.2⟩
  | read i len offset =>
    cases hcall
    exact ⟨E, ls, h⟩

/-- After a call, the sizes agree exactly if it meets the condition. -/
theorem SizesAgree.fsStep_iff (h : SizesAgree s) (hs : OpenInodes s E ls) (hc : FsCallOk s c)
    (hcall : fsStep s c = some s') : SizesAgree s' ↔ SizeOk s c := by
  cases c with
  | «open» path relativeTo flags date =>
    rw [Fs.fsStep] at hcall
    split at hcall
    · cases hcall
    · rename_i hopen
      cases hcall
      exact iff_of_true (h.fsOpen hs hc.1 hc.2 hopen) trivial
  | dup i =>
    cases hcall
    exact iff_of_true (h.fsDup i) trivial
  | close i =>
    cases hcall
    exact iff_of_true (h.fsClose i) trivial
  | write i buffer offset =>
    cases hcall
    exact write_sizes_iff h hs hc.1 hc.2
  | read i len offset =>
    cases hcall
    exact iff_of_true h trivial

/-- The sizes of all open files agree throughout a run exactly if each write that is carried out
appends. -/
theorem sizes_agree_iff {disk : Nat → Bytes} {blocks : Nat} {date : UInt64} {fs : Dzfs}
    (hle : blocks ≤ formatLimit) (hnew : dzfsNew disk blocks date = (.OK, fs))
    {calls : List FsCall} {s' : FsVars} (hrun : runSteps fsStep (FsVars.boot fs) calls = some s')
    (hcalls : EachCall fsStep (FsVars.boot fs) calls FsCallOk) :
    Throughout fsStep (FsVars.boot fs) calls SizesAgree ↔
      EachCall fsStep (FsVars.boot fs) calls SizeOk := by
  have hboot := openInodes_boot (dzfsNew_formatted hle hnew).tree
  have hsizes : SizesAgree (FsVars.boot fs) := fun i hi => nomatch hi
  refine throughout_iff (I := fun s => (∃ E ls, OpenInodes s E ls) ∧ SizesAgree s)
    (fun s hs => hs.2) ?_ ?_ ⟨⟨_, _, hboot⟩, hsizes⟩ hcalls hrun
  · rintro s c s' ⟨⟨E, ls, hs⟩, hagree⟩ hc hcall hok
    exact ⟨hs.fsStep hc hcall, (hagree.fsStep_iff hs hc hcall).mpr hok⟩
  · rintro s c s' ⟨⟨E, ls, hs⟩, hagree⟩ hc hcall hok hagree'
    exact hok ((hagree.fsStep_iff hs hc hcall).mp hagree')

/-- The last inode of the list, which the first open takes. -/
def lastInode : InodePtr := ⟨63, by decide⟩

/-- A new file gets a byte and then a second one. -/
def appendTwiceCalls : List FsCall :=
  [.open [102] none 1 0, .write lastInode [65] 0, .write lastInode [66] 1]

theorem sizes_agree_iff_append :
    Throughout fsStep (FsVars.boot formattedDisk) appendTwiceCalls SizesAgree ↔
      EachCall fsStep (FsVars.boot formattedDisk) appendTwiceCalls SizeOk :=
  sizes_agree_iff (show 32768 ≤ formatLimit by decide) formattedDisk_new
    (runSteps_getD (by decide +kernel)) (by decide +kernel)

/-- A new file gets a byte, which is written again. -/
def overwriteCalls : List FsCall :=
  [.open [102] none 1 0, .write lastInode [65] 0, .write lastInode [66] 0]

/-- After the second write, the size is 1 in the inode and 2 on the disk. -/
theorem overwrite_sizes_differ :
    EachCall fsStep (FsVars.boot formattedDisk) overwriteCalls FsCallOk ∧
      ∃ s, runSteps fsStep (FsVars.boot formattedDisk) overwriteCalls = some s ∧
        (s.inodes lastInode).type = .FILE ∧ (s.inodes lastInode).size = 1 ∧
        fileSize (s.fs.disk (s.inodes lastInode).dnode) = 2 := by
  refine ⟨by decide +kernel, _, runSteps_getD (by decide +kernel), by decide +kernel,
    by decide +kernel, by decide +kernel⟩

end DzOS.Proofs.Fs
