import DzOS.Proofs.Fs.Ownership
import DzOS.Proofs.Fs.Read

/-!
# `DzOS.Proofs.Fs.Interference`: files do not interfere

`files_apart` proves that a call for one file leaves the others as they are. In every state of
a run of valid and safe calls, a write to a file, its deletion and the creation of an entity
change neither what `dzfsRead` nor what `dzfsStat` returns for another file. Each of the three
writes only to blocks that the other file does not hold. `staleParent_files_interfere` shows
a run with a stale `..` after which a write to one file changes another one.
-/

set_option autoImplicit false

namespace DzOS.Proofs.Fs

open DzOS.Lib DzOS.Fs

/-- The file `d` looks the same on both disks. -/
def SameFile (fs fs' : Dzfs) (d : Nat) : Prop :=
  (∀ size offset, dzfsRead fs' d size offset = dzfsRead fs d size offset) ∧
    dzfsStat fs' d = dzfsStat fs d

section
variable {fs fs' : Dzfs} {E : Finset Nat} {ls : Nat → List Nat} {a b : Nat}

theorem SameFile.refl (fs : Dzfs) (d : Nat) : SameFile fs fs d := ⟨fun _ _ => rfl, rfl⟩

/-- A write to the file `a` leaves the file `b` as it is. -/
theorem dzfsWrite_sameFile (h : Inv fs E ls) (ha : a ∈ E) (hb : b ∈ E)
    (hfile : entityType (fs.disk b) = DZFS_ENTITY_FILE)
    (hsize : fileSize (fs.disk b) ≤ DZFS_MAX_FILESIZE) (hab : a ≠ b) {data : List UInt8}
    {offset : Nat} (hlt : data.length + offset < 2 ^ 64) :
    SameFile fs (dzfsWrite fs a data offset).2 b := by
  rcases hw : dzfsWrite fs a data offset with ⟨r, fs'⟩
  rcases dzfsWrite_cases h.toCore ha hlt hw with
    ⟨rfl, -⟩ | ⟨-, -, -, st, hst, ⟨-, rfl⟩ | ⟨-, rfl, -⟩⟩
  · exact SameFile.refl fs' b
  · exact read_frame hb hfile hsize
      (fun p n hp hn => hst.kept p n hn (Or.inl (by rw [hp]; exact hab.symm))) hst.boot
  · refine read_frame hb hfile hsize (fun p n hp hn => ?_) ?_
    · exact hst.finish_kept _ hn (by rw [hp]; exact hab.symm)
    · have hroot : ∀ p n, WHolds fs.disk E a st.dnodeBlock st.indirectBlock p n → n ≠ 0 := by
        intro p n hp
        have hle := (hst.owns.used p n hp).1
        have htwo := h.two_le
        rw [hst.rootDnode] at hle
        omega
      rw [finishWrite_disk_other a st _ (hroot (.dnode a) a (Or.inr ⟨rfl, rfl⟩)).symm
        fun hne => hne.symm]
      exact hst.boot

/-- A deletion of another entity leaves the file `b` as it is. -/
theorem dzfsDelete_sameFile (h : Inv fs E ls) {f : Nat} (hf : InFolder fs E ls a f) (hb : b ∈ E)
    (hfile : entityType (fs.disk b) = DZFS_ENTITY_FILE)
    (hsize : fileSize (fs.disk b) ≤ DZFS_MAX_FILESIZE) :
    SameFile fs (dzfsDelete fs a f).2 b := by
  rcases hdel : dzfsDelete fs a f with ⟨r, fs'⟩
  rcases dzfsDelete_spec h hf hdel with ⟨rfl, -⟩ | ⟨-, hdeleted⟩
  · exact SameFile.refl fs' b
  · refine read_frame hb hfile hsize (fun p n hp hn => ?_) ?_
    · refine hdeleted.disk n (Or.inr (h.blocks.used p n hn).1) ?_
      -- The file holds blocks of files only, and the folder is the dnode of a folder.
      rintro rfl
      obtain rfl := h.blocks.inj p (.dnode n) n hn ⟨hf.mem, rfl⟩
      obtain rfl : n = b := hp
      exact file_ne_folder hfile hf.folder
    · refine hdeleted.disk 0 (Or.inl (by decide)) ?_
      intro heq
      exact h.ne_zero hf.mem heq.symm

/-- An open leaves every file as it is, also when it creates an entity. -/
theorem Opened.sameFile (h : Inv fs E ls) {out : OpenOut} (ho : Opened fs E out fs')
    (hb : b ∈ E) (hfile : entityType (fs.disk b) = DZFS_ENTITY_FILE)
    (hsize : fileSize (fs.disk b) ≤ DZFS_MAX_FILESIZE) : SameFile fs fs' b := by
  rcases ho with ⟨rfl, -⟩ | ⟨cur, n, -, hc⟩
  · exact SameFile.refl fs' b
  · refine read_frame hb hfile hsize (fun p m hp hm => ?_) ?_
    · refine hc.disk m (Or.inr (h.blocks.used p m hm).1) ?_ ?_
      · rintro rfl
        obtain rfl := h.blocks.inj p (.dnode m) m hm ⟨hc.mem, rfl⟩
        obtain rfl : m = b := hp
        exact file_ne_folder hfile hc.folder
      · rintro rfl
        exact hc.not_holds p hm
    · refine hc.disk 0 (Or.inl (by decide)) ?_ hc.ne_zero.symm
      intro heq
      exact h.ne_zero hc.mem heq.symm

end

/-- In every state of a run of valid and safe calls from a disk that `dzfsNew` formatted, a
write to the file `a`, a deletion of it and an open that may create an entity leave the file
`b` as it is. -/
theorem files_apart (disk : Nat → Bytes) (blocks : Nat) (date : UInt64) (fs : Dzfs)
    (hle : blocks ≤ 2 ^ 20) (hnew : dzfsNew disk blocks date = (.OK, fs)) (s : FsState)
    (hs : Reachable (fun s c => Valid s c ∧ Safe s c) (newState fs) s) (a b : Nat)
    (ha : IsFile s a) (hb : IsFile s b) (hab : a ≠ b)
    (hsize : fileSize (s.fs.disk b) ≤ DZFS_MAX_FILESIZE) :
    (∀ data offset, data.length + offset < 2 ^ 64 →
      SameFile s.fs (dzfsWrite s.fs a data offset).2 b) ∧
    (∀ f, IsFolder s f → ListedIn s a f → SameFile s.fs (dzfsDelete s.fs a f).2 b) ∧
    (∀ path relativeTo flags now, Valid s (.openRelative path relativeTo flags now) →
      Safe s (.openRelative path relativeTo flags now) →
      SameFile s.fs (dzfsOpenRelative s.fs flags now path relativeTo).2 b) ∧
    ∀ path flags now, Valid s (.openAbsolute path flags now) →
      Safe s (.openAbsolute path flags now) →
      SameFile s.fs (dzfsOpenAbsolute s.fs flags now path).2 b := by
  obtain ⟨ls, hinv⟩ := hs.inv (hle.trans (by decide)) hnew
  refine ⟨fun data offset hlt => ?_, fun f hf hlisted => ?_,
    fun path relativeTo flags now hvalid hsafe => ?_, fun path flags now hvalid hsafe => ?_⟩
  · exact dzfsWrite_sameFile hinv ha.1 hb.1 hb.2 hsize hab hlt
  · exact dzfsDelete_sameFile hinv (hlisted.inFolder hinv hf) hb.1 hb.2 hsize
  · exact (dzfsOpenRelative_spec hinv hvalid.1 hvalid.2 hsafe rfl).sameFile hinv hb.1 hb.2 hsize
  · exact (dzfsOpenAbsolute_spec hinv hvalid hsafe rfl).sameFile hinv hb.1 hb.2 hsize

/-- A disk with the empty files `f` and `g` in its root folder. Their dnodes are 4 and 5. -/
def twoFilesState : FsState := exec oneFileState (.openRelative [103] 3 1 0)

theorem files_apart_twoFiles :
    SameFile twoFilesState.fs (dzfsWrite twoFilesState.fs 4 [65] 0).2 5 :=
  (files_apart (fun _ => Bytes.zero) 32768 0 formattedDisk (by decide)
    (Prod.ext (by decide +kernel) rfl) twoFilesState
    (.call _ (.call _ .start ⟨by decide +kernel, by unfold Safe; decide +kernel⟩)
      ⟨by decide +kernel, by unfold Safe; decide +kernel⟩)
    4 5 (by decide +kernel) (by decide +kernel) (by decide) (by decide +kernel)).1 [65] 0
    (by decide)

/-- A run of valid calls after which a write to one file changes another file. -/
theorem staleParent_files_interfere :
    ∃ fs s, dzfsNew (fun _ => Bytes.zero) 32768 0 = (.OK, fs) ∧
      Reachable Valid (newState fs) s ∧ IsFile s 4 ∧ IsFile s 8 ∧
      fileSize (s.fs.disk 4) ≤ DZFS_MAX_FILESIZE ∧ fileSize (s.fs.disk 8) ≤ DZFS_MAX_FILESIZE ∧
      dzfsStat (dzfsWrite s.fs 4 [0] 4096).2 8 ≠ dzfsStat s.fs 8 := by
  have hrun : ValidRun (newState formattedDisk) staleParentCalls ∧
      IsFile staleParentState 4 ∧ IsFile staleParentState 8 ∧
      fileSize (staleParentState.fs.disk 4) ≤ DZFS_MAX_FILESIZE ∧
      fileSize (staleParentState.fs.disk 8) ≤ DZFS_MAX_FILESIZE ∧
      (dzfsStat (dzfsWrite staleParentState.fs 4 [0] 4096).2 8).2.type = 0 ∧
      (dzfsStat staleParentState.fs 8).2.type = 1 := by
    decide +kernel
  obtain ⟨hvalid, hfile, hfile', hsize, hsize', hafter, hbefore⟩ := hrun
  refine ⟨formattedDisk, staleParentState, Prod.ext (by decide +kernel) rfl,
    ValidRun.reachable .start hvalid, hfile, hfile', hsize, hsize', fun heq => ?_⟩
  rw [heq, hbefore] at hafter
  cases hafter

end DzOS.Proofs.Fs
