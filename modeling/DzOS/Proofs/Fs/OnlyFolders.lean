import DzOS.Proofs.Fs.FileTree

/-!
# `DzOS.Proofs.Fs.OnlyFolders`: which blocks an open uses as folders

`dzfs_open_relative` reads the fields of a folder in each block that it walks through, and writes
to the last of them when it creates an entity. The functions with `Logged` in their names return
the numbers of these blocks too. They are otherwise the functions of `Dzfs.lean`
(`dzfsOpenRelativeLogged_fst`).

The type of a block is checked when the walk goes down into it, but not where it starts: that is
the working directory of a process, and `sys_chdir` accepts a file, since `dzfs_open_relative`
looks at `DZFS_O_DIR` only when it creates. So only folders are used as folders throughout a run
exactly if no `chdir` of the run opens a file (`only_folders_iff`).
-/

set_option autoImplicit false

namespace DzOS.Proofs.Fs

open DzOS.Lib DzOS.Fs DzOS.Sched

variable {relativeTo : Nat}

/-! ### The log -/

/-- `skipDots` with the folders whose parent it reads. -/
def skipDotsLogged (fs : Dzfs) : Nat → Nat → List UInt8 → (Nat × List UInt8) × List Nat
  | 0, relativeTo, path => ((relativeTo, path), [])
  | fuel + 1, relativeTo, path =>
    if [DOT, SLASH].isPrefixOf path then skipDotsLogged fs fuel relativeTo (path.drop 2)
    else if [DOT, DOT, SLASH].isPrefixOf path then
      let (out, log) := skipDotsLogged fs fuel (goUp fs relativeTo) (path.drop 3)
      (out, relativeTo :: log)
    else if path = [DOT, DOT] then ((goUp fs relativeTo, []), [relativeTo])
    else ((relativeTo, path), [])

/-- `traverse` with the folders that it looks the names up in. -/
def traverseLogged (flags : UInt32) (date : UInt64) (fs : Dzfs) (parentDnode : Nat) :
    Nat → Nat → List UInt8 → (OpenOut × Dzfs) × List Nat
  | 0, _, _ => ((⟨.ERR_NOT_FOUND, none, some parentDnode⟩, fs), [])
  | fuel + 1, currentIndex, path =>
    let current := fs.readBlock currentIndex
    let nextPathSize := pathNextPartLen path
    let name := path.take nextPathSize
    let found := folderLookupName fs current name
    if found = 0 then
      if flags &&& DZFS_O_CREATE ≠ 0 ∧ pathLastPart path then
        (createEntity fs currentIndex current name flags date parentDnode, [currentIndex])
      else ((⟨.ERR_NOT_FOUND, none, some parentDnode⟩, fs), [currentIndex])
    else if pathLastPart path then ((⟨.OK, some found, some currentIndex⟩, fs), [currentIndex])
    else if entityType (fs.readBlock found) ≠ DZFS_ENTITY_FOLDER then
      ((⟨.ERR_NOT_FOUND, none, some parentDnode⟩, fs), [currentIndex])
    else
      let (out, log) :=
        traverseLogged flags date fs parentDnode fuel found (path.drop (nextPathSize + 1))
      (out, currentIndex :: log)

/-- `openFrom` with its folders. -/
def openFromLogged (fs : Dzfs) (path : List UInt8) (relativeTo : Nat) (flags : UInt32)
    (date : UInt64) : (OpenOut × Dzfs) × List Nat :=
  if relativeTo = 0 then ((⟨.ERR_ARGUMENT, none, none⟩, fs), [])
  else
    let ((folder, rest), up) := skipDotsLogged fs (path.length + 1) relativeTo path
    if rest = [] ∨ rest = [DOT] then
      ((⟨.OK, some folder, some (folderParent (fs.readBlock folder))⟩, fs), up ++ [folder])
    else
      let (out, down) := traverseLogged flags date fs relativeTo (rest.length + 1) folder rest
      (out, up ++ down)

/-- `dzfsOpenRelative` with the folders that it uses. -/
def dzfsOpenRelativeLogged (fs : Dzfs) (flags : UInt32) (date : UInt64) :
    List UInt8 → Nat → (OpenOut × Dzfs) × List Nat
  | [], relativeTo => openFromLogged fs [] relativeTo flags date
  | c :: path, relativeTo =>
    if c = SLASH then
      if path = [] then ((⟨.OK, some fs.rootDnode, some fs.rootDnode⟩, fs), [])
      else dzfsOpenRelativeLogged fs flags date path fs.rootDnode
    else openFromLogged fs (c :: path) relativeTo flags date

section
variable (fs : Dzfs) (flags : UInt32) (date : UInt64)

theorem skipDotsLogged_fst (fuel relativeTo : Nat) (path : List UInt8) :
    (skipDotsLogged fs fuel relativeTo path).1 = skipDots fs fuel relativeTo path := by
  induction fuel generalizing relativeTo path with
  | zero => rfl
  | succ fuel ih =>
    unfold skipDotsLogged skipDots
    split
    · exact ih _ _
    · split
      · exact ih _ _
      · split
        · rfl
        · rfl

theorem traverseLogged_fst (parentDnode fuel currentIndex : Nat) (path : List UInt8) :
    (traverseLogged flags date fs parentDnode fuel currentIndex path).1
      = Fs.traverse flags date fs parentDnode fuel currentIndex path := by
  induction fuel generalizing currentIndex path with
  | zero => rfl
  | succ fuel ih =>
    unfold traverseLogged Fs.traverse
    simp only
    split
    · split
      · rfl
      · rfl
    · split
      · rfl
      · split
        · rfl
        · exact ih _ _

theorem openFromLogged_fst (path : List UInt8) (relativeTo : Nat) :
    (openFromLogged fs path relativeTo flags date).1 = openFrom fs path relativeTo flags date := by
  unfold openFromLogged openFrom
  split
  · rfl
  · simp only [skipDotsLogged_fst]
    split
    · rfl
    · exact traverseLogged_fst fs flags date _ _ _ _

/-- Without its log, `dzfsOpenRelativeLogged` is `dzfsOpenRelative`. -/
theorem dzfsOpenRelativeLogged_fst (path : List UInt8) (relativeTo : Nat) :
    (dzfsOpenRelativeLogged fs flags date path relativeTo).1
      = dzfsOpenRelative fs flags date path relativeTo := by
  induction path generalizing relativeTo with
  | nil => exact openFromLogged_fst fs flags date [] relativeTo
  | cons c path ih =>
    unfold dzfsOpenRelativeLogged dzfsOpenRelative
    split
    · split
      · rfl
      · exact ih _
    · exact openFromLogged_fst fs flags date (c :: path) relativeTo

end

/-! ### The folders of a tree -/

section
variable {fs : Dzfs} {E : Finset Nat} {ls : Nat → List Nat} {f : Nat}

/-- A folder of the tree. -/
def FolderOf (fs : Dzfs) (E : Finset Nat) (f : Nat) : Prop :=
  f ∈ E ∧ entityType (fs.disk f) = DZFS_ENTITY_FOLDER

theorem Tree.skipDotsLogged (h : Tree fs E ls) (fuel : Nat) (hrel : FolderOf fs E relativeTo)
    (path : List UInt8) :
    (∀ f ∈ (skipDotsLogged fs fuel relativeTo path).2, FolderOf fs E f) ∧
      FolderOf fs E (skipDotsLogged fs fuel relativeTo path).1.1 := by
  induction fuel generalizing relativeTo path with
  | zero => exact ⟨fun f hf => absurd hf List.not_mem_nil, hrel⟩
  | succ fuel ih =>
    have hup : FolderOf fs E (goUp fs relativeTo) := h.goUp_folder hrel
    unfold Fs.skipDotsLogged
    split
    · exact ih hrel _
    · split
      · obtain ⟨hlog, hfolder⟩ := ih hup (path.drop 3)
        exact ⟨List.forall_mem_cons.mpr ⟨hrel, hlog⟩, hfolder⟩
      · split
        · exact ⟨List.forall_mem_singleton.mpr hrel, hup⟩
        · exact ⟨fun f hf => absurd hf List.not_mem_nil, hrel⟩

theorem Tree.traverseLogged (h : Tree fs E ls) (flags : UInt32) (date : UInt64)
    (parentDnode fuel : Nat) {currentIndex : Nat} (hcur : FolderOf fs E currentIndex)
    (path : List UInt8) :
    ∀ f ∈ (traverseLogged flags date fs parentDnode fuel currentIndex path).2,
      FolderOf fs E f := by
  induction fuel generalizing currentIndex path with
  | zero => exact fun f hf => absurd hf List.not_mem_nil
  | succ fuel ih =>
    have hone : ∀ f ∈ [currentIndex], FolderOf fs E f := List.forall_mem_singleton.mpr hcur
    unfold Fs.traverseLogged
    simp only
    split
    · split
      · exact hone
      · exact hone
    · rename_i hfound
      split
      · exact hone
      · split
        · exact hone
        · rename_i htype
          have hlisted := (h.lists currentIndex hcur.1 hcur.2).lookup_mem hfound
          have hnext : FolderOf fs E _ :=
            ⟨(h.entity_of_listed hlisted).1, not_not.mp htype⟩
          exact List.forall_mem_cons.mpr ⟨hcur, ih hnext _⟩

theorem Tree.openFromLogged (h : Tree fs E ls) (flags : UInt32) (date : UInt64) (path : List UInt8)
    (hrel : FolderOf fs E relativeTo) :
    ∀ f ∈ (openFromLogged fs path relativeTo flags date).2, FolderOf fs E f := by
  obtain ⟨hup, hfolder⟩ := h.skipDotsLogged (path.length + 1) hrel path
  unfold Fs.openFromLogged
  split
  · exact fun f hf => absurd hf List.not_mem_nil
  · simp only
    split
    · exact List.forall_mem_append.mpr ⟨hup, List.forall_mem_singleton.mpr hfolder⟩
    · exact List.forall_mem_append.mpr ⟨hup, h.traverseLogged flags date _ _ hfolder _⟩

/-- An open uses folders of the tree only, if it starts at one. -/
theorem Tree.openRelativeLogged (h : Tree fs E ls) (flags : UInt32) (date : UInt64)
    (path : List UInt8) (hrel : FolderOf fs E relativeTo) :
    ∀ f ∈ (dzfsOpenRelativeLogged fs flags date path relativeTo).2, FolderOf fs E f := by
  induction path generalizing relativeTo with
  | nil => exact h.openFromLogged flags date [] hrel
  | cons c path ih =>
    unfold dzfsOpenRelativeLogged
    split
    · split
      · exact fun f hf => absurd hf List.not_mem_nil
      · exact ih ⟨h.root_mem, h.root_folder⟩
    · exact h.openFromLogged flags date (c :: path) hrel

end

/-! ### The system -/

/-- Only folders are used as folders: they are the working directories, an open from one of these
or from the root folder uses no other blocks, and it does not write to the block of a file. -/
structure OnlyFolders (s : FileState) : Prop where
  wd : ∀ p ∈ s.live, (s.vars.inodes (s.wd p)).type = .DIRECTORY
  used : ∀ parent : Option ProcPtr, (∀ p ∈ parent, p ∈ s.live) → ∀ path flags date,
    ∀ f ∈ (dzfsOpenRelativeLogged s.vars.fs flags date path
      (relativeDnode s.vars (parent.map s.wd))).2,
      entityType (s.vars.fs.disk f) = DZFS_ENTITY_FOLDER
  kept : ∀ parent : Option ProcPtr, (∀ p ∈ parent, p ∈ s.live) → ∀ path flags date,
    NewNameFits s.vars.fs path (relativeDnode s.vars (parent.map s.wd)) flags →
    ∀ d, InTree s.vars.fs d → entityType (s.vars.fs.disk d) = DZFS_ENTITY_FILE →
      (dzfsOpenRelative s.vars.fs flags date path
        (relativeDnode s.vars (parent.map s.wd))).2.disk d = s.vars.fs.disk d

variable {s s' : FileState} {c : FileCall} {E : Finset Nat} {ls : Nat → List Nat} {p : ProcPtr}

/-- The folder that an open starts at. -/
theorem FileTree.start (h : FileTree s E ls) {parent : Option ProcPtr}
    (hlive : ∀ p ∈ parent, p ∈ s.live) :
    FolderOf s.vars.fs E (relativeDnode s.vars (parent.map s.wd)) := by
  refine h.relative fun i hi => ?_
  cases parent with
  | none => cases hi
  | some p =>
    rw [← Option.some.inj hi]
    exact h.wd p (hlive p rfl)

theorem FileTree.onlyFolders (h : FileTree s E ls) : OnlyFolders s where
  wd := h.wd
  used _ hlive path flags date f hf :=
    (h.openRelativeLogged flags date path (h.start hlive) f hf).2
  kept _ hlive path flags date hname _ hd hfile :=
    h.openRelative_file (h.start hlive) hname (Prod.mk.eta (p := dzfsOpenRelative s.vars.fs flags
      date path _)).symm (h.inTree_iff.mp hd) hfile

/-- After a `chdir` that opens a file, the process works in it. -/
theorem FileTree.chdir_not_onlyFolders (h : FileTree s E ls) (hcall : fileStep s c = some s')
    (hchdir : ¬ ChdirOk s c) : ¬ OnlyFolders s' := by
  have hex : ∃ d, d ∈ chdirEntity s c ∧ entityType (s.vars.fs.disk d) = DZFS_ENTITY_FILE ∧
      Openable s.vars d := by
    by_contra hno
    exact hchdir fun d hd hfile hopen => hno ⟨d, hd, hfile, hopen⟩
  obtain ⟨d, hd, hfile, hopenable⟩ := hex
  cases c with
  | chdir p path date =>
    have hopened : ∀ {r : Option InodePtr} {vars : FsVars}, p ∈ s.live →
        fsOpen s.vars path (some (s.wd p)) DZFS_O_DIR date = .ok (r, vars) →
        ∃ parent, OpenedInode s.vars d parent r vars := by
      intro r vars hlive hopen
      rcases ho : dzfsOpenRelative s.vars.fs DZFS_O_DIR date path (s.vars.inodes (s.wd p)).dnode
        with ⟨out, fs'⟩
      obtain ⟨rfl, ⟨hnone, -⟩ | ⟨d', parent, hd', rfl, -⟩⟩ :=
        h.open_plain (h.folder (h.wd p hlive)) (by decide) ho
      · have hno := hnone.symm.trans hd
        cases hno
      obtain rfl : d' = d := Option.some.inj (hd'.symm.trans hd)
      refine ⟨parent, openInode_cases ?_⟩
      rw [← hopen]
      have ho' : dzfsOpenRelative s.vars.fs DZFS_O_DIR date path
          (relativeDnode s.vars (some (s.wd p))) = _ := ho
      exact (fsOpen_found ho').symm
    cases fileStep_cases hcall with
    | idle hno => cases hno
    | chdirFailed hlive hopen =>
      obtain ⟨parent, hopened⟩ := hopened hlive hopen
      cases hopened with
      | full used absent =>
        obtain ⟨i, hempty | hdnode⟩ := hopenable
        · exact absurd hempty (used i)
        · exact absurd hdnode (absent i (used i))
    | @chdir _ _ _ vars i hlive hopen =>
      obtain ⟨parent, hopened⟩ := hopened hlive hopen
      have hfile' : (vars.inodes i).type = .FILE := by
        cases hopened with
        | shared used dnode =>
          rw [setInode_self]
          have htype := h.type i used
          rw [dnode, inodeType_file.mpr hfile] at htype
          exact (Option.some.inj htype).symm
        | taken empty absent htype =>
          rw [setInode_self]
          rw [inodeType_file.mpr hfile] at htype
          exact (Option.some.inj htype).symm
      intro honly
      have hdir := honly.wd p hlive
      have hwd : FileState.wd (s.afterCall p (fsClose vars (s.wd p))
          { s.procs p with workingDirectory := i }) p = i := by
        show (Function.update s.procs p _ p).workingDirectory = _
        rw [Function.update_self]
      rw [hwd] at hdir
      have hkept := keeps_fsClose vars (s.wd p) i (by rw [hfile']; exact nofun)
        (by
          change ((fsClose vars (s.wd p)).inodes i).type = _ at hdir
          rw [hdir]
          exact nofun)
      change ((fsClose vars (s.wd p)).inodes i).type = _ at hdir
      rw [hkept.1, hfile'] at hdir
      cases hdir
  | _ => cases hd

/-- Only folders are used as folders throughout a run exactly if no `chdir` opens a file. -/
theorem only_folders_iff {disk : Nat → Bytes} {blocks : Nat} {date : UInt64} {fs : Dzfs}
    (hle : blocks ≤ formatLimit) (hnew : dzfsNew disk blocks date = (.OK, fs)) {d : FsState}
    (hd : Reachable TreeOk (newState fs) d) (procs : ProcPtr → FileProc) {calls : List FileCall}
    {s' : FileState} (hrun : runSteps fileStep (FileState.boot d.fs procs) calls = some s')
    (hcalls : EachCall fileStep (FileState.boot d.fs procs) calls fun s c =>
      FileCallOk s c ∧ UnlinkOk s c) :
    Throughout fileStep (FileState.boot d.fs procs) calls OnlyFolders ↔
      EachCall fileStep (FileState.boot d.fs procs) calls ChdirOk := by
  obtain ⟨ls, htree⟩ := hd.tree hle hnew
  refine throughout_iff (I := fun s => ∃ E ls, FileTree s E ls) ?_ ?_ ?_
    ⟨_, ls, fileTree_boot htree procs⟩ hcalls hrun
  · rintro s ⟨E, ls, hs⟩
    exact hs.onlyFolders
  · rintro s c s' ⟨E, ls, hs⟩ ⟨hc, hunlink⟩ hcall hchdir
    exact (fileStep_cases hcall).fileTree hs hc hchdir hunlink
  · rintro s c s' ⟨E, ls, hs⟩ - hcall hchdir
    exact hs.chdir_not_onlyFolders hcall hchdir

/-- The first process creates a folder and goes there. -/
def chdirFolderCalls : List FileCall :=
  [.exec none 0 [47, 102] true 0 0, .mkdir 0 [97] 0, .chdir 0 [97] 0]

theorem only_folders_iff_folder :
    Throughout fileStep (FileState.boot oneFileState.fs noProcs) chdirFolderCalls OnlyFolders ↔
      EachCall fileStep (FileState.boot oneFileState.fs noProcs) chdirFolderCalls ChdirOk :=
  only_folders_iff (show 32768 ≤ formatLimit by decide) formattedDisk_new
    (OkRun.reachable .start (show OkRun TreeOk (newState formattedDisk)
      [.openRelative [102] 3 1 0] by decide +kernel))
    noProcs (runSteps_getD (by decide +kernel)) (by decide +kernel)

/-- The first process goes to its executable, as if that were a folder. -/
def chdirFileCalls : List FileCall :=
  [.exec none 0 [47, 102] true 0 0, .chdir 0 [102] 0]

/-- The working directory is a file then, and creating another file there writes to the field
`indirect_block` of the first one. -/
theorem chdir_file_not_onlyFolders :
    EachCall fileStep (FileState.boot oneFileState.fs noProcs) chdirFileCalls
        (fun s c => FileCallOk s c ∧ UnlinkOk s c) ∧
      ∃ s d, runSteps fileStep (FileState.boot oneFileState.fs noProcs) chdirFileCalls = some s ∧
        d = (s.vars.inodes (s.wd 0)).dnode ∧ entityType (s.vars.fs.disk d) = DZFS_ENTITY_FILE ∧
        fileIndirect (s.vars.fs.disk d) = 0 ∧
        fileIndirect ((dzfsOpenRelative s.vars.fs DZFS_O_CREATE 0 [103] d).2.disk d) = 5 ∧
        ¬ OnlyFolders s := by
  refine ⟨by decide +kernel, _, 4, runSteps_getD (by decide +kernel), by decide +kernel,
    by decide +kernel, by decide +kernel, by decide +kernel, fun honly => ?_⟩
  have hdir := honly.wd 0 (by decide +kernel)
  revert hdir
  decide +kernel

end DzOS.Proofs.Fs
