import DzOS.Proofs.Fs.FileTree
import DzOS.Proofs.Fs.StoreRefinement

/-!
# `DzOS.Proofs.Fs.OpenFiles`: the inode table implements the open files of the processes

The abstract level has no inodes, no reference counts and no blocks. A process is a `Desk`: for
each descriptor what it is open for, with its offset and its flags, and the folder that the process
works in. The desks stand over the store of `StoreRefinement.lean`. `deskStep` says what a call does
to them, from nothing but the arguments of the call and what it returns (`Reply`).

The level below is the inode table. Processes that open the same entity share an inode, a close
frees it when its count says so, and an exit leaves one behind.

A system call makes one call of dzFS at most that changes the disk (`diskCall`), and this call is a
sound one (`diskCall_sound`). So the runs of the processes are runs of dzFS, and the results about
those hold for the processes. `Implements` relates the two levels. `Desks.lean` has the calls and
the runs.
-/

set_option autoImplicit false

namespace DzOS.Proofs.Fs

open DzOS.Lib DzOS.Fs DzOS.Sched

variable {d parent : Nat} {date : UInt64} {path : List UInt8}

/-! ### The abstract processes -/

/-- What a descriptor is open for. -/
inductive Target where
  | empty
  | device (device : Nat)
  | entity (dnode : Nat)
  deriving DecidableEq

/-- An open file of a process. -/
structure OpenFile where
  target : Target
  offset : UInt32
  readble : Bool
  writable : Bool
  deriving DecidableEq

/-- A descriptor that is not in use. -/
def closedFile : OpenFile := ⟨.empty, 0, false, false⟩

/-- A process: its open files, and the folder that it works in. -/
structure Desk where
  files : Fin MAX_OPEN_FILES → OpenFile
  folder : Nat

/-- The processes over the store. -/
structure Desks where
  store : FsStore
  live : Finset ProcPtr
  desk : ProcPtr → Desk

/-- Another file at a descriptor. -/
def Desk.setFile (k : Desk) (fd : Fin MAX_OPEN_FILES) (file : OpenFile) : Desk :=
  { k with files := Function.update k.files fd file }

/-- Another desk for a process. -/
def Desks.setDesk (a : Desks) (p : ProcPtr) (k : Desk) : Desks :=
  { a with desk := Function.update a.desk p k }

/-- The desk of a new process. -/
def newDesk (serial folder : Nat) : Desk where
  files fd :=
    if fd.val = 0 then ⟨.device serial, 0, true, false⟩
    else if fd.val ≤ 2 then ⟨.device serial, 0, false, true⟩
    else closedFile
  folder := folder

/-! ### The abstract calls -/

/-- What a call returns: the number, what dzFS returned for the path or the write, and the bytes of
a read. -/
structure Reply where
  result : Int
  out : OpenOut
  data : List UInt8

section
variable (a : Desks) (p : ProcPtr) (r : Reply)

/-- A process is started. It works where its parent does, or in the folder `root`. -/
def deskExec (root : Nat) (parent : Option ProcPtr) (child : ProcPtr) (serial : Nat) : Desks :=
  if r.result = 0 then
    { a with
      live := insert child a.live
      desk := Function.update a.desk child
        (newDesk serial ((parent.map fun q => (a.desk q).folder).getD root)) }
  else a

/-- An entity is opened. -/
def deskOpen (path : List UInt8) (flags : UInt32) : Desks :=
  let a := { a with store := storeOpen a.store path (fsFlags flags) r.out }
  match openFd r.result, r.out.dnode with
  | some fd, some dnode =>
    a.setDesk p ((a.desk p).setFile fd {
      target := .entity dnode
      offset := 0
      readble := flags &&& O_WRONLY = 0
      writable := flags &&& O_WRONLY ≠ 0 ∨ flags &&& O_RDWR ≠ 0 })
  | _, _ => a

/-- A device is opened. -/
def deskOpenDevice (device : Option Nat) (readble writable : Bool) : Desks :=
  match openFd r.result, device with
  | some fd, some device =>
    a.setDesk p ((a.desk p).setFile fd ⟨.device device, 0, readble, writable⟩)
  | _, _ => a

/-- A descriptor is closed, unless it is that of a device. -/
def deskClose (number : Int) : Desks :=
  match openFd number with
  | none => a
  | some fd =>
    match ((a.desk p).files fd).target with
    | .entity _ => a.setDesk p ((a.desk p).setFile fd closedFile)
    | _ => a

/-- A process works in another folder. -/
def deskChdir : Desks :=
  match r.out.dnode with
  | some dnode => if r.result = 0 then a.setDesk p { a.desk p with folder := dnode } else a
  | none => a

/-- The offset of a descriptor goes on by as many bytes as the call returns. -/
def deskAdvance (fd : Fin MAX_OPEN_FILES) : Desks :=
  if r.result < 0 then a
  else
    let file := (a.desk p).files fd
    a.setDesk p ((a.desk p).setFile fd { file with
      offset := file.offset + UInt32.ofNat r.result.toNat })

/-- A write to the entity of a descriptor. -/
def deskWrite (number : Int) (buffer : List UInt8) : Desks :=
  match openFd number with
  | none => a
  | some fd =>
    match ((a.desk p).files fd).target with
    | .entity dnode =>
      let offset := ((a.desk p).files fd).offset.toNat
      deskAdvance { a with store := storeWrite a.store dnode buffer offset r.out.result } p r fd
    | _ => a

/-- A read of the entity of a descriptor. -/
def deskRead (number : Int) : Desks :=
  match openFd number with
  | none => a
  | some fd =>
    match ((a.desk p).files fd).target with
    | .entity _ => deskAdvance a p r fd
    | _ => a

end

/-- What a call does to the processes and the store, by what it returns. -/
def deskStep (root : Nat) (a : Desks) (r : Reply) : FileCall → Desks
  | .exec parent child _ _ serial _ => deskExec a r root parent child serial
  | .exit p => { a with live := a.live.erase p }
  | .open p path flags _ => deskOpen a p r path flags
  | .openDevice p device readble writable => deskOpenDevice a p r device readble writable
  | .close p number => deskClose a p number
  | .chdir p _ _ => deskChdir a p r
  | .mkdir _ path _ =>
    { a with store := storeOpen a.store path (DZFS_O_CREATE ||| DZFS_O_DIR) r.out }
  | .unlink _ _ _ =>
    match r.out.dnode with
    | some dnode => if r.result = 0 then { a with store := a.store.remove dnode } else a
    | none => a
  | .write p number buffer _ => deskWrite a p r number buffer
  | .read p number _ _ => deskRead a p r number

/-! ### The calls of dzFS -/

/-- The descriptor and the inode of a read or a write that reaches dzFS. -/
def ioTarget (s : FileState) (p : ProcPtr) (number : Int) (allowed : ProcessFile → Bool) :
    Option (Fin MAX_OPEN_FILES × InodePtr) :=
  match openFd number with
  | none => none
  | some fd =>
    match (s.file p fd).kind with
    | .FD_INODE i => if allowed (s.file p fd) then some (fd, i) else none
    | _ => none

/-- The target of `sys_write`. -/
def writeTarget (s : FileState) (p : ProcPtr) (number : Int) (buffer : List UInt8) :
    Option (Fin MAX_OPEN_FILES × InodePtr) :=
  ioTarget s p number fun file => buffer ≠ [] ∧ file.writable

/-- The target of `sys_read`. -/
def readTarget (s : FileState) (p : ProcPtr) (number : Int) (len : Nat) :
    Option (Fin MAX_OPEN_FILES × InodePtr) :=
  ioTarget s p number fun file => len ≠ 0 ∧ file.readble

/-- The dnode of an inode. -/
def dnodeAt (s : FileState) (i : InodePtr) : Nat := (s.vars.inodes i).dnode

/-- What dzFS finds for the path of a call. -/
def lookupOut (s : FileState) (p : ProcPtr) (path : List UInt8) (flags : UInt32) (date : UInt64) :
    OpenOut :=
  (dzfsOpenRelative s.vars.fs flags date path (dnodeAt s (s.wd p))).1

/-- The call of dzFS by which a system call changes the disk. An open without `DZFS_O_CREATE`
changes nothing, and neither does the deletion of the root folder. -/
def diskCall (s : FileState) : FileCall → Option Call
  | .open p path flags date =>
    if OpenRefused (s.procs p) flags then none
    else some (.openRelative path (dnodeAt s (s.wd p)) (fsFlags flags) date)
  | .mkdir p path date =>
    some (.openRelative path (dnodeAt s (s.wd p)) (DZFS_O_CREATE ||| DZFS_O_DIR) date)
  | .unlink p path date =>
    match lookupOut s p path 0 date with
    | ⟨.OK, some d, some parent⟩ =>
      if d = s.vars.fs.rootDnode then none else some (.delete d parent)
    | _ => none
  | .write p number buffer _ =>
    (writeTarget s p number buffer).map fun t =>
      .write (dnodeAt s t.2) buffer (s.file p t.1).offset.toNat
  | _ => none

/-- The disk after the call of dzFS, if there is one. -/
def afterDisk (d : FsState) : Option Call → FsState
  | none => d
  | some c => exec d c

/-- The store after the call of dzFS, if there is one. -/
def afterStore (t : FsStore) (d : FsState) : Option Call → FsStore
  | none => t
  | some c => storeStep t (outcome d c) c

/-- The path that a call may create. -/
def newPath : FileCall → Option (List UInt8)
  | .open _ path _ _ => some path
  | .mkdir _ path _ => some path
  | _ => none

/-- What the calls of a run have to meet: a path that may be created is a string whose parts are
names, the data of a write is in memory, `chdir` does not lead to a file, and an entity that is
deleted is not open. -/
def CallOk (s : FileState) (c : FileCall) : Prop :=
  (∀ path ∈ newPath c, 0 ∉ path ∧ Fits path) ∧ (writtenData c).length < 2 ^ 63 ∧ ChdirOk s c ∧
    UnlinkOk s c

instance (s : FileState) (c : FileCall) : Decidable (CallOk s c) :=
  inferInstanceAs (Decidable (_ ∧ _ ∧ _ ∧ _))

/-! ### The replies -/

/-- dzFS is not called. -/
def noOut : OpenOut := ⟨.ERR_ARGUMENT, none, none⟩

/-- The result of a call that does not panic. -/
def okResult {X : Type} (out : Except String (Int × X)) : Int :=
  match out with
  | .ok (result, _) => result
  | .error _ => -1

/-- What dzFS returns for a write. -/
def writeOut (s : FileState) (p : ProcPtr) (number : Int) (buffer : List UInt8) : OpenOut :=
  match writeTarget s p number buffer with
  | none => noOut
  | some (fd, i) =>
    ⟨(dzfsWrite s.vars.fs (dnodeAt s i) buffer (s.file p fd).offset.toNat).1, none, none⟩

/-- The bytes of a read. -/
def readData (s : FileState) (p : ProcPtr) (number : Int) (len : Nat) : List UInt8 :=
  match readTarget s p number len with
  | none => []
  | some (fd, i) => (fsRead s.vars i len (s.file p fd).offset.toNat).2

/-- What a call returns in a state. `proc_exec` returns 0 here for a process that is started. -/
def reply (s : FileState) : FileCall → Reply
  | .exec parent _ path accepted serial date =>
    { result :=
        match procExecFiles s.vars path (parent.map s.wd) accepted serial date with
        | .ok (some _, _) => 0
        | _ => -1
      out := noOut
      data := [] }
  | .exit _ => ⟨0, noOut, []⟩
  | .open p path flags date =>
    ⟨okResult (sysOpen s.vars (s.procs p) path flags date),
      if OpenRefused (s.procs p) flags then noOut else lookupOut s p path (fsFlags flags) date, []⟩
  | .openDevice p device readble writable =>
    ⟨(deviceOpen (s.procs p) device readble writable).1, noOut, []⟩
  | .close p number => ⟨(sysClose s.vars (s.procs p) number).1, noOut, []⟩
  | .chdir p path date =>
    ⟨okResult (sysChdir s.vars (s.procs p) path date), lookupOut s p path DZFS_O_DIR date, []⟩
  | .mkdir p path date =>
    ⟨(fsMkdir s.vars path (s.wd p) date).1,
      lookupOut s p path (DZFS_O_CREATE ||| DZFS_O_DIR) date, []⟩
  | .unlink p path date => ⟨(fsDelete s.vars path (s.wd p) date).1, lookupOut s p path 0 date, []⟩
  | .write p number buffer deviceResult =>
    ⟨(sysWrite s.vars (s.procs p) number buffer deviceResult).1,
      writeOut s p number buffer, []⟩
  | .read p number len deviceResult =>
    ⟨(sysRead s.vars (s.procs p) number len deviceResult).1, noOut, readData s p number len⟩

/-- The desks after the calls of a run. -/
def deskRun (root : Nat) : FileState → Desks → List FileCall → Desks
  | _, a, [] => a
  | s, a, c :: calls =>
    deskRun root ((fileStep s c).getD s) (deskStep root a (reply s c) c) calls

/-! ### The abstraction -/

/-- A descriptor without its inode. -/
def fileOf (vars : FsVars) (file : ProcessFile) : OpenFile where
  target :=
    match file.kind with
    | .FD_EMPTY => .empty
    | .FD_INODE i => .entity (vars.inodes i).dnode
    | .FD_DEVICE device => .device device
  offset := file.offset
  readble := file.readble
  writable := file.writable

/-- A process without its inodes. -/
def deskOf (vars : FsVars) (p : FileProc) : Desk where
  files fd := fileOf vars (p.openFiles fd)
  folder := (vars.inodes p.workingDirectory).dnode

/-- The processes are those of the desks. -/
structure Implements (a : Desks) (s : FileState) : Prop where
  live : a.live = s.live
  desk : ∀ p ∈ s.live, a.desk p = deskOf s.vars (s.procs p)

/-! ### The disk -/

section
variable {s s' : FileState} {c : FileCall} {E : Finset Nat} {ls : Nat → List Nat} {p : ProcPtr}
  {lost : List InodePtr}

theorem FileWorld.wd_folder (h : FileWorld s lost E ls) (hp : p ∈ s.live) :
    IsFolder ⟨s.vars.fs, E⟩ (dnodeAt s (s.wd p)) := h.folder (h.wd p hp)

/-- An open without `DZFS_O_CREATE` leaves the disk as it is. -/
theorem fsOpen_plain {vars vars' : FsVars} (h : Tree vars.fs E ls) {rel : Option InodePtr}
    (hrel : relativeDnode vars rel ∈ E ∧
      entityType (vars.fs.disk (relativeDnode vars rel)) = DZFS_ENTITY_FOLDER) {flags : UInt32}
    {r : Option InodePtr} (hflags : flags &&& DZFS_O_CREATE = 0)
    (hopen : fsOpen vars path rel flags date = .ok (r, vars')) : vars'.fs = vars.fs := by
  rw [fsOpen_fs hopen]
  exact (h.open_plain hrel hflags
    (Prod.mk.eta (p := dzfsOpenRelative vars.fs flags date path _)).symm).1

/-- The folders that the path of an executable is relative to. -/
theorem FileWorld.parent_folder (h : FileWorld s lost E ls) {parent : Option ProcPtr}
    (hlive : ∀ p ∈ parent, p ∈ s.live) :
    ∀ i ∈ parent.map s.wd, (s.vars.inodes i).type = .DIRECTORY := by
  intro i hi
  obtain ⟨p, hp, rfl⟩ := Option.map_eq_some_iff.mp hi
  exact h.wd p (hlive p hp)

/-- The caller of a call that returns is live. -/
theorem fileStep_caller (h : fileStep s c = some s') : ∀ p ∈ c.caller, p ∈ s.live := by
  intro p hp
  by_contra hlive
  unfold fileStep at h
  rw [if_pos ⟨p, hp, hlive⟩] at h
  cases h

theorem fileStep_called (h : fileStep s c = some s') : ¬ ∃ p ∈ c.caller, p ∉ s.live :=
  fun ⟨p, hp, hno⟩ => hno (fileStep_caller h p hp)

/-! ### Reads and writes -/

section
variable {number : Int} {buffer : List UInt8} {len : Nat} (deviceResult : Int)
  {fd : Fin MAX_OPEN_FILES} {i : InodePtr} {allowed : ProcessFile → Bool}

theorem ioTarget_eq_some : ioTarget s p number allowed = some (fd, i) ↔
    openFd number = some fd ∧ (s.file p fd).kind = .FD_INODE i ∧ allowed (s.file p fd) = true := by
  constructor
  · intro h
    unfold ioTarget at h
    split at h
    · cases h
    · rename_i fd' hfd
      split at h
      · rename_i j hkind
        rw [Option.ite_none_right_eq_some] at h
        obtain ⟨hallowed, heq⟩ := h
        cases heq
        exact ⟨hfd, hkind, hallowed⟩
      · cases h
  · rintro ⟨hfd, hkind, hallowed⟩
    simp only [ioTarget, hfd, hkind, hallowed, if_true]

/-- A write without a target changes nothing. -/
theorem sysWrite_idle (h : writeTarget s p number buffer = none) :
    (sysWrite s.vars (s.procs p) number buffer deviceResult).2 = (s.vars, s.procs p) := by
  unfold sysWrite
  split
  · rfl
  · rename_i fd hfd
    simp only
    split
    · rfl
    · rename_i hbuffer
      split
      · rfl
      · rename_i hwritable
        split
        · rfl
        · rename_i i hkind
          have hsome : writeTarget s p number buffer = some (fd, i) :=
            ioTarget_eq_some.mpr ⟨hfd, hkind, by simpa [FileState.file, hbuffer] using hwritable⟩
          rw [h] at hsome
          cases hsome
        · rfl

/-- A write with a target is that of `fs_write`, and the offset goes on if it returns. -/
theorem sysWrite_target (h : writeTarget s p number buffer = some (fd, i)) :
    sysWrite s.vars (s.procs p) number buffer deviceResult =
      ((fsWrite s.vars i buffer (s.file p fd).offset.toNat).1,
        (fsWrite s.vars i buffer (s.file p fd).offset.toNat).2,
        if (fsWrite s.vars i buffer (s.file p fd).offset.toNat).1 < 0 then s.procs p
        else (s.procs p).setFile fd { s.file p fd with
          offset := (s.file p fd).offset +
            UInt32.ofNat (fsWrite s.vars i buffer (s.file p fd).offset.toNat).1.toNat }) := by
  obtain ⟨hfd, hkind, hallowed⟩ := ioTarget_eq_some.mp h
  obtain ⟨hbuffer, hwritable⟩ : buffer ≠ [] ∧ (s.file p fd).writable = true := by
    simpa using hallowed
  unfold FileState.file at hkind hwritable ⊢
  unfold sysWrite
  simp only [hfd, hkind, if_neg hbuffer, hwritable, Bool.not_true, Bool.false_eq_true, if_false]
  split
  · rfl
  · rfl

/-- A read without a target changes nothing. -/
theorem sysRead_idle (h : readTarget s p number len = none) :
    (sysRead s.vars (s.procs p) number len deviceResult).2 = s.procs p := by
  unfold sysRead
  split
  · rfl
  · rename_i fd hfd
    simp only
    split
    · rfl
    · rename_i hlen
      split
      · rfl
      · rename_i hreadble
        split
        · rfl
        · rename_i i hkind
          have hsome : readTarget s p number len = some (fd, i) :=
            ioTarget_eq_some.mpr ⟨hfd, hkind, by simpa [FileState.file, hlen] using hreadble⟩
          rw [h] at hsome
          cases hsome
        · rfl

/-- A read with a target is that of `fs_read`, and the offset goes on if it returns. -/
theorem sysRead_target (h : readTarget s p number len = some (fd, i)) :
    sysRead s.vars (s.procs p) number len deviceResult =
      ((fsRead s.vars i len (s.file p fd).offset.toNat).1,
        if (fsRead s.vars i len (s.file p fd).offset.toNat).1 < 0 then s.procs p
        else (s.procs p).setFile fd { s.file p fd with
          offset := (s.file p fd).offset +
            UInt32.ofNat (fsRead s.vars i len (s.file p fd).offset.toNat).1.toNat }) := by
  obtain ⟨hfd, hkind, hallowed⟩ := ioTarget_eq_some.mp h
  obtain ⟨hlen, hreadble⟩ : len ≠ 0 ∧ (s.file p fd).readble = true := by simpa using hallowed
  unfold FileState.file at hkind hreadble ⊢
  unfold sysRead
  simp only [hfd, hkind, if_neg hlen, hreadble, Bool.not_true, Bool.false_eq_true, if_false]
  split
  · rfl
  · rfl

end

/-- What `unlink` finds: nothing, or an entity in its folder. -/
theorem lookup_unlink (hs : FileWorld s lost E ls) (hp : p ∈ s.live) (path : List UInt8)
    (date : UInt64) :
    (dzfsOpenRelative s.vars.fs 0 date path (dnodeAt s (s.wd p))).2 = s.vars.fs ∧
      ((lookupOut s p path 0 date).result ≠ .OK ∨
        ∃ d parent, lookupOut s p path 0 date = ⟨.OK, some d, some parent⟩ ∧
          (d = s.vars.fs.rootDnode ∨ InFolder s.vars.fs E ls d parent)) := by
  have hplain : (0 : UInt32) &&& DZFS_O_CREATE = 0 := by decide
  obtain ⟨hfs, ⟨-, hfail⟩ | ⟨d, parent, -, hout, -, hplace⟩⟩ :=
    hs.open_plain (hs.wd_folder hp) hplain
      (Prod.mk.eta (p := dzfsOpenRelative s.vars.fs 0 date path _)).symm
  · exact ⟨hfs, Or.inl hfail⟩
  · exact ⟨hfs, Or.inr ⟨d, parent, hout, hplace⟩⟩

theorem diskCall_unlink_failed (h : (lookupOut s p path 0 date).result ≠ .OK) :
    diskCall s (.unlink p path date) = none := by
  simp only [diskCall]
  split
  · rename_i heq
    exact absurd (congrArg OpenOut.result heq) h
  · rfl

theorem diskCall_unlink_found (h : lookupOut s p path 0 date = ⟨.OK, some d, some parent⟩) :
    diskCall s (.unlink p path date) =
      if d = s.vars.fs.rootDnode then none else some (.delete d parent) := by
  simp only [diskCall, h]

/-- `fs_delete` when the path leads nowhere. -/
theorem fsDelete_failed (h : (lookupOut s p path 0 date).result ≠ .OK) :
    fsDelete s.vars path (s.wd p) date =
      (-1, { s.vars with
        fs := (dzfsOpenRelative s.vars.fs 0 date path (dnodeAt s (s.wd p))).2 }) := by
  unfold fsDelete
  simp only
  split
  · rename_i hout _ _
    exact absurd hout h
  · rfl

/-- `fs_delete` of an entity in its folder. -/
theorem fsDelete_found (h : lookupOut s p path 0 date = ⟨.OK, some d, some parent⟩)
    (hfs : (dzfsOpenRelative s.vars.fs 0 date path (dnodeAt s (s.wd p))).2 = s.vars.fs) :
    fsDelete s.vars path (s.wd p) date =
      (if (dzfsDelete s.vars.fs d parent).1 = .OK then 0 else -1,
        { s.vars with fs := (dzfsDelete s.vars.fs d parent).2 }) := by
  unfold lookupOut dnodeAt at h
  unfold dnodeAt at hfs
  simp only [fsDelete, h, hfs]

/-- `fs_delete` changes the disk as `dzfs_delete` does, and not for the root folder. -/
theorem fsDelete_disk (hs : FileWorld s lost E ls) (hp : p ∈ s.live) (path : List UInt8)
    (date : UInt64) : (fsDelete s.vars path (s.wd p) date).2.fs =
      (afterDisk ⟨s.vars.fs, E⟩ (diskCall s (.unlink p path date))).fs := by
  obtain ⟨hfs, hfail | ⟨d, parent, hout, -⟩⟩ := lookup_unlink hs hp path date
  · rw [fsDelete_failed hfail, diskCall_unlink_failed hfail]
    exact hfs
  · rw [fsDelete_found hout hfs, diskCall_unlink_found hout]
    by_cases hroot : d = s.vars.fs.rootDnode
    · rw [if_pos hroot]
      exact (dzfsDelete_refused (Or.inl hroot)).2
    · rw [if_neg hroot]
      rfl

/-- The disk after a system call is that after its call of dzFS. -/
theorem fileStep_disk (hs : FileWorld s lost E ls) (h : fileStep s c = some s') :
    s'.vars.fs = (afterDisk ⟨s.vars.fs, E⟩ (diskCall s c)).fs := by
  have hcaller := fileStep_called h
  have hstep := fileStep_cases h
  have h₀ := h
  cases c with
  | exec parent child path accepted serial date =>
    show s'.vars.fs = s.vars.fs
    cases hstep with
    | idle => rfl
    | execFailed hlive hopen =>
      exact fsOpen_plain hs.toTree (hs.relative (hs.parent_folder hlive)) (by decide) hopen
    | execRejected hlive hopen =>
      rw [fsClose_fs]
      exact fsOpen_plain hs.toTree (hs.relative (hs.parent_folder hlive)) (by decide) hopen
    | execChild hlive _ _ hopen =>
      rw [fsDup_fs, fsClose_fs]
      have hparent : ∀ q ∈ some _, q ∈ s.live := fun q hq => Option.some.inj hq ▸ hlive
      exact fsOpen_plain hs.toTree (hs.relative (hs.parent_folder hparent)) (by decide) hopen
    | @execFirst _ _ _ _ vars vars' i j _ _ hopen hroot =>
      have hfs : (fsClose vars i).fs = s.vars.fs := by
        rw [fsClose_fs]
        have hparent : ∀ q ∈ (none : Option ProcPtr), q ∈ s.live := fun q hq => nomatch hq
        exact fsOpen_plain hs.toTree (hs.relative (hs.parent_folder hparent)) (by decide) hopen
      rw [← hfs]
      have htree : Tree (fsClose vars i).fs E ls := hfs ▸ hs.toTree
      have hrel : relativeDnode (fsClose vars i) none ∈ E ∧
          entityType ((fsClose vars i).fs.disk (relativeDnode (fsClose vars i) none)) =
            DZFS_ENTITY_FOLDER := ⟨htree.root_mem, htree.root_folder⟩
      exact fsOpen_plain htree hrel (by decide) hroot
  | exit p =>
    cases hstep with
    | idle => rfl
    | exit => exact closeFiles_fs _ _ _
  | «open» p path flags date =>
    cases hstep with
    | idle hno =>
      have hrefused : OpenRefused (s.procs p) flags := by
        by_contra htried
        rw [openCall, if_neg htried] at hno
        cases hno
      simp only [diskCall, if_pos hrefused, afterDisk]
    | openFailed _ htried hopen =>
      simp only [diskCall, if_neg htried, afterDisk, exec]
      exact fsOpen_fs hopen
    | opened _ htried _ _ hopen =>
      simp only [diskCall, if_neg htried, afterDisk, exec]
      exact fsOpen_fs hopen
  | openDevice p device readble writable =>
    cases hstep with
    | idle => rfl
    | openedDevice => rfl
  | close p number =>
    cases hstep with
    | idle => rfl
    | closed => exact fsClose_fs _ _
  | chdir p path date =>
    show s'.vars.fs = s.vars.fs
    have hfolder : ∀ i ∈ some (s.wd p), (s.vars.inodes i).type = .DIRECTORY := by
      intro i hi
      rw [← Option.some.inj hi]
      exact hs.wd p (fileStep_caller h p rfl)
    cases hstep with
    | idle => rfl
    | chdirFailed hlive hopen =>
      exact fsOpen_plain hs.toTree (hs.relative hfolder) (by decide) hopen
    | chdir hlive hopen =>
      show (fsClose _ _).fs = _
      rw [fsClose_fs]
      exact fsOpen_plain hs.toTree (hs.relative hfolder) (by decide) hopen
  | mkdir p path date =>
    rw [fileStep, if_neg hcaller] at h
    cases h
    rfl
  | unlink p path date =>
    rw [fileStep, if_neg hcaller] at h
    cases h
    show (fsDelete s.vars path (s.wd p) date).2.fs = _
    exact fsDelete_disk hs (fileStep_caller h₀ p rfl) path date
  | write p number buffer deviceResult =>
    rw [fileStep, if_neg hcaller] at h
    cases h
    show (sysWrite s.vars (s.procs p) number buffer deviceResult).2.1.fs = _
    simp only [diskCall]
    cases htarget : writeTarget s p number buffer with
    | none =>
      rw [sysWrite_idle deviceResult htarget]
      rfl
    | some t =>
      obtain ⟨fd, i⟩ := t
      obtain ⟨size, hfs⟩ := fsWrite_snd s.vars i buffer (s.file p fd).offset.toNat
      rw [sysWrite_target deviceResult htarget]
      exact congrArg FsVars.fs hfs
  | read p number len deviceResult =>
    cases hstep with
    | idle => rfl
    | read => rfl

/-! ### The calls are sound -/

/-- The call of dzFS is a sound one that keeps the tree. -/
theorem diskCall_sound (hs : FileWorld s lost E ls) (h : fileStep s c = some s')
    (hc : CallOk s c) : ∀ call ∈ diskCall s c,
      Sound ⟨s.vars.fs, E⟩ call ∧ TreeOk ⟨s.vars.fs, E⟩ call := by
  intro call hcall
  obtain ⟨hpath, hdata, -, -⟩ := hc
  have hlive := fileStep_caller h
  -- An open or a `mkdir` of a process that works in a folder.
  have hcreate : ∀ (p : ProcPtr) (path : List UInt8) (flags : UInt32) (date : UInt64),
      p ∈ s.live → 0 ∉ path ∧ Fits path →
      Sound ⟨s.vars.fs, E⟩ (.openRelative path (dnodeAt s (s.wd p)) flags date) ∧
        TreeOk ⟨s.vars.fs, E⟩ (.openRelative path (dnodeAt s (s.wd p)) flags date) := by
    intro p path flags date hp hfits
    have hrel := hs.wd_folder hp
    have hdots : ∀ f ∈ upFolders s.vars.fs path (dnodeAt s (s.wd p)), IsFolder ⟨s.vars.fs, E⟩ f :=
      upFolders_of_goUp (P := fun f => IsFolder ⟨s.vars.fs, E⟩ f) (fun f hf => hs.goUp_folder hf)
        ⟨hs.root_mem, hs.root_folder⟩ hrel
    exact ⟨⟨⟨hrel, hfits.2⟩, hdots, hfits.1⟩, hrel, hfits.2.newNameFits⟩
  cases c with
  | «open» p path flags date =>
    simp only [diskCall] at hcall
    split at hcall
    · cases hcall
    · obtain rfl := Option.some.inj hcall
      exact hcreate p path _ date (hlive p rfl) (hpath path rfl)
  | mkdir p path date =>
    obtain rfl := Option.some.inj hcall
    exact hcreate p path _ date (hlive p rfl) (hpath path rfl)
  | unlink p path date =>
    obtain ⟨-, hfail | ⟨d, parent, hout, hplace⟩⟩ := lookup_unlink hs (hlive p rfl) path date
    · rw [diskCall_unlink_failed hfail] at hcall
      cases hcall
    · rw [diskCall_unlink_found hout] at hcall
      split at hcall
      · cases hcall
      · rename_i hroot
        obtain rfl := Option.some.inj hcall
        have hin := hplace.resolve_left hroot
        have hfolder : IsFolder ⟨s.vars.fs, E⟩ parent := ⟨hin.mem, hin.folder⟩
        have hlisted := (hs.toInv.listedIn_iff hfolder (s := ⟨s.vars.fs, E⟩)).mpr hin.listed
        exact ⟨⟨⟨hfolder, hlisted⟩, trivial, trivial⟩, hfolder, hlisted⟩
  | write p number buffer deviceResult =>
    obtain ⟨⟨fd, i⟩, htarget, rfl⟩ := Option.map_eq_some_iff.mp hcall
    obtain ⟨-, hkind, -⟩ := ioTarget_eq_some.mp htarget
    have hused := hs.toLeaky.used (o := some fd) (hlive p rfl) (fileInode_of_kind hkind)
    have hmem : dnodeAt s i ∈ E := hs.mem i hused
    have hoffset := (s.file p fd).offset.toNat_lt
    have hlt : buffer.length + (s.file p fd).offset.toNat < 2 ^ 64 := by
      change buffer.length < 2 ^ 63 at hdata
      omega
    exact ⟨⟨hlt, hmem, trivial⟩, hmem, hlt⟩
  | _ => cases hcall

/-- The conditions of a call, for the invariant of the inodes. -/
theorem CallOk.names (hc : CallOk s c) :
    ∀ o ∈ openCall s c, NewNameFits s.vars.fs o.1 o.2.1 o.2.2 := by
  intro o ho
  have hplain : (0 : UInt32) &&& DZFS_O_CREATE = 0 := by decide
  have hfolder : DZFS_O_DIR &&& DZFS_O_CREATE = 0 := by decide
  cases c with
  | «open» p path flags date =>
    simp only [openCall] at ho
    split at ho
    · cases ho
    · obtain rfl := Option.some.inj ho
      exact (hc.1 path rfl).2.newNameFits
  | mkdir p path date =>
    obtain rfl := Option.some.inj ho
    exact (hc.1 path rfl).2.newNameFits
  | exec parent child path accepted serial date =>
    obtain rfl := Option.some.inj ho
    exact newNameFits_plain hplain
  | chdir p path date =>
    obtain rfl := Option.some.inj ho
    exact newNameFits_plain hfolder
  | unlink p path date =>
    obtain rfl := Option.some.inj ho
    exact newNameFits_plain hplain
  | _ => cases ho

/-! ### The store -/

variable {a : Desks} {r : Reply}

@[simp] theorem setDesk_store (k : Desk) : (a.setDesk p k).store = a.store := rfl

theorem deskOpen_store (path : List UInt8) (flags : UInt32) :
    (deskOpen a p r path flags).store = storeOpen a.store path (fsFlags flags) r.out := by
  unfold deskOpen
  simp only
  split
  · rfl
  · rfl

theorem deskAdvance_store (fd : Fin MAX_OPEN_FILES) : (deskAdvance a p r fd).store = a.store := by
  unfold deskAdvance
  split
  · rfl
  · rfl

/-- What a descriptor of an inode is open for. -/
theorem Implements.target (ha : Implements a s) (hp : p ∈ s.live) {fd : Fin MAX_OPEN_FILES}
    {i : InodePtr} (hkind : (s.file p fd).kind = .FD_INODE i) :
    ((a.desk p).files fd).target = .entity (dnodeAt s i) := by
  rw [ha.desk p hp]
  simp only [deskOf, fileOf]
  rw [show ((s.procs p).openFiles fd).kind = .FD_INODE i from hkind]
  rfl

theorem Implements.offset (ha : Implements a s) (hp : p ∈ s.live) (fd : Fin MAX_OPEN_FILES) :
    ((a.desk p).files fd).offset = (s.file p fd).offset := by
  rw [ha.desk p hp]
  rfl

/-- The abstract call does to the store what the call of dzFS does. -/
theorem deskStep_store (hs : FileWorld s lost E ls) (ha : Implements a s)
    (h : fileStep s c = some s') (root : Nat) :
    (deskStep root a (reply s c) c).store = afterStore a.store ⟨s.vars.fs, E⟩ (diskCall s c) := by
  have hlive := fileStep_caller h
  cases c with
  | exec parent child path accepted serial date =>
    simp only [deskStep, deskExec]
    split
    · rfl
    · rfl
  | exit p => rfl
  | «open» p path flags date =>
    simp only [deskStep, deskOpen_store, reply, diskCall]
    split
    · rfl
    · rfl
  | openDevice p device readble writable =>
    simp only [deskStep, deskOpenDevice]
    split
    · rfl
    · rfl
  | close p number =>
    simp only [deskStep, deskClose]
    split
    · rfl
    · split
      · rfl
      · rfl
  | chdir p path date =>
    simp only [deskStep, deskChdir]
    split
    · split
      · rfl
      · rfl
    · rfl
  | mkdir p path date => rfl
  | unlink p path date =>
    obtain ⟨hfs, hfail | ⟨d, parent, hout, -⟩⟩ := lookup_unlink hs (hlive p rfl) path date
    · rw [diskCall_unlink_failed hfail]
      simp only [deskStep, reply, fsDelete_failed hfail]
      split
      · rfl
      · rfl
    · rw [diskCall_unlink_found hout]
      simp only [deskStep, reply, fsDelete_found hout hfs, hout]
      by_cases hroot : d = s.vars.fs.rootDnode
      · rw [if_pos hroot, if_neg (dzfsDelete_refused (Or.inl hroot)).1]
        rfl
      · rw [if_neg hroot]
        show _ = storeDelete a.store d (dzfsDelete s.vars.fs d parent).1
        by_cases hok : (dzfsDelete s.vars.fs d parent).1 = .OK
        · rw [if_pos hok, storeDelete, if_pos hok]
          rfl
        · rw [if_neg hok, storeDelete, if_neg hok]
          rfl
  | write p number buffer deviceResult =>
    simp only [deskStep, deskWrite, reply, writeOut, diskCall]
    cases htarget : writeTarget s p number buffer with
    | none =>
      split
      · rfl
      · split
        · rw [deskAdvance_store]
          rfl
        · rfl
    | some t =>
      obtain ⟨fd, i⟩ := t
      obtain ⟨hfd, hkind, -⟩ := ioTarget_eq_some.mp htarget
      simp only [hfd, ha.target (hlive p rfl) hkind, ha.offset (hlive p rfl), deskAdvance_store]
      rfl
  | read p number len deviceResult =>
    simp only [deskStep, deskRead]
    split
    · rfl
    · split
      · rw [deskAdvance_store]
        rfl
      · rfl

end

end DzOS.Proofs.Fs
