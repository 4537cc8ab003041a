import DzOS.Fs.Fs
import DzOS.Sched.Scheduler

/-!
# `DzOS.Fs.File`: the files of the processes, `file.c` and `syscall.c`

A process has a table of descriptors and a working directory. The system calls here are those
that work on files. Their user pointers are valid, so a path is the copy that
`validate_user_string` made, and the data of a write is what the pointer leads to. The return
value of a device's functions is an argument, since they change no file.

`procExecFiles` and `procExit` are what `proc_exec` and `proc_exit` do to the files.
-/

set_option autoImplicit false

namespace DzOS.Fs

open DzOS.Sched

/-- `MAX_OPEN_FILES`. -/
def MAX_OPEN_FILES : Nat := 8

/-- `O_WRONLY`. -/
def O_WRONLY : UInt32 := 0o1

/-- `O_RDWR`. -/
def O_RDWR : UInt32 := 0o2

/-- `O_CREAT`. -/
def O_CREAT : UInt32 := 0o100

/-- `O_TRUNC`. -/
def O_TRUNC : UInt32 := 0o1000

/-- `O_APPEND`. -/
def O_APPEND : UInt32 := 0o2000

/-- `O_DEVICE`. -/
def O_DEVICE : UInt32 := 0o4000

/-- `O_DIR`. -/
def O_DIR : UInt32 := 0o10000

/-- The field `type` of a descriptor, with the member of the union that belongs to it. -/
inductive FileKind where
  | FD_EMPTY
  | FD_INODE (inode : InodePtr)
  | FD_DEVICE (device : Nat)
  deriving DecidableEq, Repr

/-- `struct process_file`. -/
structure ProcessFile where
  kind : FileKind
  offset : UInt32
  readble : Bool
  writable : Bool
  deriving DecidableEq, Repr

/-- An unused descriptor. -/
def ProcessFile.zero : ProcessFile where
  kind := .FD_EMPTY
  offset := 0
  readble := false
  writable := false

/-- `open_files` and `working_directory` of a process. -/
structure FileProc where
  openFiles : Fin MAX_OPEN_FILES → ProcessFile
  workingDirectory : InodePtr

/-- A write to one descriptor. -/
def FileProc.setFile (p : FileProc) (fd : Fin MAX_OPEN_FILES) (file : ProcessFile) : FileProc :=
  { p with openFiles := Function.update p.openFiles fd file }

/-- `proc_allocate_fd`, with `none` for -1. -/
def procAllocateFd (p : FileProc) : Option (Fin MAX_OPEN_FILES) :=
  (List.finRange MAX_OPEN_FILES).find? fun fd => (p.openFiles fd).kind = .FD_EMPTY

/-- The flags of `fs_open` for the flags of an open. -/
def fsFlags (flags : UInt32) : UInt32 :=
  let fsFlags := if flags &&& O_CREAT ≠ 0 then DZFS_O_CREATE else 0
  if flags &&& O_DIR ≠ 0 then fsFlags ||| DZFS_O_DIR else fsFlags

/-- `file_open`. -/
def fileOpen (s : FsVars) (p : FileProc) (path : List UInt8) (flags : UInt32) (date : UInt64) :
    Except String (Int × FsVars × FileProc) :=
  match procAllocateFd p with
  | none => .ok (-1, s, p)
  | some fd =>
    match fsOpen s path (some p.workingDirectory) (fsFlags flags) date with
    | .error e => .error e
    | .ok (none, s) => .ok (-1, s, p)
    | .ok (some inode, s) =>
      .ok (fd, s, p.setFile fd {
        kind := .FD_INODE inode
        offset := 0
        readble := flags &&& O_WRONLY = 0
        writable := flags &&& O_WRONLY ≠ 0 ∨ flags &&& O_RDWR ≠ 0 })

/-- `device_open` for the device with the index `deviceIndex`, which can be read and written as
the two flags say. The index is `none` when there is no such device. -/
def deviceOpen (p : FileProc) (deviceIndex : Option Nat) (readble writable : Bool) :
    Int × FileProc :=
  match deviceIndex with
  | none => (-1, p)
  | some device =>
    match procAllocateFd p with
    | none => (-1, p)
    | some fd => (fd, p.setFile fd ⟨.FD_DEVICE device, 0, readble, writable⟩)

/-- The flags that `sys_open` knows. -/
def OPEN_FLAGS : UInt32 := O_WRONLY ||| O_RDWR ||| O_CREAT ||| O_TRUNC ||| O_APPEND ||| O_DEVICE ||| O_DIR

/-- `sys_open` of a file or a folder. -/
def sysOpen (s : FsVars) (p : FileProc) (path : List UInt8) (flags : UInt32) (date : UInt64) :
    Except String (Int × FsVars × FileProc) :=
  if flags &&& ~~~OPEN_FLAGS ≠ 0 then .ok (-1, s, p) else fileOpen s p path flags date

/-- The descriptor of a number. The source also lets the number 8 pass, which is the memory
behind the table: the low half of `initial_data_segment`. That is a multiple of the page size,
so its type is `FD_EMPTY` or no type, and the call returns -1 like one with an unused
descriptor. -/
def openFd (fd : Int) : Option (Fin MAX_OPEN_FILES) :=
  if h : 0 ≤ fd ∧ fd < MAX_OPEN_FILES then some ⟨fd.toNat, by omega⟩ else none

/-- `sys_close`. -/
def sysClose (s : FsVars) (p : FileProc) (fd : Int) : Int × FsVars × FileProc :=
  match openFd fd with
  | none => (-1, s, p)
  | some fd =>
    match (p.openFiles fd).kind with
    | .FD_EMPTY => (-1, s, p)
    | .FD_INODE inode => (0, fsClose s inode, p.setFile fd ProcessFile.zero)
    | .FD_DEVICE _ => (0, s, p)

/-- `sys_write`. A pointer to no data is not valid. `deviceResult` is what a device returns. -/
def sysWrite (s : FsVars) (p : FileProc) (fd : Int) (buffer : List UInt8) (deviceResult : Int) :
    Int × FsVars × FileProc :=
  match openFd fd with
  | none => (-1, s, p)
  | some fd =>
    let file := p.openFiles fd
    if buffer = [] then (-1, s, p)
    else if !file.writable then (-1, s, p)
    else
      match file.kind with
      | .FD_EMPTY => (-1, s, p)
      | .FD_INODE inode =>
        let (result, s) := fsWrite s inode buffer file.offset.toNat
        if result < 0 then (result, s, p)
        else
          (result, s, p.setFile fd { file with
            offset := file.offset + UInt32.ofNat result.toNat })
      | .FD_DEVICE _ => (deviceResult, s, p)

/-- `sys_read`. -/
def sysRead (s : FsVars) (p : FileProc) (fd : Int) (len : Nat) (deviceResult : Int) :
    Int × FileProc :=
  match openFd fd with
  | none => (-1, p)
  | some fd =>
    let file := p.openFiles fd
    if len = 0 then (-1, p)
    else if !file.readble then (-1, p)
    else
      match file.kind with
      | .FD_EMPTY => (-1, p)
      | .FD_INODE inode =>
        let (result, _) := fsRead s inode len file.offset.toNat
        if result < 0 then (result, p)
        else
          (result, p.setFile fd { file with
            offset := file.offset + UInt32.ofNat result.toNat })
      | .FD_DEVICE _ => (deviceResult, p)

/-- `sys_chdir`. -/
def sysChdir (s : FsVars) (p : FileProc) (directory : List UInt8) (date : UInt64) :
    Except String (Int × FsVars × FileProc) :=
  match fsOpen s directory (some p.workingDirectory) DZFS_O_DIR date with
  | .error e => .error e
  | .ok (none, s) => .ok (-1, s, p)
  | .ok (some newChdir, s) =>
    .ok (0, fsClose s p.workingDirectory, { p with workingDirectory := newChdir })

/-- The descriptors of a new process: the three standard ones are the serial port. -/
def standardFiles (serial : Nat) (fd : Fin MAX_OPEN_FILES) : ProcessFile :=
  if fd.val = 0 then ⟨.FD_DEVICE serial, 0, true, false⟩
  else if fd.val ≤ 2 then ⟨.FD_DEVICE serial, 0, false, true⟩
  else ProcessFile.zero

/-- What `proc_exec` does to the files: the executable at `path` is opened and closed again. A
program that is `accepted` gets the working directory of its parent, or the root folder for
`NULL`. The result is `none` for -1. -/
def procExecFiles (s : FsVars) (path : List UInt8) (workingDirectory : Option InodePtr)
    (accepted : Bool) (serial : Nat) (date : UInt64) :
    Except String (Option FileProc × FsVars) :=
  match fsOpen s path workingDirectory 0 date with
  | .error e => .error e
  | .ok (none, s) => .ok (none, s)
  | .ok (some procInode, s) =>
    let s := fsClose s procInode
    if !accepted then .ok (none, s)
    else
      match workingDirectory with
      | some i => .ok (some ⟨standardFiles serial, i⟩, fsDup s i)
      | none =>
        match fsOpen s [SLASH] none DZFS_O_DIR date with
        | .error e => .error e
        | .ok (none, _) => .error "exec: NULL working directory"
        | .ok (some i, s) => .ok (some ⟨standardFiles serial, i⟩, s)

/-- The loop of `proc_exit` that closes the files. -/
def closeFiles (p : FileProc) : List (Fin MAX_OPEN_FILES) → FsVars → FsVars
  | [], s => s
  | fd :: rest, s =>
    match (p.openFiles fd).kind with
    | .FD_INODE inode => closeFiles p rest (fsClose s inode)
    | _ => closeFiles p rest s

/-- What `proc_exit` does to the files. -/
def procExit (s : FsVars) (p : FileProc) : FsVars := closeFiles p (List.finRange MAX_OPEN_FILES) s

/-! ### The system -/

/-- The files of the live processes. -/
structure FileState where
  vars : FsVars
  live : Finset ProcPtr
  procs : ProcPtr → FileProc

/-- The inode of the working directory of a process. -/
def FileState.wd (s : FileState) (p : ProcPtr) : InodePtr := (s.procs p).workingDirectory

/-- A descriptor of a process. -/
def FileState.file (s : FileState) (p : ProcPtr) (fd : Fin MAX_OPEN_FILES) : ProcessFile :=
  (s.procs p).openFiles fd

/-- The state after a call of the process `p`. -/
def FileState.afterCall (s : FileState) (p : ProcPtr) (vars : FsVars) (proc : FileProc) :
    FileState :=
  { s with vars := vars, procs := Function.update s.procs p proc }

/-- The calls. `exec` starts the process `child`, and its `parent` is `none` for the first
process of the system. -/
inductive FileCall where
  | exec (parent : Option ProcPtr) (child : ProcPtr) (path : List UInt8) (accepted : Bool)
      (serial : Nat) (date : UInt64)
  | exit (p : ProcPtr)
  | open (p : ProcPtr) (path : List UInt8) (flags : UInt32) (date : UInt64)
  | openDevice (p : ProcPtr) (deviceIndex : Option Nat) (readble writable : Bool)
  | close (p : ProcPtr) (fd : Int)
  | chdir (p : ProcPtr) (path : List UInt8) (date : UInt64)
  | mkdir (p : ProcPtr) (path : List UInt8) (date : UInt64)
  | unlink (p : ProcPtr) (path : List UInt8) (date : UInt64)
  | write (p : ProcPtr) (fd : Int) (buffer : List UInt8) (deviceResult : Int)
  | read (p : ProcPtr) (fd : Int) (len : Nat) (deviceResult : Int)

/-- The process that makes a call. -/
def FileCall.caller : FileCall → Option ProcPtr
  | .exec parent _ _ _ _ _ => parent
  | .exit p => some p
  | .open p _ _ _ => some p
  | .openDevice p _ _ _ => some p
  | .close p _ => some p
  | .chdir p _ _ => some p
  | .mkdir p _ _ => some p
  | .unlink p _ _ => some p
  | .write p _ _ _ => some p
  | .read p _ _ _ => some p

/-- One call of a live process, or `none` when it panics. A new process is in a free slot of
the table. -/
def fileStep (s : FileState) (c : FileCall) : Option FileState :=
  if ∃ p ∈ c.caller, p ∉ s.live then none
  else
    match c with
    | .exec parent child path accepted serial date =>
      if accepted ∧ (child ∈ s.live ∨ MAX_PROCESSES ≤ s.live.card) then none
      else
        match procExecFiles s.vars path (parent.map fun p => (s.procs p).workingDirectory)
            accepted serial date with
        | .error _ => none
        | .ok (none, vars) => some { s with vars := vars }
        | .ok (some proc, vars) =>
          some ⟨vars, insert child s.live, Function.update s.procs child proc⟩
    | .exit p => some { s with vars := procExit s.vars (s.procs p), live := s.live.erase p }
    | .open p path flags date =>
      match sysOpen s.vars (s.procs p) path flags date with
      | .error _ => none
      | .ok (_, vars, proc) => some (s.afterCall p vars proc)
    | .openDevice p deviceIndex readble writable =>
      some (s.afterCall p s.vars (deviceOpen (s.procs p) deviceIndex readble writable).2)
    | .close p fd =>
      let (_, vars, proc) := sysClose s.vars (s.procs p) fd
      some (s.afterCall p vars proc)
    | .chdir p path date =>
      match sysChdir s.vars (s.procs p) path date with
      | .error _ => none
      | .ok (_, vars, proc) => some (s.afterCall p vars proc)
    | .mkdir p path date =>
      some { s with vars := (fsMkdir s.vars path (s.procs p).workingDirectory date).2 }
    | .unlink p path date =>
      some { s with vars := (fsDelete s.vars path (s.procs p).workingDirectory date).2 }
    | .write p fd buffer deviceResult =>
      let (_, vars, proc) := sysWrite s.vars (s.procs p) fd buffer deviceResult
      some (s.afterCall p vars proc)
    | .read p fd len deviceResult =>
      some (s.afterCall p s.vars (sysRead s.vars (s.procs p) fd len deviceResult).2)

/-- The state before the first process: no inode is in use. -/
def FileState.boot (fs : Dzfs) (procs : ProcPtr → FileProc) : FileState where
  vars := FsVars.boot fs
  live := ∅
  procs := procs

end DzOS.Fs
