import DzOS.Fs.File
import DzOS.Fs.Readdir
import DzOS.Mem.Page

/-!
# `DzOS.Fs.Syscall`: the system calls on a descriptor, `syscall.c`

`sys_read`, `sys_write`, `sys_close`, `sys_lseek`, `sys_ioctl` and `sys_readdir` take the number
of a descriptor, which may be any `int`. `File.lean` says what the first three do to the files.
Here each call has its memory too, and the ways in which it goes wrong: a panic, and the call of
a device function that is `NULL`. `SysOut.accessed` lists the indices of `open_files` that a call
uses.

A process has its memory in `mem`, and its pointers are addresses there. `CallEnv` is what a call
is answered from outside the files: whether `vmm_validate_user_ptr` accepts a pointer, and what
the function of a device returns and does to the memory.
-/

set_option autoImplicit false

namespace DzOS.Fs.Syscall

open DzOS.Lib DzOS.Mem

/-! ### The devices, `device.c` -/

/-- The functions of the devices. -/
inductive DeviceFunction where
  | serial_read
  | serial_read_async
  | serial_write
  | fb_write
  | fb_control
  deriving DecidableEq, Repr

/-- `struct device`. A function is `none` for `NULL`. -/
structure Device where
  name : List UInt8
  read : Option DeviceFunction
  write : Option DeviceFunction
  lseek : Option DeviceFunction
  control : Option DeviceFunction
  deriving DecidableEq, Repr

/-- A name as a C string, without its last byte. -/
def deviceName (characters : List Char) : List UInt8 := characters.map fun c => UInt8.ofNat c.toNat

/-- `SERIAL_DEVICE_NAME`. -/
def SERIAL_DEVICE_NAME : List UInt8 := deviceName ['s', 'e', 'r', 'i', 'a', 'l']

/-- `SERIAL_ASYNC_DEVICE_NAME`. -/
def SERIAL_ASYNC_DEVICE_NAME : List UInt8 :=
  deviceName ['s', 'e', 'r', 'i', 'a', 'l', '_', 'a', 's', 'y', 'n', 'c']

/-- `FRAMEBUFFER_DEVICE_NAME`. -/
def FRAMEBUFFER_DEVICE_NAME : List UInt8 := deviceName ['f', 'b']

/-- `devices`. -/
def devices : List Device :=
  [{ name := SERIAL_DEVICE_NAME
     read := some .serial_read
     write := some .serial_write
     lseek := none
     control := none },
   { name := SERIAL_ASYNC_DEVICE_NAME
     read := some .serial_read_async
     write := some .serial_write
     lseek := none
     control := none },
   { name := FRAMEBUFFER_DEVICE_NAME
     read := none
     write := some .fb_write
     lseek := none
     control := some .fb_control }]

/-- `device_index`, with `none` for -1. -/
def deviceIndex (name : List UInt8) : Option Nat := devices.findIdx? fun d => name = d.name

/-- `device_get`. -/
def deviceGet (index : Nat) : Option Device := devices[index]?

/-! ### The state -/

/-- A process and its files. `initial_data_segment` lies in memory behind the table of the
descriptors, and `proc_exec` rounds it up to a page. -/
structure DescState where
  vars : FsVars
  proc : FileProc
  initialDataSegment : UInt64
  mem : Bytes
  aligned : initialDataSegment.toNat % PAGE_SIZE.toNat = 0

theorem zero_aligned : (0 : UInt64).toNat % PAGE_SIZE.toNat = 0 := Nat.zero_mod _

/-- `open_files[fd]`, or `none` when the field `type` holds none of the types. The index behind
the table reads its type from the low half of `initial_data_segment`. That half is a multiple of
the page size, so the type is neither `FD_INODE` nor `FD_DEVICE`. -/
def DescState.fileAt (s : DescState) (fd : Nat) : Option ProcessFile :=
  if h : fd < MAX_OPEN_FILES then some (s.proc.openFiles ⟨fd, h⟩)
  else if s.initialDataSegment.toUInt32 = 0 then some ProcessFile.zero
  else none

/-- A write to one descriptor. -/
def DescState.setFile (s : DescState) (fd : Fin MAX_OPEN_FILES) (file : ProcessFile) :
    DescState :=
  { s with proc := s.proc.setFile fd file }

/-- How a call ends that does not return. -/
inductive Fault where
  | panic (message : String)
  | nullFunction
  deriving DecidableEq, Repr

/-- The result of a function: what it returns and the state after it, or a fault. -/
abbrev Outcome := Except Fault (Int × DescState)

/-- A system call: the indices at which it uses `open_files`, and its result. -/
structure SysOut where
  accessed : List Int
  outcome : Outcome

/-- What a call is answered from outside. -/
structure CallEnv where
  validateUserPtr : Nat → Nat → Bool → Bool
  deviceResult : DeviceFunction → Int
  deviceMem : DeviceFunction → Bytes → Bytes

/-! ### `file.c` -/

/-- `SEEK_SET`. -/
def SEEK_SET : Int := 0

/-- `SEEK_CUR`. -/
def SEEK_CUR : Int := 1

/-- `SEEK_END`. -/
def SEEK_END : Int := 2

/-- A number of 32 bits as an `int`. -/
def toInt (n : UInt32) : Int := Int.bmod n.toNat (2 ^ 32)

/-- `file_write`. -/
def fileWrite (s : DescState) (fd : Int) (buffer len : Nat) : Outcome :=
  match openFd fd with
  | none => .error (.panic "file_write: fd")
  | some fd =>
    let file := s.proc.openFiles fd
    if !file.writable then .error (.panic "file_write: fd")
    else
      match file.kind with
      | .FD_INODE inode =>
        let (result, vars) := fsWrite s.vars inode (s.mem.slice buffer len) file.offset.toNat
        let s := { s with vars := vars }
        if result < 0 then .ok (result, s)
        else .ok (result, s.setFile fd { file with
          offset := file.offset + UInt32.ofNat result.toNat })
      | _ => .error (.panic "file_write: fd")

/-- `file_read`. -/
def fileRead (s : DescState) (fd : Int) (buffer len : Nat) : Outcome :=
  match openFd fd with
  | none => .error (.panic "file_read: fd")
  | some fd =>
    let file := s.proc.openFiles fd
    if !file.readble then .error (.panic "file_read: fd")
    else
      match file.kind with
      | .FD_INODE inode =>
        let (result, data) := fsRead s.vars inode len file.offset.toNat
        let s := { s with mem := s.mem.blit buffer data }
        if result < 0 then .ok (result, s)
        else .ok (result, s.setFile fd { file with
          offset := file.offset + UInt32.ofNat result.toNat })
      | _ => .error (.panic "file_read: fd")

/-- The offset that `file_seek` computes first, or `none` for an unknown `whence`. -/
def seekOffset (file : ProcessFile) (fileSize : UInt32) (offset : Int64) (whence : Int) :
    Option UInt32 :=
  if whence = SEEK_SET then some offset.toUInt64.toUInt32
  else if whence = SEEK_CUR then some (file.offset.toUInt64 + offset.toUInt64).toUInt32
  else if whence = SEEK_END then some (fileSize - offset.toUInt64.toUInt32)
  else none

/-- `file_seek`. -/
def fileSeek (s : DescState) (fd : Int) (offset : Int64) (whence : Int) : Outcome :=
  match openFd fd with
  | none => .error (.panic "file_seek: fd")
  | some fd =>
    let file := s.proc.openFiles fd
    match file.kind with
    | .FD_INODE inode =>
      let fileSize := UInt32.ofNat (s.vars.inodes inode).size
      match seekOffset file fileSize offset whence with
      | none => .ok (-1, s)
      | some offset =>
        let offset := if offset > fileSize then fileSize else offset
        .ok (toInt offset, s.setFile fd { file with offset := offset })
    | _ => .error (.panic "file_seek: fd")

/-! ### `syscall.c` -/

/-- The call of a function of a device. -/
def callDevice (s : DescState) (env : CallEnv) (function : Option DeviceFunction) : Outcome :=
  match function with
  | none => .error .nullFunction
  | some f => .ok (env.deviceResult f, { s with mem := env.deviceMem f s.mem })

/-- The start of the calls. `outOfRange` is the test of the number, which each call makes in its
own way. The test of the type is the first use of `open_files`. -/
def withFile (s : DescState) (fd : Int) (outOfRange : Bool) (body : ProcessFile → Outcome) :
    SysOut :=
  if outOfRange then ⟨[], .ok (-1, s)⟩
  else
    match s.fileAt fd.toNat with
    -- No case of the `switch` is for such a type.
    | none => ⟨[fd], .ok (-1, s)⟩
    | some file => ⟨[fd], if file.kind = .FD_EMPTY then .ok (-1, s) else body file⟩

/-- `sys_read`. -/
def sysRead (s : DescState) (env : CallEnv) (fd : Int) (buffer len : Nat) : SysOut :=
  withFile s fd (fd < 0 ∨ fd ≥ MAX_OPEN_FILES) fun file =>
    if !env.validateUserPtr buffer len true then .ok (-1, s)
    else if !file.readble then .ok (-1, s)
    else
      match file.kind with
      | .FD_INODE _ => fileRead s fd buffer len
      | .FD_DEVICE device =>
        match deviceGet device with
        | none => .ok (-1, s)
        | some dev => callDevice s env dev.read
      | .FD_EMPTY => .ok (-1, s)

/-- `sys_write`. -/
def sysWrite (s : DescState) (env : CallEnv) (fd : Int) (buffer len : Nat) : SysOut :=
  withFile s fd (fd < 0 ∨ fd ≥ MAX_OPEN_FILES) fun file =>
    if !env.validateUserPtr buffer len false then .ok (-1, s)
    else if !file.writable then .ok (-1, s)
    else
      match file.kind with
      | .FD_INODE _ => fileWrite s fd buffer len
      | .FD_DEVICE device =>
        match deviceGet device with
        | none => .ok (-1, s)
        | some dev => callDevice s env dev.write
      | .FD_EMPTY => .ok (-1, s)

/-- `sys_close`. The number behind the last descriptor passes its test, and nothing is written
there, since that memory is no open file. -/
def sysClose (s : DescState) (fd : Int) : SysOut :=
  withFile s fd (fd < 0 ∨ fd > MAX_OPEN_FILES) fun file =>
    match file.kind, openFd fd with
    | .FD_INODE inode, some fd =>
      .ok (0, { s.setFile fd ProcessFile.zero with vars := fsClose s.vars inode })
    | .FD_DEVICE _, _ => .ok (0, s)
    | _, _ => .ok (-1, s)

/-- `sys_lseek`. The number behind the last descriptor passes its test. -/
def sysLseek (s : DescState) (env : CallEnv) (fd : Int) (offset : Int64) (whence : Int) :
    SysOut :=
  withFile s fd (fd < 0 ∨ fd > MAX_OPEN_FILES) fun file =>
    match file.kind with
    | .FD_INODE _ => fileSeek s fd offset whence
    | .FD_DEVICE device =>
      match deviceGet device with
      | none => .ok (-1, s)
      | some dev => if dev.lseek = none then .ok (-1, s) else callDevice s env dev.lseek
    | .FD_EMPTY => .ok (-1, s)

/-- `sys_ioctl`. -/
def sysIoctl (s : DescState) (env : CallEnv) (fd : Int) (data : Nat) : SysOut :=
  withFile s fd (fd < 0 ∨ fd ≥ MAX_OPEN_FILES) fun file =>
    if data ≠ 0 ∧ !env.validateUserPtr data 8 true then .ok (-1, s)
    else
      match file.kind with
      | .FD_INODE _ => .ok (-1, s)
      | .FD_DEVICE device =>
        match deviceGet device with
        | none => .ok (-1, s)
        | some dev => if dev.control = none then .ok (-1, s) else callDevice s env dev.control
      | .FD_EMPTY => .ok (-1, s)

/-- `sys_readdir`. -/
def sysReaddir (s : DescState) (env : CallEnv) (fd : Int) (buffer len : Nat) : SysOut :=
  withFile s fd (fd < 0 ∨ fd ≥ MAX_OPEN_FILES) fun file =>
    match file.kind, openFd fd with
    | .FD_INODE inode, some fd =>
      if !env.validateUserPtr buffer len true then .ok (-1, s)
      else
        match fsReaddir s.vars inode s.mem buffer len (toInt file.offset) with
        | .error message => .error (.panic message)
        | .ok (result, mem) =>
          let s := { s with mem := mem }
          if result ≤ 0 then .ok (result, s)
          else .ok (result, s.setFile fd { file with
            offset := file.offset + UInt32.ofNat result.toNat })
    | _, _ => .ok (-1, s)

/-- `sys_open`. The path is the copy that `validate_user_string` made, or `none` when it made
none. -/
def sysOpen (s : DescState) (path : Option (List UInt8)) (flags : UInt32) (date : UInt64) :
    Outcome :=
  match path with
  | none => .ok (-1, s)
  | some path =>
    if flags &&& ~~~OPEN_FLAGS ≠ 0 then .ok (-1, s)
    else if flags &&& O_DEVICE ≠ 0 then
      let device := deviceIndex path
      let (result, proc) := deviceOpen s.proc device
        (device.bind deviceGet |>.any fun d => d.read ≠ none)
        (device.bind deviceGet |>.any fun d => d.write ≠ none)
      .ok (result, { s with proc := proc })
    else
      match fileOpen s.vars s.proc path flags date with
      | .error message => .error (.panic message)
      | .ok (result, vars, proc) => .ok (result, { s with vars := vars, proc := proc })

/-! ### The calls of a process -/

/-- The system calls on a descriptor. -/
inductive FdCall where
  | read (fd : Int) (buffer len : Nat)
  | write (fd : Int) (buffer len : Nat)
  | close (fd : Int)
  | lseek (fd : Int) (offset : Int64) (whence : Int)
  | ioctl (fd : Int) (command : Int) (data : Nat)
  | readdir (fd : Int) (buffer len : Nat)

/-- The number of the descriptor. -/
def FdCall.fd : FdCall → Int
  | .read fd _ _ => fd
  | .write fd _ _ => fd
  | .close fd => fd
  | .lseek fd _ _ => fd
  | .ioctl fd _ _ => fd
  | .readdir fd _ _ => fd

/-- One system call on a descriptor. -/
def fdCall (s : DescState) (env : CallEnv) : FdCall → SysOut
  | .read fd buffer len => sysRead s env fd buffer len
  | .write fd buffer len => sysWrite s env fd buffer len
  | .close fd => sysClose s fd
  | .lseek fd offset whence => sysLseek s env fd offset whence
  -- The command only reaches the device, whose answer is part of `env`.
  | .ioctl fd _ data => sysIoctl s env fd data
  | .readdir fd buffer len => sysReaddir s env fd buffer len

/-- A step of the system: a call of the process, or anything else, which leaves its descriptors
alone (the other system calls, its own code and the other processes). -/
inductive DescStep : DescState → DescState → Prop
  | open {s t : DescState} {path : Option (List UInt8)} {flags : UInt32} {date : UInt64}
      {result : Int} (done : sysOpen s path flags date = .ok (result, t)) : DescStep s t
  | call {s t : DescState} {env : CallEnv} {c : FdCall} {result : Int}
      (done : (fdCall s env c).outcome = .ok (result, t)) : DescStep s t
  | other {s t : DescState} (same : t.proc.openFiles = s.proc.openFiles) : DescStep s t

/-- The states of a process that `proc_exec` started: its descriptors were the standard ones. -/
inductive DescReachable : DescState → Prop
  | start {s : DescState} {serial : Nat} (index : deviceIndex SERIAL_DEVICE_NAME = some serial)
      (files : s.proc.openFiles = standardFiles serial) : DescReachable s
  | step {s t : DescState} (before : DescReachable s) (next : DescStep s t) : DescReachable t

end DzOS.Fs.Syscall
