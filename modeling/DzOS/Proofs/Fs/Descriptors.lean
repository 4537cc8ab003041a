import DzOS.Fs.Syscall
import DzOS.Proofs.Fs.FileCalls

/-!
# `DzOS.Proofs.Fs.Descriptors`: any number as a descriptor

Six system calls take the number of a descriptor from the process. `Tolerates` says what is
expected of them for every number: they use only the descriptors that there are, they return -1
and change nothing for the other numbers, they call no function that a device does not have, and
the functions of `file.c` do not panic about the number.

The flags of a descriptor come from three places: `proc_exec` sets those of the standard ones,
`device_open` reads them from the table of the devices, and `file_open` takes them from its
argument. `FlagsOk` is the invariant that they establish together, and no call changes the flags
of an open descriptor (`Safe`). `reachable_flagsOk` is the run.

`sys_close` and `sys_lseek` compare the number with `>`, where the others have `>=`. So the number
`MAX_OPEN_FILES` passes, and the calls read the type of a descriptor behind the table. That
memory belongs to `initial_data_segment`, and its value never is the type of an open file. Such a
call still returns -1. `tolerates_iff` says that this is the only exception.
-/

set_option autoImplicit false

namespace DzOS.Proofs.Fs.Descriptors

open DzOS.Lib DzOS.Mem DzOS.Fs DzOS.Fs.Syscall

variable {fd whence result : Int} {mem : Bytes} {message : String} {offset : Int64} {p : FileProc}
  {s t : DescState} {buffer len : Nat} {file : ProcessFile} {i : Fin MAX_OPEN_FILES}
  {body : ProcessFile → Outcome} {outOfRange : Bool}

/-! ### The descriptors -/

/-- The number of a descriptor. -/
theorem openFd_some (h : openFd fd = some i) : fd = i.val := by
  unfold openFd at h
  split at h
  · cases h
    simp only
    omega
  · cases h

theorem openFd_isSome (h0 : 0 ≤ fd) (h1 : fd < MAX_OPEN_FILES) : ∃ i, openFd fd = some i := by
  unfold openFd
  rw [dif_pos ⟨h0, h1⟩]
  exact ⟨_, rfl⟩

/-- The index of a descriptor. -/
theorem fileAt_fin (s : DescState) (i : Fin MAX_OPEN_FILES) :
    s.fileAt i.val = some (s.proc.openFiles i) := by
  unfold DescState.fileAt
  rw [dif_pos i.isLt]

/-- An index from the end of the table on has no open file. -/
theorem fileAt_behind {n : Nat} (hn : MAX_OPEN_FILES ≤ n) (h : s.fileAt n = some file) :
    file.kind = .FD_EMPTY := by
  unfold DescState.fileAt at h
  rw [dif_neg (by omega)] at h
  split at h
  · cases h
    rfl
  · cases h

/-- An open file is one of the descriptors. -/
theorem fileAt_open (h0 : 0 ≤ fd) (h : s.fileAt fd.toNat = some file)
    (hopen : file.kind ≠ .FD_EMPTY) : ∃ i, openFd fd = some i ∧ s.proc.openFiles i = file := by
  by_cases hlt : fd < MAX_OPEN_FILES
  · obtain ⟨i, hi⟩ := openFd_isSome h0 hlt
    have hval := openFd_some hi
    have hnat : fd.toNat = i.val := by omega
    rw [hnat, fileAt_fin] at h
    exact ⟨i, hi, Option.some.inj h⟩
  · exact absurd (fileAt_behind (by omega) h) hopen

/-! ### The flags -/

/-- A descriptor of a device can be read or written only if the device has a function for it. -/
def FlagsOk (file : ProcessFile) : Prop :=
  ∀ device dev, file.kind = .FD_DEVICE device → deviceGet device = some dev →
    (file.readble = true → dev.read ≠ none) ∧ (file.writable = true → dev.write ≠ none)

theorem flagsOk_zero : FlagsOk ProcessFile.zero := by
  intro device dev hkind
  cases hkind

theorem flagsOk_inode {i : InodePtr} (h : file.kind = .FD_INODE i) : FlagsOk file := by
  intro device dev hkind
  rw [h] at hkind
  cases hkind

/-- What a call does to a descriptor at most: it moves the offset, or it closes the file. -/
def Kept (file file' : ProcessFile) : Prop :=
  (file'.kind = file.kind ∧ file'.readble = file.readble ∧ file'.writable = file.writable) ∨
    file' = ProcessFile.zero

theorem Kept.refl (file : ProcessFile) : Kept file file := Or.inl ⟨rfl, rfl, rfl⟩

theorem Kept.flagsOk {file' : ProcessFile} (h : Kept file file') (hok : FlagsOk file) :
    FlagsOk file' := by
  rcases h with ⟨hkind, hread, hwrite⟩ | rfl
  · intro device dev hdevice hdev
    rw [hread, hwrite]
    exact hok device dev (hkind ▸ hdevice) hdev
  · exact flagsOk_zero

/-- The messages of the panics about the number of a descriptor. -/
def fdPanics : List String := ["file_read: fd", "file_write: fd", "file_seek: fd"]

/-- What a call does at most: it has no fault that the number of a descriptor is to blame for,
and it keeps the flags of the descriptors. -/
structure Safe (s : DescState) (o : Outcome) : Prop where
  noNull : o ≠ .error .nullFunction
  noPanic : ∀ message ∈ fdPanics, o ≠ .error (.panic message)
  kept : ∀ result t, o = .ok (result, t) → ∀ i, Kept (s.proc.openFiles i) (t.proc.openFiles i)

/-- A call that returns. -/
theorem Safe.ok (h : ∀ i, Kept (s.proc.openFiles i) (t.proc.openFiles i)) :
    Safe s (.ok (result, t)) where
  noNull := by simp
  noPanic := by simp
  kept := by
    intro result' t' heq
    cases heq
    exact h

/-- A call that returns and leaves the descriptors alone. -/
theorem Safe.same (h : t.proc.openFiles = s.proc.openFiles) : Safe s (.ok (result, t)) := by
  apply Safe.ok
  intro i
  rw [h]
  exact Kept.refl _

/-- A call that returns and writes one descriptor. -/
theorem Safe.set (h : t.proc.openFiles = s.proc.openFiles)
    (hkept : Kept (s.proc.openFiles i) file) :
    Safe s (.ok (result, t.setFile i file)) := by
  apply Safe.ok
  intro j
  show Kept _ (Function.update t.proc.openFiles i file j)
  by_cases hj : j = i
  · subst hj
    rw [Function.update_self]
    exact hkept
  · rw [Function.update_of_ne hj, h]
    exact Kept.refl _

/-- A call of a device that has the function. -/
theorem Safe.device {env : CallEnv} {function : Option DeviceFunction} (h : function ≠ none) :
    Safe s (callDevice s env function) := by
  cases function with
  | none => exact absurd rfl h
  | some f => exact Safe.same rfl

/-! ### `file.c` -/

section

variable {s : DescState} {fd : Int} {i : Fin MAX_OPEN_FILES} {inode : InodePtr}

section

variable (hfd : openFd fd = some i) (hkind : (s.proc.openFiles i).kind = .FD_INODE inode)

include hfd hkind

theorem fileRead_safe (hread : (s.proc.openFiles i).readble = true) :
    Safe s (fileRead s fd buffer len) := by
  simp only [fileRead, hfd, hkind, hread, Bool.not_true, Bool.false_eq_true, if_false]
  split
  · exact Safe.same rfl
  · exact Safe.set rfl (Or.inl ⟨hkind.symm, hread.symm, rfl⟩)

theorem fileWrite_safe (hwrite : (s.proc.openFiles i).writable = true) :
    Safe s (fileWrite s fd buffer len) := by
  simp only [fileWrite, hfd, hkind, hwrite, Bool.not_true, Bool.false_eq_true, if_false]
  split
  · exact Safe.same rfl
  · exact Safe.set rfl (Or.inl ⟨hkind.symm, rfl, hwrite.symm⟩)

theorem fileSeek_safe : Safe s (fileSeek s fd offset whence) := by
  simp only [fileSeek, hfd, hkind]
  split
  · exact Safe.same rfl
  · exact Safe.set rfl (Or.inl ⟨hkind.symm, rfl, rfl⟩)

end

end

/-! ### `syscall.c` -/

section

variable {s : DescState} {env : CallEnv} {fd : Int}

/-- A call is safe if its body is for each descriptor that is open. -/
theorem withFile_safe (hrange : outOfRange = false → 0 ≤ fd)
    (hbody : ∀ i, openFd fd = some i → Safe s (body (s.proc.openFiles i))) :
    Safe s (withFile s fd outOfRange body).outcome := by
  unfold withFile
  split
  · exact Safe.same rfl
  · rename_i hin
    split
    · exact Safe.same rfl
    · rename_i file hfile
      simp only
      split
      · exact Safe.same rfl
      · rename_i hopen
        obtain ⟨i, hi, rfl⟩ := fileAt_open (hrange (by simpa using hin)) hfile hopen
        exact hbody i hi

variable (hs : ∀ i, FlagsOk (s.proc.openFiles i))

include hs in
theorem sysRead_safe : Safe s (Syscall.sysRead s env fd buffer len).outcome := by
  unfold Syscall.sysRead
  apply withFile_safe
  · intro h
    simp at h
    omega
  · intro i hi
    split
    · exact Safe.same rfl
    · split
      · exact Safe.same rfl
      · rename_i hread
        have hread : (s.proc.openFiles i).readble = true := by simpa using hread
        split
        · rename_i inode hkind
          exact fileRead_safe hi hkind hread
        · rename_i device hkind
          split
          · exact Safe.same rfl
          · rename_i dev hdev
            exact Safe.device ((hs i device dev hkind hdev).1 hread)
        · exact Safe.same rfl

include hs in
theorem sysWrite_safe : Safe s (Syscall.sysWrite s env fd buffer len).outcome := by
  unfold Syscall.sysWrite
  apply withFile_safe
  · intro h
    simp at h
    omega
  · intro i hi
    split
    · exact Safe.same rfl
    · split
      · exact Safe.same rfl
      · rename_i hwrite
        have hwrite : (s.proc.openFiles i).writable = true := by simpa using hwrite
        split
        · rename_i inode hkind
          exact fileWrite_safe hi hkind hwrite
        · rename_i device hkind
          split
          · exact Safe.same rfl
          · rename_i dev hdev
            exact Safe.device ((hs i device dev hkind hdev).2 hwrite)
        · exact Safe.same rfl

theorem sysClose_safe : Safe s (Syscall.sysClose s fd).outcome := by
  unfold Syscall.sysClose
  apply withFile_safe
  · intro h
    simp at h
    omega
  · intro i hi
    split
    · exact Safe.set (t := { s with vars := _ }) rfl (Or.inr rfl)
    · exact Safe.same rfl
    · exact Safe.same rfl

theorem sysLseek_safe : Safe s (sysLseek s env fd offset whence).outcome := by
  unfold sysLseek
  apply withFile_safe
  · intro h
    simp at h
    omega
  · intro i hi
    split
    · rename_i inode hkind
      exact fileSeek_safe hi hkind
    · split
      · exact Safe.same rfl
      · split
        · exact Safe.same rfl
        · rename_i hseek
          exact Safe.device hseek
    · exact Safe.same rfl

theorem sysIoctl_safe {data : Nat} : Safe s (sysIoctl s env fd data).outcome := by
  unfold sysIoctl
  apply withFile_safe
  · intro h
    simp at h
    omega
  · intro i hi
    split
    · exact Safe.same rfl
    · split
      · exact Safe.same rfl
      · split
        · exact Safe.same rfl
        · split
          · exact Safe.same rfl
          · rename_i hcontrol
            exact Safe.device hcontrol
      · exact Safe.same rfl

/-- The only message of `fs_readdir`. -/
theorem readdirLoop_error {fs : Dzfs} {dnode left : Nat} {offset read : Nat}
    (h : readdirLoop fs dnode left mem buffer len offset read = .error message) :
    message = "fs_readdir: invalid type" := by
  induction left generalizing mem buffer len offset read with
  | zero =>
    rw [readdirLoop] at h
    cases h
  | succ left ih =>
    rw [readdirLoop] at h
    split at h
    · cases h
    · simp only at h
      split at h
      · cases h
      · split at h
        · cases h
          rfl
        · exact ih h
    · cases h

theorem fsReaddir_error {vars : FsVars} {i : InodePtr} {offset : Int}
    (h : fsReaddir vars i mem buffer len offset = .error message) : message ∉ fdPanics := by
  unfold fsReaddir at h
  split at h
  · cases h
  · rw [readdirLoop_error h]
    decide

theorem sysReaddir_safe : Safe s (sysReaddir s env fd buffer len).outcome := by
  unfold sysReaddir
  apply withFile_safe
  · intro h
    simp at h
    omega
  · intro i hi
    split
    · rename_i inode j hkind hj
      cases hi.symm.trans hj
      split
      · exact Safe.same rfl
      · split
        -- Only `fs_readdir` stops here, and its message is none of `file.c`.
        · rename_i message herror
          constructor
          · simp
          · intro m hm heq
            cases heq
            exact fsReaddir_error herror hm
          · intro result t heq
            cases heq
        · simp only
          split
          · exact Safe.same rfl
          · exact Safe.set (t := { s with mem := _ }) rfl (Or.inl ⟨rfl, rfl, rfl⟩)
    · exact Safe.same rfl

include hs in
/-- Each call on a descriptor. -/
theorem fdCall_safe (c : FdCall) : Safe s (fdCall s env c).outcome := by
  cases c with
  | read fd buffer len => exact sysRead_safe hs
  | write fd buffer len => exact sysWrite_safe hs
  | close fd => exact sysClose_safe
  | lseek fd offset whence => exact sysLseek_safe
  | ioctl fd command data => exact sysIoctl_safe
  | readdir fd buffer len => exact sysReaddir_safe

end

/-! ### The calls on files

`sys_close`, `sys_read` and `sys_write` do to the files what `File.lean` says, where a user pointer
is valid exactly if it leads to some data.
-/

section

variable {s : DescState} {env : CallEnv} {fd : Int}

/-- A number that is no descriptor is refused. -/
theorem withFile_refused (h : outOfRange = false → (MAX_OPEN_FILES : Int) ≤ fd) :
    (withFile s fd outOfRange body).outcome = .ok (-1, s) := by
  unfold withFile
  split
  · rfl
  · rename_i hin
    have hin : outOfRange = false := by simpa using hin
    split
    · rfl
    · rename_i file hfile
      have hle := h hin
      rw [if_pos (fileAt_behind (by omega) hfile)]

/-- A descriptor. -/
theorem withFile_fin (hfd : openFd fd = some i) (hin : outOfRange = false) :
    (withFile s fd outOfRange body).outcome =
      if (s.proc.openFiles i).kind = .FD_EMPTY then .ok (-1, s)
      else body (s.proc.openFiles i) := by
  have hnat : fd.toNat = i.val := by
    have hval := openFd_some hfd
    omega
  rw [withFile, hin, hnat, fileAt_fin]
  rfl

/-- The numbers of the descriptors. -/
theorem openFd_none (h : openFd fd = none) : ¬ (0 ≤ fd ∧ fd < MAX_OPEN_FILES) := by
  intro hin
  obtain ⟨i, hi⟩ := openFd_isSome hin.1 hin.2
  rw [hi] at h
  cases h

theorem openFd_range (h : openFd fd = some i) : 0 ≤ fd ∧ fd < MAX_OPEN_FILES := by
  have hval := openFd_some h
  have hlt := i.isLt
  omega

/-- `sys_close`. -/
theorem sysClose_file :
    (Syscall.sysClose s fd).outcome =
      .ok ((Fs.sysClose s.vars s.proc fd).1, { s with
        vars := (Fs.sysClose s.vars s.proc fd).2.1
        proc := (Fs.sysClose s.vars s.proc fd).2.2 }) := by
  unfold Syscall.sysClose Fs.sysClose
  cases hfd : openFd fd with
  | none =>
    have hout := openFd_none hfd
    apply withFile_refused
    intro hin
    simp at hin
    omega
  | some i =>
    have hrange := openFd_range hfd
    rw [withFile_fin hfd (by simp; omega)]
    cases hkind : (s.proc.openFiles i).kind with
    | FD_EMPTY => simp [hkind]
    | FD_INODE inode => simp [hkind, DescState.setFile]
    | FD_DEVICE device => simp [hkind]

/-- `sys_write`. -/
theorem sysWrite_file (hvalid : env.validateUserPtr buffer len false = decide (len ≠ 0))
    (hs : ∀ i, FlagsOk (s.proc.openFiles i)) :
    ∃ deviceResult mem, (Syscall.sysWrite s env fd buffer len).outcome =
      .ok ((Fs.sysWrite s.vars s.proc fd (s.mem.slice buffer len) deviceResult).1, { s with
        vars := (Fs.sysWrite s.vars s.proc fd (s.mem.slice buffer len) deviceResult).2.1
        proc := (Fs.sysWrite s.vars s.proc fd (s.mem.slice buffer len) deviceResult).2.2
        mem := mem }) := by
  unfold Syscall.sysWrite Fs.sysWrite
  cases hfd : openFd fd with
  | none =>
    have hout := openFd_none hfd
    refine ⟨0, s.mem, ?_⟩
    apply withFile_refused
    intro hin
    simp at hin
    omega
  | some i =>
    have hrange := openFd_range hfd
    rw [withFile_fin hfd (by simp; omega), hvalid]
    by_cases hlen : len = 0
    · refine ⟨0, s.mem, ?_⟩
      simp [hlen, Bytes.slice]
    -- A pointer to some data is valid, so both functions come to the descriptor.
    · have hslice : s.mem.slice buffer len ≠ [] := by simpa [Bytes.slice] using hlen
      cases hwrite : (s.proc.openFiles i).writable with
      | false =>
        refine ⟨0, s.mem, ?_⟩
        simp [hwrite]
      | true =>
        cases hkind : (s.proc.openFiles i).kind with
        | FD_EMPTY =>
          refine ⟨0, s.mem, ?_⟩
          simp [hkind]
        | FD_INODE inode =>
          refine ⟨0, s.mem, ?_⟩
          obtain ⟨⟨result, vars⟩, hresult⟩ : ∃ out, fsWrite s.vars inode
              (s.mem.slice buffer len) (s.proc.openFiles i).offset.toNat = out := ⟨_, rfl⟩
          by_cases hneg : result < 0
          · simp [hkind, hwrite, hlen, hslice, fileWrite, hfd, hresult, hneg]
          · simp [hkind, hwrite, hlen, hslice, fileWrite, hfd, hresult, hneg, DescState.setFile]
        | FD_DEVICE device =>
          cases hdev : deviceGet device with
          | none =>
            refine ⟨-1, s.mem, ?_⟩
            simp [hkind, hwrite, hlen, hslice, hdev]
          | some dev =>
            -- The descriptor is writable, so the device has the function.
            obtain ⟨f, hf⟩ := Option.ne_none_iff_exists'.mp ((hs i device dev hkind hdev).2 hwrite)
            refine ⟨env.deviceResult f, env.deviceMem f s.mem, ?_⟩
            simp [hkind, hwrite, hlen, hslice, hdev, callDevice, hf]

end

/-! ### The runs -/

/-- The standard descriptors: the serial port can be read and written. -/
theorem standardFiles_flagsOk {serial : Nat} (h : deviceIndex SERIAL_DEVICE_NAME = some serial)
    (i : Fin MAX_OPEN_FILES) : FlagsOk (standardFiles serial i) := by
  -- The serial port is the first device of the table.
  have hserial : serial = 0 := by
    have hindex : deviceIndex SERIAL_DEVICE_NAME = some 0 := by decide
    exact (Option.some.inj (hindex.symm.trans h)).symm
  subst hserial
  have hdevice : ∀ offset readble writable,
      FlagsOk ⟨.FD_DEVICE 0, offset, readble, writable⟩ := by
    intro offset readble writable device dev hkind hdev
    cases hkind
    cases hdev
    exact ⟨fun _ => by simp, fun _ => by simp⟩
  unfold standardFiles
  split
  · exact hdevice 0 true false
  · split
    · exact hdevice 0 false true
    · exact flagsOk_zero

/-- A write to one descriptor. -/
theorem setFile_flagsOk {fd : Fin MAX_OPEN_FILES} (hp : ∀ i, FlagsOk (p.openFiles i))
    (hfile : FlagsOk file) (i : Fin MAX_OPEN_FILES) :
    FlagsOk ((p.setFile fd file).openFiles i) := by
  show FlagsOk (Function.update p.openFiles fd file i)
  by_cases hi : i = fd
  · subst hi
    rw [Function.update_self]
    exact hfile
  · rw [Function.update_of_ne hi]
    exact hp i

/-- `device_open` takes the flags from the table of the devices. -/
theorem deviceOpen_flagsOk {device : Option Nat} (hp : ∀ i, FlagsOk (p.openFiles i))
    (i : Fin MAX_OPEN_FILES) :
    FlagsOk ((deviceOpen p device ((device.bind deviceGet).any fun d => d.read ≠ none)
      ((device.bind deviceGet).any fun d => d.write ≠ none)).2.openFiles i) := by
  unfold deviceOpen
  split
  · exact hp i
  · rename_i index
    split
    · exact hp i
    · refine setFile_flagsOk hp ?_ i
      intro device dev hkind hdev
      cases hkind
      -- The flags were computed from this device.
      rw [Option.bind_some, hdev]
      constructor
      · intro h
        simpa using h
      · intro h
        simpa using h

/-- `sys_open` leaves flags that fit their devices. -/
theorem sysOpen_flagsOk {path : Option (List UInt8)} {flags : UInt32} {date : UInt64}
    (hs : ∀ i, FlagsOk (s.proc.openFiles i))
    (h : Syscall.sysOpen s path flags date = .ok (result, t)) (i : Fin MAX_OPEN_FILES) :
    FlagsOk (t.proc.openFiles i) := by
  unfold Syscall.sysOpen at h
  split at h
  · cases h
    exact hs i
  · rename_i path
    split at h
    · cases h
      exact hs i
    · rename_i hknown
      split at h
      · cases h
        exact deviceOpen_flagsOk hs i
      · split at h
        · cases h
        · rename_i r vars proc hopen
          cases h
          have hsys : Fs.sysOpen s.vars s.proc path flags date = .ok (result, vars, proc) := by
            rw [Fs.sysOpen, if_neg hknown]
            exact hopen
          show FlagsOk (proc.openFiles i)
          rcases sysOpen_cases hsys with ⟨-, -, hproc⟩ | ⟨-, -, hproc⟩ |
            ⟨inode, fd, file, -, -, -, hkind, hproc⟩
          · rw [hproc]
            exact hs i
          · rw [hproc]
            exact hs i
          · rw [hproc]
            exact setFile_flagsOk hs (flagsOk_inode hkind) i

/-- One step. -/
theorem descStep_flagsOk (h : DescStep s t) (hs : ∀ i, FlagsOk (s.proc.openFiles i))
    (i : Fin MAX_OPEN_FILES) : FlagsOk (t.proc.openFiles i) := by
  cases h with
  | «open» done => exact sysOpen_flagsOk hs done i
  | call done => exact ((fdCall_safe hs _).kept _ _ done i).flagsOk (hs i)
  | other same =>
    rw [same]
    exact hs i

/-- A run. -/
theorem reachable_flagsOk (h : DescReachable s) (i : Fin MAX_OPEN_FILES) :
    FlagsOk (s.proc.openFiles i) := by
  induction h generalizing i with
  | start index files =>
    rw [files]
    exact standardFiles_flagsOk index i
  | step before next ih => exact descStep_flagsOk next ih i

/-! ### The result -/

/-- What is expected of a system call on a descriptor, for every number. -/
structure Tolerates (s : DescState) (env : CallEnv) (c : FdCall) : Prop where
  /-- The call uses no memory around the table. -/
  inTable : ∀ i ∈ (fdCall s env c).accessed, 0 ≤ i ∧ i < MAX_OPEN_FILES
  /-- The other numbers are refused. -/
  refused : ¬ (0 ≤ c.fd ∧ c.fd < MAX_OPEN_FILES) → (fdCall s env c).outcome = .ok (-1, s)
  /-- Each function of a device that is called exists. -/
  noNull : (fdCall s env c).outcome ≠ .error .nullFunction
  /-- The functions of `file.c` accept the number. -/
  noPanic : ∀ message ∈ fdPanics, (fdCall s env c).outcome ≠ .error (.panic message)

/-- The calls that compare the number with `>`. -/
def testsGreater : FdCall → Prop
  | .close _ => True
  | .lseek _ _ _ => True
  | _ => False

/-- Each call starts with `withFile`. -/
theorem fdCall_eq (s : DescState) (env : CallEnv) (c : FdCall) :
    ∃ outOfRange body, fdCall s env c = withFile s c.fd outOfRange body ∧
      (outOfRange = false ↔ 0 ≤ c.fd ∧
        (c.fd < MAX_OPEN_FILES ∨ c.fd = MAX_OPEN_FILES ∧ testsGreater c)) := by
  have hmax : MAX_OPEN_FILES = 8 := rfl
  cases c with
  | read fd buffer len =>
    refine ⟨_, _, rfl, ?_⟩
    simp [FdCall.fd, testsGreater]
  | write fd buffer len =>
    refine ⟨_, _, rfl, ?_⟩
    simp [FdCall.fd, testsGreater]
  | close fd =>
    refine ⟨_, _, rfl, ?_⟩
    simp [FdCall.fd, testsGreater]
    omega
  | lseek fd offset whence =>
    refine ⟨_, _, rfl, ?_⟩
    simp [FdCall.fd, testsGreater]
    omega
  | ioctl fd command data =>
    refine ⟨_, _, rfl, ?_⟩
    simp [FdCall.fd, testsGreater]
  | readdir fd buffer len =>
    refine ⟨_, _, rfl, ?_⟩
    simp [FdCall.fd, testsGreater]

/-- The calls use the index that they were given, if it passes their test. -/
theorem withFile_accessed (s : DescState) (fd : Int) (outOfRange : Bool)
    (body : ProcessFile → Outcome) :
    (withFile s fd outOfRange body).accessed = if outOfRange then [] else [fd] := by
  unfold withFile
  split
  · rfl
  · split
    · rfl
    · rfl

/-- In every reachable state, a system call on a descriptor tolerates its number, except for
`MAX_OPEN_FILES` in `sys_close` and `sys_lseek`. -/
theorem tolerates_iff {s : DescState} (hs : DescReachable s) (env : CallEnv) (c : FdCall) :
    Tolerates s env c ↔ ¬ (c.fd = MAX_OPEN_FILES ∧ testsGreater c) := by
  obtain ⟨outOfRange, body, heq, hrange⟩ := fdCall_eq s env c
  have haccessed : (fdCall s env c).accessed = if outOfRange then [] else [c.fd] := by
    rw [heq]
    exact withFile_accessed s c.fd outOfRange body
  have hsafe : Safe s (fdCall s env c).outcome := fdCall_safe (reachable_flagsOk hs) c
  constructor
  · rintro htol ⟨hfd, hgreater⟩
    -- The number passes the test, so the call uses the index behind the table.
    have hin : outOfRange = false := hrange.mpr ⟨by omega, Or.inr ⟨hfd, hgreater⟩⟩
    -- A call that gets past its test looks up its number.
    have hmem : c.fd ∈ (fdCall s env c).accessed := by
      rw [haccessed, hin]
      simp
    have hlt := (htol.inTable c.fd hmem).2
    omega
  · intro hcond
    constructor
    · intro i hi
      rw [haccessed] at hi
      cases outOfRange with
      | true => simp at hi
      | false =>
        have hi : i = c.fd := by simpa using hi
        obtain ⟨h0, hlt | hbehind⟩ := hrange.mp rfl
        · rw [hi]
          exact ⟨h0, hlt⟩
        · exact absurd hbehind hcond
    · intro hout
      rw [heq]
      apply withFile_refused
      intro hin
      -- The number passes the test only inside the table, or at 8, which the condition excludes.
      obtain ⟨h0, -⟩ := hrange.mp hin
      omega
    · exact hsafe.noNull
    · exact hsafe.noPanic

/-- A process of the first program, whose working directory is the first inode. -/
def firstProcess : DescState where
  vars := FsVars.boot ⟨fun _ => Bytes.zero, 1, 4⟩
  proc := ⟨standardFiles 0, ⟨0, maxInodes_pos⟩⟩
  initialDataSegment := 0x401000
  mem := Bytes.zero
  aligned := by decide

/-- Every pointer is valid, and the devices do nothing. -/
def idleEnv : CallEnv := ⟨fun _ _ _ => true, fun _ => 0, fun _ mem => mem⟩

theorem firstProcess_reachable : DescReachable firstProcess :=
  DescReachable.start (show deviceIndex SERIAL_DEVICE_NAME = some 0 by decide) rfl

theorem tolerates_read : Tolerates firstProcess idleEnv (.read 8 0 1) :=
  (tolerates_iff firstProcess_reachable idleEnv (.read 8 0 1)).mpr fun h => h.2

/-- The number 8 as an argument of `sys_close`. -/
theorem close_behind_table :
    DescReachable firstProcess ∧ (fdCall firstProcess idleEnv (.close 8)).accessed = [8] ∧
      ¬ Tolerates firstProcess idleEnv (.close 8) := by
  have haccessed : (fdCall firstProcess idleEnv (.close 8)).accessed = [8] := by decide
  refine ⟨firstProcess_reachable, haccessed, ?_⟩
  intro htol
  have hmem : (8 : Int) ∈ (fdCall firstProcess idleEnv (.close 8)).accessed := by
    rw [haccessed]
    simp
  exact absurd (htol.inTable 8 hmem).2 (by decide)

end DzOS.Proofs.Fs.Descriptors
