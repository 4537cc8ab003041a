import DzOS.Fs.File
import DzOS.Proofs.Fs.InodeTable

/-!
# `DzOS.Proofs.Fs.FileCalls`: the runs of the file calls

`FileStep` lists what a file call can do, with its failures, and `fileStep_cases` says that the
list is complete. The invariants of a run follow from it.

`FileReachable` is a run of the calls from a state. It may be restricted to calls with `ok`. No
call changes the variables of the file system, whatever the state of the disk is
(`FileReachable.sameVars`).
-/

set_option autoImplicit false

namespace DzOS.Proofs.Fs

open DzOS.Lib DzOS.Fs DzOS.Sched

variable {c : FileCall} {p proc : FileProc} {flags : UInt32} {r : Int} {s₀ s s' : FileState}
  {date : UInt64} {path : List UInt8} {ok : FileState → FileCall → Prop}

/-! ### One call -/

/-- `file_open` is refused before it opens anything: a flag is unknown, or there is no free
descriptor. -/
def OpenRefused (p : FileProc) (flags : UInt32) : Prop :=
  flags &&& ~~~OPEN_FLAGS ≠ 0 ∨ procAllocateFd p = none

instance (p : FileProc) (flags : UInt32) : Decidable (OpenRefused p flags) :=
  inferInstanceAs (Decidable (_ ∨ _))

/-- The path that a call opens, the dnode that the path is relative to, and the flags. The root
folder that `proc_exec` opens for the first process is not one of them. -/
def openCall (s : FileState) : FileCall → Option (List UInt8 × Nat × UInt32)
  | .exec parent _ path _ _ _ => some (path, relativeDnode s.vars (parent.map s.wd), 0)
  | .open p path flags _ =>
    if OpenRefused (s.procs p) flags then none
    else some (path, (s.vars.inodes (s.wd p)).dnode, fsFlags flags)
  | .chdir p path _ => some (path, (s.vars.inodes (s.wd p)).dnode, DZFS_O_DIR)
  | .mkdir p path _ =>
    some (path, (s.vars.inodes (s.wd p)).dnode, DZFS_O_CREATE ||| DZFS_O_DIR)
  | .unlink p path _ => some (path, (s.vars.inodes (s.wd p)).dnode, 0)
  | _ => none

/-- What a file call can do. -/
inductive FileStep (s : FileState) : FileCall → FileState → Prop
  | idle {c : FileCall} (noOpen : openCall s c = none) : FileStep s c s
  /-- The executable is not found. -/
  | execFailed {parent : Option ProcPtr} {child : ProcPtr} {path : List UInt8} {accepted : Bool}
      {serial : Nat} {date : UInt64} {vars : FsVars} (live : ∀ p ∈ parent, p ∈ s.live)
      (opened : fsOpen s.vars path (parent.map s.wd) 0 date = .ok (none, vars)) :
      FileStep s (.exec parent child path accepted serial date) { s with vars := vars }
  /-- The executable is not accepted. -/
  | execRejected {parent : Option ProcPtr} {child : ProcPtr} {path : List UInt8} {serial : Nat}
      {date : UInt64} {vars : FsVars} {i : InodePtr} (live : ∀ p ∈ parent, p ∈ s.live)
      (opened : fsOpen s.vars path (parent.map s.wd) 0 date = .ok (some i, vars)) :
      FileStep s (.exec parent child path false serial date)
        { s with vars := fsClose vars i }
  /-- The new process works where its parent does. -/
  | execChild {p child : ProcPtr} {path : List UInt8} {serial : Nat} {date : UInt64}
      {vars : FsVars} {i : InodePtr} (live : p ∈ s.live) (free : child ∉ s.live)
      (card : s.live.card < MAX_PROCESSES)
      (opened : fsOpen s.vars path (some (s.wd p)) 0 date = .ok (some i, vars)) :
      FileStep s (.exec (some p) child path true serial date)
        ⟨fsDup (fsClose vars i) (s.wd p), insert child s.live,
          Function.update s.procs child ⟨standardFiles serial, s.wd p⟩⟩
  /-- A process without a parent works in the root folder. -/
  | execFirst {child : ProcPtr} {path : List UInt8} {serial : Nat} {date : UInt64}
      {vars vars' : FsVars} {i j : InodePtr} (free : child ∉ s.live)
      (card : s.live.card < MAX_PROCESSES)
      (opened : fsOpen s.vars path none 0 date = .ok (some i, vars))
      (root : fsOpen (fsClose vars i) [SLASH] none DZFS_O_DIR date = .ok (some j, vars')) :
      FileStep s (.exec none child path true serial date)
        ⟨vars', insert child s.live, Function.update s.procs child ⟨standardFiles serial, j⟩⟩
  | exit {p : ProcPtr} (live : p ∈ s.live) :
      FileStep s (.exit p)
        { s with vars := procExit s.vars (s.procs p), live := s.live.erase p }
  | openFailed {p : ProcPtr} {path : List UInt8} {flags : UInt32} {date : UInt64} {vars : FsVars}
      (live : p ∈ s.live) (tried : ¬ OpenRefused (s.procs p) flags)
      (opened : fsOpen s.vars path (some (s.wd p)) (fsFlags flags) date = .ok (none, vars)) :
      FileStep s (.open p path flags date) { s with vars := vars }
  | opened {p : ProcPtr} {path : List UInt8} {flags : UInt32} {date : UInt64} {vars : FsVars}
      {i : InodePtr} {fd : Fin MAX_OPEN_FILES} {file : ProcessFile} (live : p ∈ s.live)
      (tried : ¬ OpenRefused (s.procs p) flags) (empty : (s.file p fd).kind = .FD_EMPTY)
      (kind : file.kind = .FD_INODE i)
      (opened : fsOpen s.vars path (some (s.wd p)) (fsFlags flags) date = .ok (some i, vars)) :
      FileStep s (.open p path flags date) (s.afterCall p vars ((s.procs p).setFile fd file))
  | openedDevice {p : ProcPtr} {deviceIndex : Option Nat} {readble writable : Bool}
      {device : Nat} {fd : Fin MAX_OPEN_FILES} {file : ProcessFile} (live : p ∈ s.live)
      (empty : (s.file p fd).kind = .FD_EMPTY) (kind : file.kind = .FD_DEVICE device) :
      FileStep s (.openDevice p deviceIndex readble writable)
        (s.afterCall p s.vars ((s.procs p).setFile fd file))
  | closed {p : ProcPtr} {number : Int} {fd : Fin MAX_OPEN_FILES} {i : InodePtr}
      (live : p ∈ s.live) (kind : (s.file p fd).kind = .FD_INODE i) :
      FileStep s (.close p number)
        (s.afterCall p (fsClose s.vars i) ((s.procs p).setFile fd ProcessFile.zero))
  | chdirFailed {p : ProcPtr} {path : List UInt8} {date : UInt64} {vars : FsVars}
      (live : p ∈ s.live)
      (opened : fsOpen s.vars path (some (s.wd p)) DZFS_O_DIR date = .ok (none, vars)) :
      FileStep s (.chdir p path date) { s with vars := vars }
  | chdir {p : ProcPtr} {path : List UInt8} {date : UInt64} {vars : FsVars} {i : InodePtr}
      (live : p ∈ s.live)
      (opened : fsOpen s.vars path (some (s.wd p)) DZFS_O_DIR date = .ok (some i, vars)) :
      FileStep s (.chdir p path date)
        (s.afterCall p (fsClose vars (s.wd p)) { s.procs p with workingDirectory := i })
  | mkdir {p : ProcPtr} {path : List UInt8} {date : UInt64} (live : p ∈ s.live) :
      FileStep s (.mkdir p path date) { s with vars := (fsMkdir s.vars path (s.wd p) date).2 }
  | unlink {p : ProcPtr} {path : List UInt8} {date : UInt64} (live : p ∈ s.live) :
      FileStep s (.unlink p path date) { s with vars := (fsDelete s.vars path (s.wd p) date).2 }
  | written {p : ProcPtr} {number : Int} {buffer : List UInt8} {deviceResult : Int}
      {fd : Fin MAX_OPEN_FILES} {file : ProcessFile} {i : InodePtr} {offset : Nat}
      (live : p ∈ s.live) (kind : (s.file p fd).kind = .FD_INODE i) (offset_lt : offset < 2 ^ 32)
      (same : file.kind = (s.file p fd).kind) :
      FileStep s (.write p number buffer deviceResult)
        (s.afterCall p (fsWrite s.vars i buffer offset).2 ((s.procs p).setFile fd file))
  | read {p : ProcPtr} {number : Int} {len : Nat} {deviceResult : Int}
      {fd : Fin MAX_OPEN_FILES} {file : ProcessFile} (live : p ∈ s.live)
      (same : file.kind = (s.file p fd).kind) :
      FileStep s (.read p number len deviceResult)
        (s.afterCall p s.vars ((s.procs p).setFile fd file))

/-- A call that keeps the process and the file system keeps the state. -/
theorem afterCall_self (s : FileState) (p : ProcPtr) :
    s.afterCall p s.vars (s.procs p) = s := by
  simp [FileState.afterCall]

/-- A write of a process that keeps its descriptors. -/
theorem afterCall_vars (s : FileState) (p : ProcPtr) (vars : FsVars) :
    s.afterCall p vars (s.procs p) = { s with vars := vars } := by
  simp [FileState.afterCall]

/-- `proc_allocate_fd` finds an unused descriptor. -/
theorem procAllocateFd_empty {fd : Fin MAX_OPEN_FILES} (h : procAllocateFd p = some fd) :
    (p.openFiles fd).kind = .FD_EMPTY := by
  have hfound := List.find?_some h
  simpa using hfound

/-- What `fs_write` does: it changes the disk as `dzfs_write` does, and the size in the inode. -/
theorem fsWrite_snd (s : FsVars) (i : InodePtr) (buffer : List UInt8) (offset : Nat) :
    ∃ size, (fsWrite s i buffer offset).2 = { s with
      fs := (dzfsWrite s.fs (s.inodes i).dnode buffer offset).2
      inodes := Function.update s.inodes i { s.inodes i with size := size } } := by
  unfold fsWrite
  simp only
  split
  · rename_i heq
    rw [heq]
    exact ⟨_, rfl⟩
  · rename_i heq
    rw [heq]
    refine ⟨(s.inodes i).size, ?_⟩
    rw [Function.update_eq_self]

/-- What `fs_delete` does: it looks the path up, and deletes the entity if there is one. -/
theorem fsDelete_snd (s : FsVars) (path : List UInt8) (i : InodePtr) (date : UInt64) :
    (fsDelete s path i date).2
        = { s with fs := (dzfsOpenRelative s.fs 0 date path (s.inodes i).dnode).2 } ∨
      ∃ d parent,
        (dzfsOpenRelative s.fs 0 date path (s.inodes i).dnode).1
          = ⟨.OK, some d, some parent⟩ ∧
        (fsDelete s path i date).2 = { s with
          fs := (dzfsDelete (dzfsOpenRelative s.fs 0 date path (s.inodes i).dnode).2
            d parent).2 } := by
  unfold fsDelete
  obtain ⟨⟨result, dnode, parentDnode⟩, fs'⟩ :=
    dzfsOpenRelative s.fs 0 date path (s.inodes i).dnode
  simp only
  split
  · rename_i d parent
    exact Or.inr ⟨d, parent, rfl, rfl⟩
  · exact Or.inl rfl

/-- `sys_open` does nothing, or `fs_open` fails, or the inode gets an unused descriptor. -/
theorem sysOpen_cases {s vars : FsVars} (h : sysOpen s p path flags date = .ok (r, vars, proc)) :
    (OpenRefused p flags ∧ vars = s ∧ proc = p) ∨
      (¬ OpenRefused p flags ∧
        fsOpen s path (some p.workingDirectory) (fsFlags flags) date = .ok (none, vars) ∧
        proc = p) ∨
      ∃ i fd file, ¬ OpenRefused p flags ∧
        fsOpen s path (some p.workingDirectory) (fsFlags flags) date = .ok (some i, vars) ∧
        (p.openFiles fd).kind = .FD_EMPTY ∧ file.kind = .FD_INODE i ∧ proc = p.setFile fd file := by
  unfold sysOpen at h
  split at h
  · rename_i hflags
    cases h
    exact Or.inl ⟨Or.inl hflags, rfl, rfl⟩
  · rename_i hflags
    unfold fileOpen at h
    split at h
    · rename_i hfd
      cases h
      exact Or.inl ⟨Or.inr hfd, rfl, rfl⟩
    · rename_i fd hfd
      have htried : ¬ OpenRefused p flags := by
        rintro (h | h)
        · exact hflags h
        · rw [hfd] at h
          cases h
      split at h
      · cases h
      · rename_i hopen
        cases h
        exact Or.inr (Or.inl ⟨htried, hopen, rfl⟩)
      · rename_i i vars' hopen
        cases h
        exact Or.inr (Or.inr ⟨i, fd, _, htried, hopen, procAllocateFd_empty hfd, rfl, rfl⟩)

/-- `device_open` does nothing, or the device gets an unused descriptor. -/
theorem deviceOpen_cases (p : FileProc) (deviceIndex : Option Nat) (readble writable : Bool) :
    (deviceOpen p deviceIndex readble writable).2 = p ∨
      ∃ device fd file, (p.openFiles fd).kind = .FD_EMPTY ∧ file.kind = .FD_DEVICE device ∧
        (deviceOpen p deviceIndex readble writable).2 = p.setFile fd file := by
  unfold deviceOpen
  split
  · exact Or.inl rfl
  · split
    · exact Or.inl rfl
    · rename_i fd hfd
      exact Or.inr ⟨_, fd, _, procAllocateFd_empty hfd, rfl, rfl⟩

/-- `sys_close` does nothing, or it closes a descriptor of an inode. -/
theorem sysClose_cases (s : FsVars) (p : FileProc) (number : Int) :
    (sysClose s p number).2 = (s, p) ∨
      ∃ fd i, (p.openFiles fd).kind = .FD_INODE i ∧
        (sysClose s p number).2 = (fsClose s i, p.setFile fd ProcessFile.zero) := by
  unfold sysClose
  split
  · exact Or.inl rfl
  · rename_i fd hfd
    split
    · exact Or.inl rfl
    · rename_i i hkind
      exact Or.inr ⟨fd, i, hkind, rfl⟩
    · exact Or.inl rfl

/-- `sys_write` does nothing, or it writes to an inode. -/
theorem sysWrite_cases (s : FsVars) (p : FileProc) (number : Int) (buffer : List UInt8)
    (deviceResult : Int) :
    (sysWrite s p number buffer deviceResult).2 = (s, p) ∨
      ∃ fd i file offset, (p.openFiles fd).kind = .FD_INODE i ∧ offset < 2 ^ 32 ∧
        file.kind = (p.openFiles fd).kind ∧
        (sysWrite s p number buffer deviceResult).2
          = ((fsWrite s i buffer offset).2, p.setFile fd file) := by
  unfold sysWrite
  split
  · exact Or.inl rfl
  · rename_i fd hfd
    simp only
    split
    · exact Or.inl rfl
    · split
      · exact Or.inl rfl
      · split
        · exact Or.inl rfl
        · rename_i i hkind
          have hoffset := (p.openFiles fd).offset.toNat_lt
          refine Or.inr ⟨fd, i, ?_⟩
          split
          · refine ⟨p.openFiles fd, _, hkind, hoffset, rfl, ?_⟩
            rw [FileProc.setFile, Function.update_eq_self]
          · refine ⟨_, _, hkind, hoffset, ?_, rfl⟩
            rfl
        · exact Or.inl rfl

/-- `sys_read` changes the offset of a descriptor only. -/
theorem sysRead_cases (s : FsVars) (p : FileProc) (number : Int) (len : Nat)
    (deviceResult : Int) :
    (sysRead s p number len deviceResult).2 = p ∨
      ∃ fd file, file.kind = (p.openFiles fd).kind ∧
        (sysRead s p number len deviceResult).2 = p.setFile fd file := by
  unfold sysRead
  split
  · exact Or.inl rfl
  · rename_i fd hfd
    simp only
    split
    · exact Or.inl rfl
    · split
      · exact Or.inl rfl
      · split
        · exact Or.inl rfl
        · split
          · exact Or.inl rfl
          · refine Or.inr ⟨fd, _, ?_, rfl⟩
            rfl
        · exact Or.inl rfl

/-- `sys_chdir`: `fs_open` fails, or its inode is the new working directory. -/
theorem sysChdir_cases {s vars : FsVars} (h : sysChdir s p path date = .ok (r, vars, proc)) :
    (fsOpen s path (some p.workingDirectory) DZFS_O_DIR date = .ok (none, vars) ∧ proc = p) ∨
      ∃ i vars', fsOpen s path (some p.workingDirectory) DZFS_O_DIR date = .ok (some i, vars') ∧
        vars = fsClose vars' p.workingDirectory ∧ proc = { p with workingDirectory := i } := by
  unfold sysChdir at h
  split at h
  · cases h
  · rename_i hopen
    cases h
    exact Or.inl ⟨hopen, rfl⟩
  · rename_i i vars' hopen
    cases h
    exact Or.inr ⟨i, vars', hopen, rfl, rfl⟩

/-- The caller of a call that does not panic is live. -/
theorem live_of_caller {p : ProcPtr} (h : ¬ ∃ q ∈ c.caller, q ∉ s.live) (hp : c.caller = some p) :
    p ∈ s.live := by
  by_contra hlive
  exact h ⟨p, hp, hlive⟩

/-- A call of `exec` that does not panic. -/
theorem execStep_cases {parent : Option ProcPtr} {child : ProcPtr} {accepted : Bool} {serial : Nat}
    (h : fileStep s (.exec parent child path accepted serial date) = some s') :
    FileStep s (.exec parent child path accepted serial date) s' := by
  unfold fileStep at h
  split at h
  · cases h
  · rename_i hcaller
    have hlive : ∀ p ∈ parent, p ∈ s.live := fun p hp => live_of_caller hcaller hp
    simp only at h
    split at h
    · cases h
    · rename_i hfree
      unfold procExecFiles at h
      cases hopen : fsOpen s.vars path (parent.map s.wd) 0 date with
      | error e =>
        change fsOpen s.vars path (parent.map fun p => (s.procs p).workingDirectory) 0 date
          = _ at hopen
        simp [hopen] at h
      | ok out =>
        obtain ⟨_ | i, vars⟩ := out
        · have hopen' := hopen
          change fsOpen s.vars path (parent.map fun p => (s.procs p).workingDirectory) 0 date
            = _ at hopen'
          simp only [hopen'] at h
          cases h
          exact .execFailed hlive hopen
        · have hopen' := hopen
          change fsOpen s.vars path (parent.map fun p => (s.procs p).workingDirectory) 0 date
            = _ at hopen'
          simp only [hopen'] at h
          cases accepted with
          | false =>
            cases h
            exact .execRejected hlive hopen
          | true =>
            rw [not_and_or, not_or, not_le] at hfree
            obtain ⟨hfree, hcard⟩ := hfree.resolve_left (not_not.mpr rfl)
            cases parent with
            | some p =>
              cases h
              exact .execChild (hlive p rfl) hfree hcard hopen
            | none =>
              simp only [Option.map_none] at h hopen
              cases hroot : fsOpen (fsClose vars i) [SLASH] none DZFS_O_DIR date with
              | error e => simp [hroot] at h
              | ok out =>
                obtain ⟨_ | j, vars'⟩ := out
                · simp [hroot] at h
                · simp only [hroot] at h
                  cases h
                  exact .execFirst hfree hcard hopen hroot

/-- A call that does not panic is one of the cases. -/
theorem fileStep_cases (h : fileStep s c = some s') : FileStep s c s' := by
  have hcaller : ¬ ∃ p ∈ c.caller, p ∉ s.live := by
    intro hcaller
    unfold fileStep at h
    rw [if_pos hcaller] at h
    cases h
  cases c with
  | exec parent child path accepted serial date => exact execStep_cases h
  | exit p =>
    rw [fileStep, if_neg hcaller] at h
    cases h
    exact .exit (live_of_caller hcaller rfl)
  | «open» p path flags date =>
    have hlive := live_of_caller hcaller rfl
    simp only [fileStep, if_neg hcaller] at h
    split at h
    · cases h
    · rename_i hopen
      cases h
      rcases sysOpen_cases hopen with
        ⟨hrefused, rfl, rfl⟩ | ⟨htried, hfs, rfl⟩ | ⟨i, fd, file, htried, hfs, hempty, hkind, rfl⟩
      · rw [afterCall_self]
        exact .idle (if_pos hrefused)
      · rw [afterCall_vars]
        exact .openFailed hlive htried hfs
      · exact .opened hlive htried hempty hkind hfs
  | openDevice p deviceIndex readble writable =>
    have hlive := live_of_caller hcaller rfl
    rw [fileStep, if_neg hcaller] at h
    cases h
    rcases deviceOpen_cases (s.procs p) deviceIndex readble writable with
      heq | ⟨device, fd, file, hempty, hkind, heq⟩
    · rw [heq, afterCall_self]
      exact .idle rfl
    · rw [heq]
      exact .openedDevice hlive hempty hkind
  | close p number =>
    have hlive := live_of_caller hcaller rfl
    simp only [fileStep, if_neg hcaller] at h
    cases h
    show FileStep s _ (s.afterCall p (sysClose s.vars (s.procs p) number).2.1
      (sysClose s.vars (s.procs p) number).2.2)
    rcases sysClose_cases s.vars (s.procs p) number with heq | ⟨fd, i, hkind, heq⟩
    · rw [heq, afterCall_self]
      exact .idle rfl
    · rw [heq]
      exact .closed hlive hkind
  | chdir p path date =>
    have hlive := live_of_caller hcaller rfl
    simp only [fileStep, if_neg hcaller] at h
    split at h
    · cases h
    · rename_i hchdir
      cases h
      rcases sysChdir_cases hchdir with ⟨hfs, rfl⟩ | ⟨i, vars', hfs, rfl, rfl⟩
      · rw [afterCall_vars]
        exact .chdirFailed hlive hfs
      · exact .chdir hlive hfs
  | mkdir p path date =>
    rw [fileStep, if_neg hcaller] at h
    cases h
    exact .mkdir (live_of_caller hcaller rfl)
  | unlink p path date =>
    rw [fileStep, if_neg hcaller] at h
    cases h
    exact .unlink (live_of_caller hcaller rfl)
  | write p number buffer deviceResult =>
    have hlive := live_of_caller hcaller rfl
    simp only [fileStep, if_neg hcaller] at h
    cases h
    show FileStep s _ (s.afterCall p (sysWrite s.vars (s.procs p) number buffer deviceResult).2.1
      (sysWrite s.vars (s.procs p) number buffer deviceResult).2.2)
    rcases sysWrite_cases s.vars (s.procs p) number buffer deviceResult with
      heq | ⟨fd, i, file, offset, hkind, hoffset, hsame, heq⟩
    · rw [heq, afterCall_self]
      exact .idle rfl
    · rw [heq]
      exact .written hlive hkind hoffset hsame
  | read p number len deviceResult =>
    have hlive := live_of_caller hcaller rfl
    rw [fileStep, if_neg hcaller] at h
    cases h
    rcases sysRead_cases s.vars (s.procs p) number len deviceResult with
      heq | ⟨fd, file, hsame, heq⟩
    · rw [heq, afterCall_self]
      exact .idle rfl
    · rw [heq]
      exact .read hlive hsame

/-- A call of `exit` that does not panic. -/
theorem fileStep_exit {p : ProcPtr} (h : fileStep s (.exit p) = some s') :
    p ∈ s.live ∧ s' = { s with vars := procExit s.vars (s.procs p), live := s.live.erase p } := by
  unfold fileStep at h
  split at h
  · cases h
  · rename_i hcaller
    cases h
    exact ⟨live_of_caller hcaller rfl, rfl⟩

/-! ### Runs -/

/-- The states that the calls with `ok` reach. -/
inductive FileReachable (ok : FileState → FileCall → Prop) (s₀ : FileState) : FileState → Prop
  | start : FileReachable ok s₀ s₀
  | call {s s' : FileState} (c : FileCall) : FileReachable ok s₀ s → ok s c →
      fileStep s c = some s' → FileReachable ok s₀ s'

/-- An invariant of the calls holds in every state of a run. -/
theorem FileReachable.induct {P : FileState → Prop} (h : FileReachable ok s₀ s) (h₀ : P s₀)
    (hstep : ∀ s s' c, P s → ok s c → FileStep s c s' → P s') : P s := by
  induction h with
  | start => exact h₀
  | call c _ hok hcall ih => exact hstep _ _ c ih hok (fileStep_cases hcall)

/-- The process table before the first process. -/
def noProcs (_ : ProcPtr) : FileProc := ⟨fun _ => ProcessFile.zero, ⟨0, maxInodes_pos⟩⟩

/-! ### The variables of the file system -/

theorem fsOpen_vars {s s' : FsVars} {relativeTo : Option InodePtr} {r : Option InodePtr}
    (h : fsOpen s path relativeTo flags date = .ok (r, s')) : SameVars s.fs s'.fs := by
  rw [fsOpen_fs h]
  exact dzfsOpenRelative_vars s.fs flags date path _

theorem fsDelete_vars (s : FsVars) (path : List UInt8) (i : InodePtr) (date : UInt64) :
    SameVars s.fs (fsDelete s path i date).2.fs := by
  have hopen := dzfsOpenRelative_vars s.fs 0 date path (s.inodes i).dnode
  rcases fsDelete_snd s path i date with heq | ⟨d, parent, -, heq⟩
  · rw [heq]
    exact hopen
  · rw [heq]
    exact hopen.trans (dzfsDelete_vars _ _ _)

/-- The exit of a process does not touch the disk. -/
theorem closeFiles_fs (p : FileProc) (fds : List (Fin MAX_OPEN_FILES)) (s : FsVars) :
    (closeFiles p fds s).fs = s.fs := by
  induction fds generalizing s with
  | nil => rfl
  | cons fd fds ih =>
    rw [closeFiles]
    split
    · rw [ih, fsClose_fs]
    · exact ih s

/-- A call does not change the variables. -/
theorem FileStep.vars (h : FileStep s c s') : SameVars s.vars.fs s'.vars.fs := by
  cases h with
  | idle => exact SameVars.refl _
  | execFailed _ hopen => exact fsOpen_vars hopen
  | execRejected _ hopen =>
    show SameVars s.vars.fs (fsClose _ _).fs
    rw [fsClose_fs]
    exact fsOpen_vars hopen
  | execChild _ _ _ hopen =>
    show SameVars s.vars.fs (fsDup (fsClose _ _) _).fs
    rw [fsDup_fs, fsClose_fs]
    exact fsOpen_vars hopen
  | execFirst _ _ hopen hroot =>
    have hroot' := fsOpen_vars hroot
    rw [fsClose_fs] at hroot'
    exact (fsOpen_vars hopen).trans hroot'
  | exit =>
    show SameVars s.vars.fs (procExit _ _).fs
    rw [procExit, closeFiles_fs]
    exact SameVars.refl _
  | openFailed _ _ hopen => exact fsOpen_vars hopen
  | opened _ _ _ _ hopen => exact fsOpen_vars hopen
  | openedDevice => exact SameVars.refl _
  | closed =>
    show SameVars s.vars.fs (fsClose _ _).fs
    rw [fsClose_fs]
    exact SameVars.refl _
  | chdirFailed _ hopen => exact fsOpen_vars hopen
  | chdir _ hopen =>
    show SameVars s.vars.fs (fsClose _ _).fs
    rw [fsClose_fs]
    exact fsOpen_vars hopen
  | mkdir => exact dzfsOpenRelative_vars _ _ _ _ _
  | unlink => exact fsDelete_vars _ _ _ _
  | @written p _ _ _ _ _ i offset =>
    obtain ⟨size, heq⟩ := fsWrite_snd s.vars i _ offset
    show SameVars s.vars.fs (fsWrite _ _ _ _).2.fs
    rw [heq]
    exact dzfsWrite_vars _ _ _ _
  | read => exact SameVars.refl _

/-- No run changes the variables. -/
theorem FileReachable.sameVars (h : FileReachable ok s₀ s) : SameVars s₀.vars.fs s.vars.fs :=
  h.induct (P := fun s => SameVars s₀.vars.fs s.vars.fs) (SameVars.refl _)
    fun _ _ _ ih _ hstep => ih.trans hstep.vars

end DzOS.Proofs.Fs
