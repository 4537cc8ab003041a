import DzOS.Lib.Run
import DzOS.Proofs.Userspace.Exec

/-!
# `DzOS.Proofs.Userspace.FailedExec`: when a failing `proc_exec` releases what it took

A failing call should leave the process table, the references to the inodes and the allocated
pages as they were (`Released`). The label `bad` closes the executable and frees the address space,
but it leaves the new process in `processes[]`, and `process_count` and `process_min_index` as
`proc_allocate` set them.

So a failing call releases everything exactly if it fails before it has a process (`FailsEarly`).
`failed_execs_release_iff` says this for each call of a run, and that the tables are the same in
all states of a run of failing calls under no other condition.
-/

set_option autoImplicit false

namespace DzOS.Proofs.Userspace

open DzOS.Lib DzOS.Mem DzOS.Fs DzOS.Userspace DzOS.Proofs.Fs
open DzOS.Sched (ProcState ProcPtr SchedState procAllocate findSlot isValidProcessInit)

variable {date : UInt64} {vars' vars : FsVars} {i : InodePtr} {flags : UInt32} {path : List UInt8}
  {relativeTo : Option InodePtr} {s s' s'' : ExecState} {c : ExecCall} {o : ExecOutcome}

/-- The references to an inode. An empty one has none. -/
def references (vars : FsVars) (i : InodePtr) : UInt32 :=
  if (vars.inodes i).type = .EMPTY then 0 else (vars.inodes i).referenceCount

/-- The process table and the references to the inodes are the same in two states. -/
structure Unchanged (s s' : ExecState) : Prop where
  processes : s'.procs.sched.processes = s.procs.sched.processes
  processCount : s'.procs.sched.processCount = s.procs.sched.processCount
  processMinIndex : s'.procs.sched.processMinIndex = s.procs.sched.processMinIndex
  references : ∀ i, references s'.vars i = references s.vars i

/-- The addresses that the page allocator returned in a call. -/
def takenPages (c : ExecCall) (o : ExecOutcome) : List UInt64 :=
  c.pages.take (c.pages.length - o.pages.length)

/-- A call leaves the tables as they were, and the pages that it gave back are those that it
took. Some of its allocations are blocks of eight pages. -/
structure Released (s : ExecState) (c : ExecCall) (o : ExecOutcome) : Prop where
  tables : Unchanged s o.state
  freed : ∀ page ∈ takenPages c o, page ∈ o.freed
  taken : ∀ page ∈ o.freed, ∃ block ∈ takenPages c o, ∃ k < 8,
    page = block + UInt64.ofNat k * PAGE_SIZE.toUInt64

/-- The call fails before it has a process: the file cannot be opened, it has no ELF header, or
the process table has no free slot. -/
def FailsEarly (s : ExecState) (c : ExecCall) : Prop :=
  match fsOpen s.vars c.path c.workingDirectory 0 c.date with
  | .ok (some i, vars) =>
    (readElfHeader vars i).all (fun elf => elf.magic != ELF_MAGIC) = true ∨
      findSlot s.procs.sched = none
  | _ => True

instance (s : ExecState) (c : ExecCall) : Decidable (FailsEarly s c) :=
  match hopen : fsOpen s.vars c.path c.workingDirectory 0 c.date with
  | .ok (some i, vars) =>
    decidable_of_iff ((readElfHeader vars i).all (fun elf => elf.magic != ELF_MAGIC) = true ∨
      findSlot s.procs.sched = none) (by rw [FailsEarly, hopen])
  | .ok (none, _) => isTrue (by rw [FailsEarly, hopen]; trivial)
  | .error _ => isTrue (by rw [FailsEarly, hopen]; trivial)

/-- The call returns -1. -/
def Fails (s : ExecState) (c : ExecCall) : Prop :=
  match procExec s c with
  | .ok o => o.pid = none
  | .error _ => False

instance (s : ExecState) (c : ExecCall) : Decidable (Fails s c) :=
  match h : procExec s c with
  | .ok o => decidable_of_iff (o.pid = none) (by rw [Fails, h])
  | .error _ => isFalse (by rw [Fails, h]; exact id)

/-- One call, or `none` when it panics. -/
def execStep (s : ExecState) (c : ExecCall) : Option ExecState :=
  match procExec s c with
  | .ok o => some o.state
  | .error _ => none

theorem Unchanged.trans (h : Unchanged s s') (h' : Unchanged s' s'') : Unchanged s s'' where
  processes := h'.processes.trans h.processes
  processCount := h'.processCount.trans h.processCount
  processMinIndex := h'.processMinIndex.trans h.processMinIndex
  references i := (h'.references i).trans (h.references i)

/-! ### The file -/

/-- An open that fails changes no references. -/
theorem references_fsOpen_none (h : fsOpen vars path relativeTo flags date = .ok (none, vars'))
    (i : InodePtr) : references vars' i = references vars i := by
  rw [fsOpen_none h]
  rfl

/-- A close takes one reference away. -/
theorem references_fsClose_self (used : (vars.inodes i).type ≠ .EMPTY) :
    references (fsClose vars i) i = (vars.inodes i).referenceCount - 1 := by
  by_cases hlast : (vars.inodes i).referenceCount - 1 = 0
  · have hclose : fsClose vars i = vars.setInode i FsInode.zero := if_pos hlast
    rw [hclose, references, setInode_self, if_pos (show FsInode.zero.type = .EMPTY from rfl)]
    exact hlast.symm
  · rw [Fs.fsClose, if_neg hlast, references, setInode_self, if_neg used]

/-- A close of another inode. -/
theorem references_fsClose_of_ne (vars : FsVars) {j : InodePtr} (h : j ≠ i) :
    references (fsClose vars i) j = references vars j := by
  have hsame : (fsClose vars i).inodes j = vars.inodes j := by
    unfold Fs.fsClose
    dsimp only
    split
    · exact setInode_of_ne vars h _
    · exact setInode_of_ne vars h _
  rw [references, hsame, references]

/-- An open that is followed by the close of its inode changes no references. -/
theorem references_openClose (h : fsOpen vars path relativeTo flags date = .ok (some i, vars'))
    (j : InodePtr) : references (fsClose vars' i) j = references vars j := by
  rcases fsOpen_cases rfl h with ⟨hnone, -⟩ | ⟨d, parent, -, hopened⟩
  · cases hnone
  by_cases hji : j = i
  · subst hji
    cases hopened with
    | shared used dnode =>
      -- The open added one reference, and the close takes it away.
      rw [references_fsClose_self (by rw [setInode_self]; exact used), setInode_self, references,
        if_neg used]
      exact add_sub_cancel_right _ _
    | taken empty absent htype =>
      rw [references_fsClose_self (by rw [setInode_self]; exact inodeType_ne_empty htype),
        setInode_self, references, if_pos empty]
      exact sub_self 1
  · rw [references_fsClose_of_ne _ hji]
    cases hopened with
    | shared used dnode => rw [references, setInode_of_ne _ hji, references]
    | taken empty absent htype => rw [references, setInode_of_ne _ hji, references]

/-- The label `bad` without a process. -/
theorem released_execBad
    (hopen : fsOpen s.vars c.path c.workingDirectory 0 c.date = .ok (some i, vars)) :
    Released s c (execBad { s with vars := vars } c i) where
  tables := ⟨rfl, rfl, rfl, references_openClose hopen⟩
  freed page hpage := by
    rw [takenPages, execBad, Nat.sub_self] at hpage
    cases hpage
  taken page hpage := by cases hpage

/-- A new process takes a slot of the table. -/
theorem procAllocate_processes {procs procs' : ProcState} {p : ProcPtr}
    {pages rest : List UInt64} (h : procAllocate procs p pages = .ok (some (procs', rest))) :
    procs'.sched.processes ≠ procs.sched.processes := by
  obtain ⟨i, hslot, hprocesses⟩ := (procAllocate_allocated h).slot
  intro hsame
  have hnew := congrFun hsame i
  rw [hprocesses, Function.update_self, findSlot_free hslot] at hnew
  cases hnew

/-! ### Failing calls -/

/-- A failing call releases what it took exactly if it fails early. Otherwise the process table
has changed. -/
theorem released_cases (h : procExec s c = .ok o) (hfail : o.pid = none) :
    (FailsEarly s c ∧ Released s c o) ∨ (¬ FailsEarly s c ∧ ¬ Unchanged s o.state) := by
  cases procExec_cases h with
  | notOpened hopen =>
    left
    constructor
    · rw [FailsEarly, hopen]
      trivial
    · exact {
        tables := ⟨rfl, rfl, rfl, references_fsOpen_none hopen⟩
        freed := fun page hpage => by
          rw [takenPages, Nat.sub_self] at hpage
          cases hpage
        taken := fun page hpage => by cases hpage }
  | @notElf vars i hopen helf =>
    left
    constructor
    · rw [FailsEarly, hopen]
      left
      cases hheader : readElfHeader vars i with
      | none => rfl
      | some elf => simpa using helf elf hheader
    · exact released_execBad hopen
  | noSlot hopen hproc =>
    left
    constructor
    · rw [FailsEarly, hopen]
      exact Or.inr ((procAllocate_none_iff hproc).mp rfl)
    · exact released_execBad hopen
  | rejected space hopen helf hmagic hproc =>
    right
    constructor
    · rw [FailsEarly, hopen]
      rintro (hheader | hslot)
      · rw [helf] at hheader
        simp [hmagic] at hheader
      · exact Option.some_ne_none _ ((procAllocate_none_iff hproc).mpr hslot)
    · intro hsame
      exact procAllocate_processes hproc hsame.processes
  | started hopen helf hmagic hproc hbias hload hstart =>
    rw [hstart.pid] at hfail
    cases hfail

/-- A failing call releases what it took exactly if it fails before it has a process. -/
theorem released_iff (h : procExec s c = .ok o) (hfail : o.pid = none) :
    Released s c o ↔ FailsEarly s c := by
  rcases released_cases h hfail with ⟨hearly, hreleased⟩ | ⟨hlate, hchanged⟩
  · exact iff_of_true hreleased hearly
  · exact iff_of_false (fun hreleased => hchanged hreleased.tables) hlate

/-- The state after a failing call. -/
theorem execStep_fails (hfail : Fails s c) (h : execStep s c = some s') :
    ∃ o, procExec s c = .ok o ∧ o.pid = none ∧ o.state = s' := by
  unfold Fails at hfail
  unfold execStep at h
  split at hfail
  · rename_i o ho
    rw [ho] at h
    exact ⟨o, ho, hfail, Option.some.inj h⟩
  · cases hfail

/-- The tables stay the same in a run of failing calls exactly if each call fails early. -/
theorem unchanged_throughout_iff {calls : List ExecCall}
    (hrun : runSteps execStep s calls = some s') (hfails : EachCall execStep s calls Fails) :
    Throughout execStep s calls (Unchanged s) ↔ EachCall execStep s calls FailsEarly := by
  refine throughout_iff (fun _ h => h) ?_ ?_ ⟨rfl, rfl, rfl, fun _ => rfl⟩ hfails hrun
  · intro t c t' ht hfail hstep hearly
    obtain ⟨o, ho, hpid, rfl⟩ := execStep_fails hfail hstep
    exact ht.trans ((released_iff ho hpid).mpr hearly).tables
  · intro t c t' ht hfail hstep hlate hsame
    obtain ⟨o, ho, hpid, rfl⟩ := execStep_fails hfail hstep
    rcases released_cases ho hpid with ⟨hearly, -⟩ | ⟨-, hchanged⟩
    · exact hlate hearly
    · apply hchanged
      exact {
        processes := hsame.processes.trans ht.processes.symm
        processCount := hsame.processCount.trans ht.processCount.symm
        processMinIndex := hsame.processMinIndex.trans ht.processMinIndex.symm
        references := fun i => (hsame.references i).trans (ht.references i).symm }

/-- The panics of `fs_open`. -/
theorem fsOpen_error {e : String} (h : fsOpen vars path relativeTo flags date = .error e) :
    e = "fs_open stat failed" ∨ e = "open: invalid dnode type" := by
  unfold Fs.fsOpen at h
  dsimp only at h
  split at h
  · unfold openInode at h
    split at h
    · cases h
    · cases h
    · dsimp only at h
      split at h
      · cases h
        exact Or.inl rfl
      · split at h
        · cases h
          exact Or.inr rfl
        · cases h
  · cases h

/-- A call that fails early does not reach the limit of the process table. -/
theorem procExec_early_no_limit (hearly : FailsEarly s c) :
    procExec s c ≠ .error "hit process limit - 1" := by
  intro h
  unfold procExec at h
  unfold FailsEarly at hearly
  split at h
  · rename_i e hopen
    cases h
    have hpanic := fsOpen_error hopen
    simp at hpanic
  · cases h
  rename_i i vars hopen
  rw [hopen] at hearly
  dsimp only at h hearly
  split at h
  · cases h
  rename_i elf helf
  split at h
  · cases h
  rename_i hmagic
  rcases hearly with hheader | hslot
  · rw [helf] at hheader
    exact hmagic (by simpa using hheader)
  · rw [Sched.procAllocate, hslot] at h
    cases h

/-- In a run of failing calls, each call releases what it took exactly if it fails before it has a
process, and the tables are the same in all states exactly if all calls fail so. A further call of
this kind does not run into the limit of the process table. -/
theorem failed_execs_release_iff {calls : List ExecCall}
    (hrun : runSteps execStep s calls = some s') (hfails : EachCall execStep s calls Fails) :
    (∀ front c t o, front ++ [c] <+: calls → runSteps execStep s front = some t →
        procExec t c = .ok o → (Released t c o ↔ FailsEarly t c)) ∧
      (Throughout execStep s calls (Unchanged s) ↔ EachCall execStep s calls FailsEarly) ∧
      ∀ c, FailsEarly s' c → procExec s' c ≠ .error "hit process limit - 1" := by
  refine ⟨?_, unchanged_throughout_iff hrun hfails, fun c => procExec_early_no_limit⟩
  intro front c t o hfront ht ho
  have hfail := hfails front c t hfront ht
  rw [Fails, ho] at hfail
  exact released_iff ho hfail

/-! ### Two programs -/

/-- Two calls of a file that is too short for a header. -/
def shortFileCalls : List ExecCall := [execF [], execF []]

/-- The law for these calls. -/
theorem failed_execs_release_iff_shortFile :
    Throughout execStep (machineWith []) shortFileCalls (Unchanged (machineWith [])) ↔
      EachCall execStep (machineWith []) shortFileCalls FailsEarly :=
  (failed_execs_release_iff (runSteps_getD (show (runSteps execStep (machineWith [])
      shortFileCalls).isSome by decide +kernel))
    (show EachCall execStep (machineWith []) shortFileCalls Fails by decide +kernel)).2.1

/-- A file header with a type that is not supported. -/
def unsupportedType : List UInt8 :=
  elfBytes { magic := ELF_MAGIC, type := 0, entry := 0, phoff := 0, phnum := 0 }

/-- The process of a program with this header stays in the table. -/
theorem unsupportedType_keeps_slot :
    ∃ o, procExec (machineWith unsupportedType) (execF []) = .ok o ∧ o.pid = none ∧
      ¬ Released (machineWith unsupportedType) (execF []) o := by
  have hrun : ((procExec (machineWith unsupportedType) (execF [])).toOption.map fun o =>
      decide (o.pid = none ∧ o.state.procs.sched.processes 0 = some 1)) = some true := by
    decide +kernel
  obtain ⟨o, ho, hbad⟩ := Option.map_eq_some_iff.mp hrun
  obtain ⟨hpid, hslot⟩ := of_decide_eq_true hbad
  refine ⟨o, eq_ok_of_toOption ho, hpid, fun hreleased => ?_⟩
  have hempty : (machineWith unsupportedType).procs.sched.processes 0 = none := rfl
  rw [hreleased.tables.processes, hempty] at hslot
  cases hslot

end DzOS.Proofs.Userspace
