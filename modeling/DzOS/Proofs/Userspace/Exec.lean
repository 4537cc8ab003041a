import DzOS.Lib.Outcome
import DzOS.Userspace.Exec
import DzOS.Proofs.Fs.FileCalls
import DzOS.Proofs.Fs.InodeTable
import DzOS.Proofs.Fs.Runs
import DzOS.Proofs.Sched.StackSlots

/-!
# `DzOS.Proofs.Userspace.Exec`: how a call of `proc_exec` ends

`procExec_cases` lists the ways a call can end, with what holds on the way, and `execStart_cases`
does the same for its last part. The proofs about `proc_exec` start from these two.
`procExec_files` says that the call has the effect on the files that `procExecFiles` describes.
-/

set_option autoImplicit false

namespace DzOS.Proofs.Userspace

open DzOS.Lib DzOS.Mem DzOS.Fs DzOS.Userspace
open DzOS.Sched (ProcState ProcPtr SchedState procAllocate findSlot)

variable {pages : List UInt64} {procs : ProcState} {s : ExecState} {c : ExecCall} {o : ExecOutcome}

/-! ### The new process -/

/-- The slot that `proc_allocate` finds is free. -/
theorem findSlot_free {sched : SchedState} {i : Nat} (h : findSlot sched = some i) :
    sched.processes i = none := by
  unfold Sched.findSlot at h
  split at h
  · rename_i hzero
    cases h
    exact hzero
  · obtain ⟨-, -, hfree, -⟩ := scan_eq_some h
    exact Option.isNone_iff_eq_none.mp hfree

/-- `proc_allocate` returns `NULL` exactly if there is no free slot. -/
theorem procAllocate_none_iff {p : ProcPtr} {r : Option (ProcState × List UInt64)}
    (h : procAllocate procs p pages = .ok r) : r = none ↔ findSlot procs.sched = none := by
  unfold Sched.procAllocate at h
  split at h
  · rename_i hslot
    cases h
    exact iff_of_true rfl hslot
  · rename_i i hslot
    refine iff_of_false ?_ (by rw [hslot]; exact Option.some_ne_none i)
    split at h
    · cases h
    · dsimp only at h
      split at h
      · cases h
      · cases h
        exact Option.some_ne_none _

/-- What `proc_allocate` does when it finds a slot. -/
structure Allocated (procs procs' : ProcState) (p : ProcPtr) (pages rest : List UInt64) :
    Prop where
  slot : ∃ i, findSlot procs.sched = some i ∧
    procs'.sched.processes = Function.update procs.sched.processes i (some p)
  kernel : procs'.kernel = procs.kernel
  table : vmmUserPagetableNew procs.kernel.kernelPagetable pages
    = .ok (some (procs'.pagetable p), rest)

section

variable {procs' : ProcState} {p : ProcPtr} {rest : List UInt64}
  (h : procAllocate procs p pages = .ok (some (procs', rest)))

include h

/-- A new process takes a free slot and gets a page table of its own. -/
theorem procAllocate_allocated : Allocated procs procs' p pages rest := by
  unfold Sched.procAllocate at h
  split at h
  · cases h
  rename_i i hslot
  split at h
  · cases h
  rename_i s₁ rest₁ hinit
  unfold Sched.isValidProcessInit at hinit
  split at hinit
  · cases hinit
  · cases hinit
  rename_i t _ hnew
  cases hinit
  dsimp only at h
  split at h
  · cases h
  cases h
  have hself : Function.update procs.pagetable p t p = t := Function.update_self ..
  exact {
    slot := ⟨i, hslot, rfl⟩
    kernel := rfl
    table := hnew.trans (congrArg (fun t => Except.ok (some t, rest)) hself.symm) }

/-- The slot of a new process. -/
theorem procAllocate_slot :
    ∃ i < 64, findSlot procs.sched = some i ∧ (procs'.sched.procs p).i = i := by
  unfold Sched.procAllocate at h
  split at h
  · cases h
  rename_i i hslot
  have hi : i < 64 := by
    unfold Sched.findSlot at hslot
    split at hslot
    · cases hslot
      decide
    · obtain ⟨h1, h2, -⟩ := scan_eq_some hslot
      have hmax : Sched.MAX_PROCESSES = 64 := rfl
      omega
  refine ⟨i, hi, hslot, ?_⟩
  split at h
  · cases h
  rename_i s₁ rest₁ hinit
  unfold Sched.isValidProcessInit at hinit
  split at hinit
  · cases hinit
  · cases hinit
  cases hinit
  dsimp only at h
  split at h
  · cases h
  cases h
  simp [Sched.newProcess]

end

/-! ### The ends of a call -/

/-- The last part of `proc_exec`, when it does not panic. -/
structure Started (s : ExecState) (c : ExecCall) (i : InodePtr) (rip : UInt64) (l : Loading)
    (o : ExecOutcome) : Prop where
  pid : o.pid = some (s.procs.sched.procs c.p).pid
  stack : setupStack l.space.pagetable l.space.mem c.args
    = .ok ⟨(o.state.programs c.p).rsp, o.state.mem⟩
  rip : (o.state.programs c.p).rip = rip
  pagetable : o.state.procs.pagetable c.p = l.space.pagetable
  kernelStack : ∃ top t rest, vmmAllocateProcKernelStack s.procs.kernel.kernelPagetable
    (s.procs.sched.procs c.p).i l.space.pages = .ok (top, t, rest)
  files : ∃ serial wd, c.serial = some serial ∧
    execWorkingDirectory (fsClose s.vars i) c.workingDirectory c.date = .ok (wd, o.state.vars) ∧
    (o.state.programs c.p).files = ⟨standardFiles serial, wd⟩

/-- What the last part does. -/
theorem execStart_cases {i : InodePtr} {rip : UInt64} {l : Loading}
    (h : execStart s c i rip l = .ok o) : Started s c i rip l o := by
  unfold execStart at h
  split at h
  · cases h
  rename_i b hstack
  split at h
  · cases h
  rename_i serial hserial
  split at h
  · cases h
  rename_i top t rest hkernel
  split at h
  · cases h
  rename_i wd vars hwd
  cases h
  exact {
    pid := rfl
    stack := by simpa using hstack
    rip := by simp
    pagetable := by simp
    kernelStack := ⟨top, t, rest, hkernel⟩
    files := ⟨serial, wd, hserial, hwd, by simp⟩ }

/-- The ways a call of `proc_exec` can end. -/
inductive ExecCases (s : ExecState) (c : ExecCall) : ExecOutcome → Prop
  | notOpened {vars : FsVars}
      (hopen : fsOpen s.vars c.path c.workingDirectory 0 c.date = .ok (none, vars)) :
      ExecCases s c ⟨none, { s with vars := vars }, c.pages, []⟩
  | notElf {vars : FsVars} {i : InodePtr}
      (hopen : fsOpen s.vars c.path c.workingDirectory 0 c.date = .ok (some i, vars))
      (helf : ∀ elf, readElfHeader vars i = some elf → elf.magic ≠ ELF_MAGIC) :
      ExecCases s c (execBad { s with vars := vars } c i)
  | noSlot {vars : FsVars} {i : InodePtr}
      (hopen : fsOpen s.vars c.path c.workingDirectory 0 c.date = .ok (some i, vars))
      (hproc : procAllocate s.procs c.p c.pages = .ok none) :
      ExecCases s c (execBad { s with vars := vars } c i)
  | rejected {vars : FsVars} {i : InodePtr} {elf : ElfHeader} {procs : ProcState}
      {pages : List UInt64} (space : UserSpace)
      (hopen : fsOpen s.vars c.path c.workingDirectory 0 c.date = .ok (some i, vars))
      (helf : readElfHeader vars i = some elf) (hmagic : elf.magic = ELF_MAGIC)
      (hproc : procAllocate s.procs c.p c.pages = .ok (some (procs, pages))) :
      ExecCases s c (execBadProc { s with vars := vars, procs := procs } c i space)
  | started {vars : FsVars} {i : InodePtr} {elf : ElfHeader} {procs : ProcState}
      {pages : List UInt64} {bias : UInt64} {l : Loading} {o : ExecOutcome}
      (hopen : fsOpen s.vars c.path c.workingDirectory 0 c.date = .ok (some i, vars))
      (helf : readElfHeader vars i = some elf) (hmagic : elf.magic = ELF_MAGIC)
      (hproc : procAllocate s.procs c.p c.pages = .ok (some (procs, pages)))
      (hbias : loadBias elf = some bias)
      (hload : loadPrograms vars i bias elf.phnum.toNat elf.phoff
        ⟨⟨procs.pagetable c.p, s.mem, pages, [], c.recycled⟩, 0⟩ = .ok (true, l))
      (hstart : Started { s with vars := vars, procs := procs } c i (bias + elf.entry) l o) :
      ExecCases s c o

/-- Every call ends in one of these ways. -/
theorem procExec_cases (h : procExec s c = .ok o) : ExecCases s c o := by
  unfold procExec at h
  split at h
  · cases h
  · rename_i vars hopen
    cases h
    exact .notOpened hopen
  rename_i i vars hopen
  dsimp only at h
  split at h
  · rename_i helf
    cases h
    exact .notElf hopen fun elf hsome => by rw [helf] at hsome; cases hsome
  rename_i elf helf
  split at h
  · rename_i hmagic
    cases h
    exact .notElf hopen fun elf' hsome => by
      rw [helf] at hsome
      cases hsome
      exact hmagic
  rename_i hmagic
  rw [not_not] at hmagic
  split at h
  · cases h
  · rename_i hproc
    cases h
    exact .noSlot hopen hproc
  rename_i procs pages hproc
  unfold execLoad at h
  dsimp only at h
  split at h
  · cases h
    exact .rejected _ hopen helf hmagic hproc
  rename_i bias hbias
  split at h
  · cases h
  · cases h
    exact .rejected _ hopen helf hmagic hproc
  · rename_i l hload
    exact .started hopen helf hmagic hproc hbias hload (execStart_cases h)

/-- The effect of an accepted program on the files. -/
theorem procExecFiles_accepted {vars vars₁ vars₂ : FsVars} {path : List UInt8}
    {workingDirectory : Option InodePtr} {date : UInt64} {i wd : InodePtr}
    (hopen : fsOpen vars path workingDirectory 0 date = .ok (some i, vars₁))
    (hwd : execWorkingDirectory (fsClose vars₁ i) workingDirectory date = .ok (wd, vars₂))
    (serial : Nat) :
    procExecFiles vars path workingDirectory true serial date
      = .ok (some ⟨standardFiles serial, wd⟩, vars₂) := by
  rw [procExecFiles, hopen]
  cases workingDirectory with
  | some j =>
    cases hwd
    rfl
  | none =>
    unfold execWorkingDirectory at hwd
    dsimp only at hwd ⊢
    cases hroot : fsOpen (fsClose vars₁ i) [SLASH] none DZFS_O_DIR date with
    | error e =>
      rw [hroot] at hwd
      cases hwd
    | ok r =>
      rw [hroot] at hwd
      obtain ⟨_ | j, vars'⟩ := r
      · cases hwd
      · cases hwd
        rfl

/-- The effect of a call on the files. -/
theorem procExec_files (h : procExec s c = .ok o) :
    ∃ serial files, procExecFiles s.vars c.path c.workingDirectory o.pid.isSome serial c.date
        = .ok (files, o.state.vars) ∧ files.isSome = o.pid.isSome ∧
      ∀ f ∈ files, f = (o.state.programs c.p).files := by
  cases procExec_cases h with
  | notOpened hopen =>
    refine ⟨0, none, ?_, rfl, fun f hf => by cases hf⟩
    rw [procExecFiles, hopen]
  | notElf hopen helf =>
    refine ⟨0, none, ?_, rfl, fun f hf => by cases hf⟩
    rw [procExecFiles, hopen]
    rfl
  | noSlot hopen hproc =>
    refine ⟨0, none, ?_, rfl, fun f hf => by cases hf⟩
    rw [procExecFiles, hopen]
    rfl
  | rejected space hopen helf hmagic hproc =>
    refine ⟨0, none, ?_, rfl, fun f hf => by cases hf⟩
    rw [procExecFiles, hopen]
    rfl
  | started hopen helf hmagic hproc hbias hload hstart =>
    obtain ⟨serial, wd, hserial, hwd, hfiles⟩ := hstart.files
    refine ⟨serial, some ⟨standardFiles serial, wd⟩, ?_, by rw [hstart.pid]; rfl, ?_⟩
    · rw [hstart.pid]
      exact procExecFiles_accepted hopen hwd serial
    · intro f hf
      cases hf
      exact hfiles.symm

/-! ### A machine with one program -/

/-- The bytes of a file header. The fields that the kernel does not read are 0. -/
def elfBytes (elf : ElfHeader) : List UInt8 :=
  Bytes.slice (((((Bytes.zero.setLE 4 0 elf.magic.toNat).setLE 2 16 elf.type.toNat).setLE 8 24
    elf.entry.toNat).setLE 8 32 elf.phoff.toNat).setLE 2 56 elf.phnum.toNat) 0 ELF_HEADER_SIZE

/-- The bytes of a program header. -/
def programHeaderBytes (ph : ProgramHeader) : List UInt8 :=
  Bytes.slice ((((((Bytes.zero.setLE 4 0 ph.type.toNat).setLE 4 4 ph.flags.toNat).setLE 8 8
    ph.off.toNat).setLE 8 16 ph.vaddr.toNat).setLE 8 32 ph.filesz.toNat).setLE 8 40
    ph.memsz.toNat) 0 PROGRAM_HEADER_SIZE

/-- A machine without processes, with `program` in the file `f`. -/
def machineWith (program : List UInt8) : ExecState where
  procs := Sched.StackSlots.emptyMachine
  programs := fun p => ⟨0, 0, 0, 0, 0, 0, Proofs.Fs.noProcs p⟩
  vars := FsVars.boot (Proofs.Fs.exec Proofs.Fs.oneFileState (.write 4 program 0)).fs
  mem := Bytes.zero
  physMaxEnd := 0x40000000

/-- The addresses that the allocator of a new machine returns in a call of `proc_exec`: the table,
the blocks of the three stacks, and single pages. -/
def execPages : List UInt64 :=
  0x100000 :: 0x101000 :: 0x109000 :: 0x111000 ::
    (List.range 32).map fun i => UInt64.ofNat (0x119000 + i * 0x1000)

/-- A call that starts the file `f`. -/
def execF (args : List (List UInt8)) : ExecCall where
  path := [SLASH, 102]
  args := args
  workingDirectory := none
  date := 0
  serial := some 0
  p := 1
  pages := execPages
  recycled := fun _ => false

end DzOS.Proofs.Userspace
