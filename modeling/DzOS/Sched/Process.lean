import DzOS.Lib.Scan
import DzOS.Mem.AddressSpace
import DzOS.Sched.Scheduler

/-!
# `DzOS.Sched.Process`: the life of a process, `proc.c`, `exec.c` and `scheduler.c`

`proc_exec` takes a slot of the process table, makes the page table of the new process and maps
its kernel stack. When the scheduler finds the process exited, it unmaps the stack and takes the
process out of the table. The stack has the slot `orig_i` that the process got in the table
first, and `i` is the slot that it has now.

Only what concerns the table and the kernel half of the address spaces appears: the program
file, the user memory, the open files and the first scheduling of the process do not. The page
of a new `struct process` is an argument of the step. `pages` are the other pages that the
allocator returns.
-/

set_option autoImplicit false

namespace DzOS.Sched

open DzOS.Lib DzOS.Mem

/-- The variables of the scheduler with `orig_i`, `pagetable` and `kernel_stack_top` of the
processes, `next_pid`, and the kernel half of the address space. -/
structure ProcState where
  sched : SchedState
  origI : ProcPtr → Nat
  pagetable : ProcPtr → PageTree 3
  kernelStackTop : ProcPtr → UInt64
  nextPid : UInt64
  kernel : KernelSpace

/-! ### Creation -/

/-- The record of a new process in the slot `i`. -/
def newProcess (pid : UInt64) (i : Nat) : Process where
  pid := pid
  i := i
  state := .USED
  waitingChannel := none
  sched := SchedEntity.zero

/-- `is_valid_process_init` for an empty slot `i`, with the new record at `p`. -/
def isValidProcessInit (s : ProcState) (i : Nat) (p : ProcPtr) (pages : List UInt64) :
    Except String (ProcState × List UInt64) :=
  match vmmUserPagetableNew s.kernel.kernelPagetable pages with
  | .error e => .error e
  | .ok (none, _) => .error "out of memory"
  | .ok (some t, pages) =>
    .ok ({ s with
      sched := { s.sched with
        procs := Function.update s.sched.procs p (newProcess s.nextPid i)
        processes := Function.update s.sched.processes i (some p) }
      origI := Function.update s.origI p i
      pagetable := Function.update s.pagetable p t
      nextPid := s.nextPid + 1 }, pages)

/-- The slot that the two loops of `proc_allocate` find. The first loop looks at slot 0 only,
and the second one starts at `process_min_index`. -/
def findSlot (s : SchedState) : Option Nat :=
  if s.processes 0 = none then some 0
  else
    scan (fun i => (s.processes i).isNone) (MAX_PROCESSES - s.processMinIndex) s.processMinIndex

/-- `proc_allocate`: `none` when no slot is free. -/
def procAllocate (s : ProcState) (p : ProcPtr) (pages : List UInt64) :
    Except String (Option (ProcState × List UInt64)) :=
  match findSlot s.sched with
  | none => .ok none
  | some i =>
    match isValidProcessInit s i p pages with
    | .error e => .error e
    | .ok (s, pages) =>
      let count := if s.origI p = s.sched.processCount then s.sched.processCount + 1
        else s.sched.processCount
      match scan (fun i => (s.sched.processes i).isNone) (MAX_PROCESSES - (s.origI p + 1))
          (s.origI p + 1) with
      | none => .error "hit process limit - 1"
      | some minIndex =>
        .ok (some ({ s with
          sched := { s.sched with processCount := count, processMinIndex := minIndex } }, pages))

/-- `proc_exec` with a good program file. The result is `none` when there is no free slot. -/
def procExec (s : ProcState) (p : ProcPtr) (pages : List UInt64) :
    Except String (Option ProcState) :=
  match procAllocate s p pages with
  | .error e => .error e
  | .ok none => .ok none
  | .ok (some (s, pages)) =>
    match vmmAllocateProcKernelStack s.kernel.kernelPagetable (s.sched.procs p).i pages with
    | .error e => .error e
    | .ok (top, t, _) =>
      .ok (some { s with
        kernelStackTop := Function.update s.kernelStackTop p top
        kernel := { s.kernel with kernelPagetable := t } })

/-! ### The end of a process -/

/-- The clean-up of the exited process at `p`. -/
def procReap (s : ProcState) (p : ProcPtr) : Except String ProcState :=
  match vmmFreeProcKernelStack s.kernel.kernelPagetable (s.origI p) with
  | .error e => .error e
  | .ok t =>
    .ok { s with
      sched := reapProcess s.sched p (s.sched.procs p).i
      kernel := { s.kernel with kernelPagetable := t } }

/-! ### Runs -/

/-- A step in the life of a process: it is created at `p`, or it is cleaned up. -/
inductive ProcAct where
  | exec (p : ProcPtr) (pages : List UInt64)
  | exit (p : ProcPtr)
  deriving DecidableEq, Repr

/-- One step that succeeds, or `none`. A new record is not at the address of a live one. -/
def procStep (s : ProcState) : ProcAct → Option ProcState
  | .exec p pages =>
    if Live s.sched p then none
    else
      match procExec s p pages with
      | .ok (some s') => some s'
      | _ => none
  | .exit p =>
    if Live s.sched p then
      match procReap s p with
      | .ok s' => some s'
      | .error _ => none
    else none

/-- A step of the process table: a process is allocated at `p`, or the process in the slot `i`
has exited and is taken out. -/
inductive TableAct where
  | allocate (p : ProcPtr) (pages : List UInt64)
  | exit (i : Nat)

/-- One step, or `none` when it panics or cannot happen. -/
def tableStep (s : ProcState) : TableAct → Option ProcState
  | .allocate p pages =>
    if Live s.sched p then none
    else
      match procAllocate s p pages with
      | .ok (some (s', _)) => some s'
      | _ => none
  | .exit i => (s.sched.processes i).map fun p => { s with sched := reapProcess s.sched p i }

/-- A step of the scheduler and its table: a step of the scheduler, which also takes exited
processes out of the table, or the allocation of a process. -/
inductive MachineAct where
  | sched (a : Act)
  | allocate (p : ProcPtr) (pages : List UInt64)

/-- One step, or `none` when it panics or cannot happen. -/
def machineStep (s : ProcState) : MachineAct → Option ProcState
  | .sched a => (step s.sched a).map fun sched => { s with sched }
  | .allocate p pages => tableStep s (.allocate p pages)

/-- A step that concerns the kernel half of the address spaces. -/
inductive SpaceAct where
  | proc (a : ProcAct)
  | ioMemmap (pa size : UInt64) (pages : List UInt64)
  | mapKernelPages (va pa size : UInt64) (perm : PtePermissions) (pages : List UInt64)

/-- One step, or `none` when it panics or cannot happen. -/
def spaceStep (s : ProcState) : SpaceAct → Option ProcState
  | .proc a => procStep s a
  | .ioMemmap pa size pages =>
    match vmmIoMemmap s.kernel pa size pages with
    | .ok (_, kernel) => some { s with kernel := kernel }
    | .error _ => none
  | .mapKernelPages va pa size perm pages =>
    match vmmMapKernelPages s.kernel.kernelPagetable va pa size perm pages with
    | .ok (_, t, _) => some { s with kernel := { s.kernel with kernelPagetable := t } }
    | .error _ => none

end DzOS.Sched
