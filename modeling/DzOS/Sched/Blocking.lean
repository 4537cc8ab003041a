import DzOS.Sched.Process

/-!
# `DzOS.Sched.Blocking`: the process locks and the calls that block

The scheduler takes the lock of a process before it switches to it and gives it back when the
process returns. The functions here are those that take locks on the way back: the timer,
`scheduler_yield`, `sys_sleep`, `proc_wait`, a read of the serial port and `proc_exit`.

There is one CPU. A function that blocks stops at `scheduler_switch_back`, and `resume` says
where the process goes on when the scheduler switches to it again. A panic is `Stop.panic`, and
`Stop.spin` is a CPU that waits for a lock forever. System calls run with interrupts disabled,
so the timer and the serial port interrupt a process in user space only.

`sched_pick_next` chooses a runnable process of the table. Here it may be any of them, so the
runs have every order in which the scheduler could switch. The files and the address spaces of
the processes, the bytes of the serial port and the clock of the scheduler do not appear. The
memory of a process that has been freed can be written by anyone (`BlockAct.reuse`).

With `locks := false` the locks are left out: nothing is locked, and no check fails.
-/

set_option autoImplicit false

namespace DzOS.Sched

open DzOS.Lib

/-- `SERIAL_BUFFER_LENGTH`. -/
def SERIAL_BUFFER_LENGTH : UInt8 := 128

/-- `struct spinlock`. -/
structure Spinlock where
  locked : UInt32
  holdingCpu : UInt32
  deriving DecidableEq, Repr

/-- The locks: `p->lock.lock`, `g_runqueue.lock` and the lock of the serial port. -/
inductive Lock where
  | proc (p : ProcPtr)
  | runqueue
  | serial
  deriving DecidableEq, Repr

/-- Why the CPU does not go on. -/
inductive Stop where
  | panic (msg : String)
  | spin
  deriving DecidableEq, Repr

/-- Where a process goes on when it is switched in: in user space, in the loop of `sys_sleep`, or
in a `condvar_wait` of `proc_wait` or of the serial port. -/
inductive Resume where
  | user
  | sleep (targetEpochWakeup : UInt64)
  | wait (targetProcess : ProcPtr)
  | serialRead (len : Nat)
  deriving DecidableEq, Repr

/-- What does not change in a run: the number of the CPU, the addresses of the locks, which are
the waiting channels, and whether there are locks. -/
structure LockConfig where
  cpu : UInt32
  addr : Lock → UInt64
  locks : Bool

/-- The scheduler with the locks, the exit codes, the return values of the system calls and the
indices of the serial buffer. -/
structure BlockState where
  sched : SchedState
  lock : Lock → Spinlock
  exitStatus : ProcPtr → Int32
  resume : ProcPtr → Resume
  ret : ProcPtr → Int32
  nextPid : UInt64
  readIndex : UInt8
  writeIndex : UInt8

namespace BlockState

/-- A write to the variables of the scheduler. -/
def mapSched (s : BlockState) (f : SchedState → SchedState) : BlockState :=
  { s with sched := f s.sched }

/-- The system call of `p` stops, to go on at `r`. -/
def stopAt (s : BlockState) (p : ProcPtr) (r : Resume) : BlockState :=
  { s with resume := Function.update s.resume p r }

/-- The system call of `p` returns. -/
def returnTo (s : BlockState) (p : ProcPtr) (value : Int32) : BlockState :=
  { s with resume := Function.update s.resume p .user, ret := Function.update s.ret p value }

end BlockState

/-- The result of a piece of kernel code. -/
abbrev Outcome := Except Stop BlockState

variable (c : LockConfig)

/-! ### Spinlocks -/

/-- `this_cpu_holding_lock`. -/
def thisCpuHoldingLock (l : Spinlock) : Bool := l.locked != 0 && l.holdingCpu == c.cpu

/-- `spinlock_lock`. -/
def spinlockLock (l : Lock) (s : BlockState) : Outcome :=
  if !c.locks then .ok s
  else if thisCpuHoldingLock c (s.lock l) then .error (.panic "deadlock")
  else if (s.lock l).locked ≠ 0 then .error .spin
  else .ok { s with lock := Function.update s.lock l { locked := 1, holdingCpu := c.cpu } }

/-- `spinlock_unlock`. -/
def spinlockUnlock (l : Lock) (s : BlockState) : Outcome :=
  if !c.locks then .ok s
  else if !thisCpuHoldingLock c (s.lock l) then .error (.panic "cpu not holding lock")
  else .ok { s with lock := Function.update s.lock l { locked := 0, holdingCpu := 0 } }

/-- `spinlock_locked`. -/
def spinlockLocked (l : Lock) (s : BlockState) : Bool := !c.locks || (s.lock l).locked != 0

/-- An operation of the run queue under `g_runqueue.lock`. -/
def withRunqueue (f : SchedState → SchedState) (s : BlockState) : Outcome := do
  let s ← spinlockLock c .runqueue s
  spinlockUnlock c .runqueue (s.mapSched f)

/-- `scheduler_switch_back` in the process `p`, up to the switch. -/
def schedulerSwitchBack (p : ProcPtr) (s : BlockState) : Outcome :=
  if !spinlockLocked c (.proc p) s then .error (.panic "scheduler_switch_back: not locked")
  else if (s.sched.procs p).state = .RUNNING then .error (.panic "scheduler_switch_back: RUNNING")
  else .ok s

/-! ### Condition variables -/

/-- `p` sleeps on the channel. -/
def waitsOn (s : SchedState) (p : ProcPtr) (waitingChannel : UInt64) : Bool :=
  (s.procs p).state = .SLEEPING ∧ (s.procs p).waitingChannel = some waitingChannel

/-- The loop of `proc_wakeup`, from the slot `i` on. -/
def procWakeupFrom (waitingChannel : UInt64) (everyone : Bool) :
    Nat → Nat → BlockState → Outcome
  | 0, _, s => .ok s
  | left + 1, i, s =>
    match s.sched.processes i with
    | none => procWakeupFrom waitingChannel everyone left (i + 1) s
    | some q =>
      if s.sched.rq.curr = some q then procWakeupFrom waitingChannel everyone left (i + 1) s
      else do
        let s ← spinlockLock c (.proc q) s
        let waits := waitsOn s.sched q waitingChannel
        let s ← if waits then withRunqueue c (fun sched => schedWakeup sched q) s else .ok s
        let s ← spinlockUnlock c (.proc q) s
        if waits && !everyone then .ok s
        else procWakeupFrom waitingChannel everyone left (i + 1) s

/-- `proc_wakeup`. -/
def procWakeup (waitingChannel : UInt64) (everyone : Bool) (s : BlockState) : Outcome :=
  procWakeupFrom c waitingChannel everyone MAX_PROCESSES 0 s

/-- `condvar_notify_all`. -/
def condvarNotifyAll (l : Lock) (s : BlockState) : Outcome := procWakeup c (c.addr l) true s

/-- `condvar_wait` in the process `p`, up to the switch. The process goes on at `r`. -/
def condvarWait (p : ProcPtr) (l : Lock) (r : Resume) (now : UInt64) (s : BlockState) :
    Outcome := do
  let s ← spinlockLock c (.proc p) s
  let s ← spinlockUnlock c l s
  let s ← withRunqueue c (fun sched => schedSleep sched p (c.addr l) now) s
  schedulerSwitchBack c p (s.stopAt p r)

/-- The rest of `condvar_wait`. -/
def condvarResume (p : ProcPtr) (l : Lock) (s : BlockState) : Outcome := do
  let s ← spinlockUnlock c (.proc p) s
  spinlockLock c l s

/-! ### System calls -/

/-- The timer interrupt: `scheduler_tick` and `scheduler_preempt`. -/
def timerTick (now : UInt64) (s : BlockState) : Outcome :=
  let s := s.mapSched fun sched => schedulerTick sched now
  match s.sched.rq.curr with
  | none => .ok s
  | some p => if (s.sched.procs p).state = .RUNNING then .ok s else schedulerSwitchBack c p s

/-- `scheduler_yield`. -/
def schedulerYield (p : ProcPtr) (s : BlockState) : Outcome := do
  let s ← spinlockLock c (.proc p) s
  schedulerSwitchBack c p (s.mapSched fun sched => sched.setState p .RUNNABLE)

/-- The loop of `sys_sleep` at the time `now`, with the unlock behind it. -/
def sleepLoop (p : ProcPtr) (targetEpochWakeup now : UInt64) (s : BlockState) : Outcome :=
  if targetEpochWakeup > now then
    schedulerSwitchBack c p
      ((s.mapSched fun sched => sched.setState p .RUNNABLE).stopAt p (.sleep targetEpochWakeup))
  else do
    let s ← spinlockUnlock c (.proc p) s
    return s.returnTo p 0

/-- `sys_sleep`, which reads the clock twice. -/
def sysSleep (p : ProcPtr) (msec now now' : UInt64) (s : BlockState) : Outcome := do
  let s ← spinlockLock c (.proc p) s
  sleepLoop c p (now + msec) now' s

/-- The loop of `proc_wait` that looks for a pid. The lock of the process it finds stays taken. -/
def findPidFrom (targetPid : UInt64) :
    Nat → Nat → BlockState → Except Stop (Option ProcPtr × BlockState)
  | 0, _, s => .ok (none, s)
  | left + 1, i, s =>
    match s.sched.processes i with
    | none => findPidFrom targetPid left (i + 1) s
    | some q => do
      let s ← spinlockLock c (.proc q) s
      if (s.sched.procs q).pid = targetPid then .ok (some q, s)
      else do
        let s ← spinlockUnlock c (.proc q) s
        findPidFrom targetPid left (i + 1) s

/-- The loop of `proc_wait` that waits for the exit, with the return behind it. -/
def waitLoop (p target : ProcPtr) (now : UInt64) (s : BlockState) : Outcome :=
  if (s.sched.procs target).state ≠ .EXITED then condvarWait c p (.proc target) (.wait target) now s
  else do
    let exitStatus := s.exitStatus target
    let s ← spinlockUnlock c (.proc target) s
    return s.returnTo p exitStatus

/-- `proc_wait`. -/
def procWait (p : ProcPtr) (targetPid now : UInt64) (s : BlockState) : Outcome := do
  match ← findPidFrom c targetPid MAX_PROCESSES 0 s with
  | (none, s) => return s.returnTo p (-1)
  | (some target, s) => waitLoop c p target now s

/-- `proc_exit`. -/
def procExit (p : ProcPtr) (exitCode : Int32) (s : BlockState) : Outcome :=
  if !spinlockLocked c (.proc p) s then .error (.panic "proc should be locked")
  else do
    let s ← condvarNotifyAll c (.proc p)
      { s with exitStatus := Function.update s.exitStatus p exitCode }
    schedulerSwitchBack c p (s.mapSched fun sched => sched.setState p .EXITED)

/-- The number of bytes in the serial buffer. -/
def serialAvailable (s : BlockState) : Nat :=
  if s.writeIndex < s.readIndex then
    s.writeIndex.toNat + (SERIAL_BUFFER_LENGTH.toNat - s.readIndex.toNat)
  else s.writeIndex.toNat - s.readIndex.toNat

/-- The loop of `serial_read_op` that waits for data, with the copy behind it. -/
def serialReadLoop (p : ProcPtr) (len : Nat) (now : UInt64) (s : BlockState) : Outcome :=
  if s.readIndex = s.writeIndex then condvarWait c p .serial (.serialRead len) now s
  else do
    let toRead := min len (serialAvailable s)
    let s := { s with readIndex := (fun i => (i + 1) % SERIAL_BUFFER_LENGTH)^[toRead] s.readIndex }
    let s ← spinlockUnlock c .serial s
    return s.returnTo p (Int32.ofNat toRead)

/-- `serial_read_op`. -/
def serialReadOp (p : ProcPtr) (len : Nat) (now : UInt64) (s : BlockState) : Outcome :=
  if len = 0 then .ok (s.returnTo p 0)
  else do
    let s ← spinlockLock c .serial s
    serialReadLoop c p len now s

/-- `serial_irq_handler`. -/
def serialIrqHandler (s : BlockState) : Outcome := do
  let s ← spinlockLock c .serial s
  let s ← if (s.writeIndex + 1) % SERIAL_BUFFER_LENGTH ≠ s.readIndex then
      condvarNotifyAll c .serial
        { s with writeIndex := (s.writeIndex + 1) % SERIAL_BUFFER_LENGTH }
    else .ok s
  spinlockUnlock c .serial s

/-- What the process `p` does when it is switched in inside a system call. -/
def continueCall (p : ProcPtr) (now : UInt64) (s : BlockState) : Outcome :=
  match s.resume p with
  | .user => .ok s
  | .sleep targetEpochWakeup => sleepLoop c p targetEpochWakeup now s
  | .wait target => do
    let s ← condvarResume c p (.proc target) s
    waitLoop c p target now s
  | .serialRead len => do
    let s ← condvarResume c p .serial s
    serialReadLoop c p len now s

/-! ### The scheduler -/

/-- The switch to `next` in the main loop. -/
def switchIn (next : ProcPtr) (now : UInt64) (s : BlockState) : Outcome := do
  let s ← withRunqueue c (fun sched => switchTo sched next now) s
  spinlockLock c (.proc next) s

/-- The main loop from `resume_scheduler` on: the process `next` came back. -/
def switchOut (next : ProcPtr) (now : UInt64) (s : BlockState) : Outcome := do
  let s ← spinlockUnlock c (.proc next) s
  withRunqueue c (fun sched => resumeScheduler sched next now) s

/-- A turn of the main loop with an empty run queue. -/
def idleTurn (sched : SchedState) : SchedState :=
  let sched := rebuild sched
  if 0 < sched.rq.totalRunnable then sched else reclaimFrom sched sched.processCount 0

/-- The new record at `p` in the slot `i` of the table, as `proc_allocate` makes it. -/
def allocateAt (s : BlockState) (p : ProcPtr) (i minIndex : Nat) : BlockState :=
  { s with
    sched := { s.sched with
      procs := Function.update s.sched.procs p (newProcess s.nextPid i)
      processes := Function.update s.sched.processes i (some p)
      processCount := if i = s.sched.processCount then s.sched.processCount + 1
        else s.sched.processCount
      processMinIndex := minIndex }
    lock := Function.update s.lock (.proc p) { locked := 0, holdingCpu := 0 }
    exitStatus := Function.update s.exitStatus p (-1)
    resume := Function.update s.resume p .user
    nextPid := s.nextPid + 1 }

/-- `proc_exec` with a good program file: the new process is at `p`. -/
def spawn (p : ProcPtr) (s : BlockState) : Outcome :=
  match findSlot s.sched with
  | none => .ok s
  | some i =>
    match scan (fun j => (Function.update s.sched.processes i (some p) j).isNone)
        (MAX_PROCESSES - (i + 1)) (i + 1) with
    | none => .error (.panic "hit process limit - 1")
    | some minIndex => do
      let s := (allocateAt s p i minIndex).mapSched fun sched =>
        schedNice (schedSetPriority (schedFork sched p) p PRIO_NORMAL_MIN) p 1
      withRunqueue c (fun sched => schedWakeup sched p) s

/-- `userspace_init`, with the two processes at `p` and `q`. -/
def userspaceInit (p q : ProcPtr) (s : BlockState) : Outcome := do
  let s ← spawn c p s
  spawn c q s

/-! ### Runs -/

/-- A step. The steps from `timer` to `spawn` are of the running process in user space, and
`goOn` is the running process inside a system call. In `switchIn`, `switchOut` and `idle` the
scheduler runs. In `reuse` someone writes the memory of a freed process. -/
inductive BlockAct where
  | timer (now : UInt64)
  | yield
  | sleep (msec now now' : UInt64)
  | wait (targetPid now : UInt64)
  | serialRead (len : Nat) (now : UInt64)
  | exit (exitCode : Int32)
  | spawn (p : ProcPtr)
  | goOn (now : UInt64)
  | switchIn (p : ProcPtr) (now : UInt64)
  | switchOut (now : UInt64)
  | idle
  | serialIrq
  | reuse (p : ProcPtr) (proc : Process) (lock : Spinlock) (exitStatus : Int32)
  deriving DecidableEq, Repr

/-- The process that runs in user space. -/
def inUser (s : BlockState) : Option ProcPtr :=
  (executing s.sched).filter fun p => s.resume p = .user

/-- The process that runs inside a system call. -/
def inCall (s : BlockState) : Option ProcPtr :=
  (executing s.sched).filter fun p => s.resume p ≠ .user

/-- One step, or `none` when the step cannot happen in the state `s`. -/
def blockStep (s : BlockState) : BlockAct → Option Outcome
  | .timer now => (inUser s).map fun _ => timerTick c now s
  | .yield => (inUser s).map fun p => schedulerYield c p s
  | .sleep msec now now' => (inUser s).map fun p => sysSleep c p msec now now' s
  | .wait targetPid now => (inUser s).map fun p => procWait c p targetPid now s
  | .serialRead len now => (inUser s).map fun p => serialReadOp c p len now s
  | .exit exitCode => (inUser s).map fun p => procExit c p exitCode s
  | .spawn p => if Live s.sched p then none else (inUser s).map fun _ => spawn c p s
  | .goOn now => (inCall s).map fun p => continueCall c p now s
  | .switchIn p now =>
    if s.sched.rq.curr = none ∧ Live s.sched p ∧ (s.sched.procs p).state = .RUNNABLE then
      some (switchIn c p now s)
    else none
  | .switchOut now =>
    match s.sched.rq.curr with
    | none => none
    | some p => if (s.sched.procs p).state = .RUNNING then none else some (switchOut c p now s)
  | .idle =>
    if s.sched.rq.curr = none ∧ s.sched.rq.totalRunnable = 0 then
      some (withRunqueue c idleTurn s)
    else none
  | .serialIrq =>
    if s.sched.rq.curr = none ∨ (inUser s).isSome then some (serialIrqHandler c s) else none
  | .reuse p proc lock exitStatus =>
    if Live s.sched p then none
    else
      some (.ok { s with
        sched := s.sched.setProc p fun _ => proc
        lock := Function.update s.lock (.proc p) lock
        exitStatus := Function.update s.exitStatus p exitStatus })

end DzOS.Sched
