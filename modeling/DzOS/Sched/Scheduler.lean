import Mathlib

/-!
# `DzOS.Sched.Scheduler`: the run queue and the main loop of `scheduler.c`

The run queue has one queue for each of 8 priorities. A queue is a doubly linked list whose
links are in the processes, so a process can be in one queue at most. Next to the links, an
entity records the queue it was put in (`runqueuePrio`) and whether it is in one
(`inRunqueue`), and the run queue counts its members.

A process is known by the address of its `struct process`. The embedded `sched_entity` has
the address of its process up to a constant, so both are a `ProcPtr`, and `none` is `NULL`.
`procs` is the memory behind the addresses and `processes` the process table.

The scheduler runs on one CPU. `cpu_local()->running_process` and `g_runqueue.curr` are
written together, and the model has `curr` only. `rtc_now()` is an argument of the functions
that read the clock. The locks, the statistics, the saved contexts and the memory of an
exited process do not appear. A process that comes back to the scheduler does so in the step
`resume`, and `step` says which steps can follow which.
-/

set_option autoImplicit false

namespace DzOS.Sched

/-- `SCHED_PRIORITY_LEVELS`, the number of priority queues. -/
def SCHED_PRIORITY_LEVELS : UInt8 := 8

/-- `SCHED_MIN_TIMESLICE_US`. -/
def SCHED_MIN_TIMESLICE_US : UInt64 := 2000

/-- `SCHED_MAX_TIMESLICE_US`. -/
def SCHED_MAX_TIMESLICE_US : UInt64 := 16000

/-- `PRIO_RT_MAX`, the last real-time priority. -/
def PRIO_RT_MAX : UInt8 := 2

/-- `PRIO_NORMAL_MIN`, the first normal priority. -/
def PRIO_NORMAL_MIN : UInt8 := 3

/-- `PRIO_IDLE_MAX`, the last priority. -/
def PRIO_IDLE_MAX : UInt8 := 7

/-- `SCHED_FLAG_RT`. -/
def SCHED_FLAG_RT : UInt32 := 1

/-- `SCHED_FLAG_INTERACTIVE`. -/
def SCHED_FLAG_INTERACTIVE : UInt32 := 2

/-- `SCHED_FLAG_CPU_BOUND`. -/
def SCHED_FLAG_CPU_BOUND : UInt32 := 4

/-- `MAX_PROCESSES`, the size of the process table. -/
def MAX_PROCESSES : Nat := 64

/-- The address of a `struct process`. -/
abbrev ProcPtr := Nat

/-- `enum process_state`. -/
inductive ProcessState where
  | UNUSED
  | USED
  | SLEEPING
  | RUNNABLE
  | RUNNING
  | EXITED
  deriving DecidableEq, Repr

/-- `struct sched_entity`. -/
structure SchedEntity where
  vruntime : UInt64
  execStart : UInt64
  sumExecRuntime : UInt64
  lastTimeslice : UInt64
  staticPriority : UInt8
  dynamicPriority : UInt8
  nice : Int8
  flags : UInt32
  sleepTime : UInt64
  lastRan : UInt64
  sleepAvg : UInt32
  next : Option ProcPtr
  prev : Option ProcPtr
  runqueuePrio : UInt8
  inRunqueue : UInt8
  deriving DecidableEq, Repr

/-- `memset(se, 0, sizeof(sched_entity_t))`. -/
def SchedEntity.zero : SchedEntity where
  vruntime := 0
  execStart := 0
  sumExecRuntime := 0
  lastTimeslice := 0
  staticPriority := 0
  dynamicPriority := 0
  nice := 0
  flags := 0
  sleepTime := 0
  lastRan := 0
  sleepAvg := 0
  next := none
  prev := none
  runqueuePrio := 0
  inRunqueue := 0

/-- The part of `struct process` that the scheduler uses. -/
structure Process where
  pid : UInt64
  i : Nat
  state : ProcessState
  waitingChannel : Option UInt64
  sched : SchedEntity
  deriving DecidableEq, Repr

/-- `struct runqueue`. The queues are indexed by their priority. -/
structure Runqueue where
  queueHeads : Nat → Option ProcPtr
  queueTails : Nat → Option ProcPtr
  queueSizes : Nat → UInt32
  totalRunnable : UInt32
  curr : Option ProcPtr
  totalWeight : UInt64
  minVruntime : UInt64

/-- The variables of the scheduler: the processes in memory, the process table with its
counters, and `g_runqueue`. -/
structure SchedState where
  procs : ProcPtr → Process
  processes : Nat → Option ProcPtr
  processCount : Nat
  processMinIndex : Nat
  rq : Runqueue

namespace SchedState

/-- `&p->sched`. -/
def se (s : SchedState) (p : ProcPtr) : SchedEntity := (s.procs p).sched

/-- A write to the process at `p`. -/
def setProc (s : SchedState) (p : ProcPtr) (f : Process → Process) : SchedState :=
  { s with procs := Function.update s.procs p (f (s.procs p)) }

/-- A write to the scheduling entity of the process at `p`. -/
def setSe (s : SchedState) (p : ProcPtr) (f : SchedEntity → SchedEntity) : SchedState :=
  s.setProc p fun proc => { proc with sched := f proc.sched }

/-- `p->state = st`. -/
def setState (s : SchedState) (p : ProcPtr) (st : ProcessState) : SchedState :=
  s.setProc p fun proc => { proc with state := st }

/-- `rq->queue_heads[prio] = e`. -/
def setHead (s : SchedState) (prio : Nat) (e : Option ProcPtr) : SchedState :=
  { s with rq := { s.rq with queueHeads := Function.update s.rq.queueHeads prio e } }

/-- `rq->queue_tails[prio] = e`. -/
def setTail (s : SchedState) (prio : Nat) (e : Option ProcPtr) : SchedState :=
  { s with rq := { s.rq with queueTails := Function.update s.rq.queueTails prio e } }

/-- `g_runqueue.curr = p`. -/
def setCurr (s : SchedState) (p : Option ProcPtr) : SchedState :=
  { s with rq := { s.rq with curr := p } }

end SchedState

/-! ### Weights, priorities and run times of an entity -/

/-- The table `weights` of `sched_entity_weight`. -/
def weights : List UInt64 := [88761, 71755, 56483, 46273, 36291, 29154, 23254, 15000]

/-- `sched_entity_weight`. -/
def schedEntityWeight (se : SchedEntity) : UInt64 := weights.getD se.dynamicPriority.toNat 0

/-- `sched_check_interactive`. -/
def schedCheckInteractive (se : SchedEntity) : SchedEntity :=
  if 0 < se.sleepTime ∧ 0 < se.sumExecRuntime then
    let ratio := se.sleepTime * 100 / se.sumExecRuntime
    if 150 < ratio then
      { se with flags := se.flags ||| SCHED_FLAG_INTERACTIVE }
    else if ratio < 50 then
      { se with flags := (se.flags ||| SCHED_FLAG_CPU_BOUND) &&& ~~~SCHED_FLAG_INTERACTIVE }
    else se
  else se

/-- `sched_update_priority`. The division of `nice` rounds towards zero. -/
def schedUpdatePriority (se : SchedEntity) : SchedEntity :=
  if se.flags &&& SCHED_FLAG_RT ≠ 0 then se
  else
    let adjustment : Int := if se.flags &&& SCHED_FLAG_INTERACTIVE ≠ 0 then -1 else 0
    let adjustment := if se.flags &&& SCHED_FLAG_CPU_BOUND ≠ 0 then 1 else adjustment
    let adjustment := adjustment + se.nice.toInt.tdiv 4
    let newPrio := (se.staticPriority.toNat : Int) + adjustment
    let newPrio := if newPrio < PRIO_NORMAL_MIN.toNat then (PRIO_NORMAL_MIN.toNat : Int)
      else newPrio
    let newPrio := if newPrio > PRIO_IDLE_MAX.toNat then (PRIO_IDLE_MAX.toNat : Int)
      else newPrio
    { se with dynamicPriority := UInt8.ofNat newPrio.toNat }

/-- `sched_compute_timeslice`. -/
def schedComputeTimeslice (rq : Runqueue) (se : SchedEntity) : UInt64 :=
  if se.flags &&& SCHED_FLAG_RT ≠ 0 then SCHED_MAX_TIMESLICE_US
  else if rq.totalWeight = 0 then SCHED_MAX_TIMESLICE_US
  else
    let timeslice := SCHED_MAX_TIMESLICE_US * schedEntityWeight se / rq.totalWeight
    let timeslice := if timeslice < SCHED_MIN_TIMESLICE_US then SCHED_MIN_TIMESLICE_US
      else timeslice
    let timeslice := if timeslice > SCHED_MAX_TIMESLICE_US then SCHED_MAX_TIMESLICE_US
      else timeslice
    if se.flags &&& SCHED_FLAG_INTERACTIVE ≠ 0 then timeslice * 3 / 2 else timeslice

/-- The entity after `sched_update_vruntime`. -/
def advanceVruntime (deltaUs : UInt64) (se : SchedEntity) : SchedEntity :=
  { se with
    vruntime := se.vruntime + deltaUs * 1024 / schedEntityWeight se
    sumExecRuntime := se.sumExecRuntime + deltaUs }

/-- `sched_update_vruntime`. -/
def schedUpdateVruntime (s : SchedState) (p : ProcPtr) (deltaUs : UInt64) : SchedState :=
  let s := s.setSe p (advanceVruntime deltaUs)
  if (s.se p).vruntime < s.rq.minVruntime then
    { s with rq := { s.rq with minVruntime := (s.se p).vruntime } }
  else s

/-! ### The run queue -/

/-- The queue of an entity: its priority, or the last one for a priority out of range. -/
def enqueuePrio (se : SchedEntity) : Nat :=
  (if se.dynamicPriority ≥ SCHED_PRIORITY_LEVELS then SCHED_PRIORITY_LEVELS - 1
    else se.dynamicPriority).toNat

/-- Link `p` behind the tail of a queue: `tail->next = se`, or `head = se` for an empty
queue. -/
def linkTail (s : SchedState) (prio : Nat) (p : ProcPtr) : SchedState :=
  match s.rq.queueTails prio with
  | some t => s.setSe t fun se => { se with next := some p }
  | none => s.setHead prio (some p)

/-- The counters of `sched_enqueue`. -/
def countIn (s : SchedState) (prio : Nat) (p : ProcPtr) : SchedState :=
  { s with rq := { s.rq with
      queueSizes := Function.update s.rq.queueSizes prio (s.rq.queueSizes prio + 1)
      totalRunnable := s.rq.totalRunnable + 1
      totalWeight := s.rq.totalWeight + schedEntityWeight (s.se p) } }

/-- `sched_enqueue`: add a process to the tail of the queue of its priority. -/
def schedEnqueue (s : SchedState) (p : ProcPtr) : SchedState :=
  let prio := enqueuePrio (s.se p)
  let s := s.setSe p fun se =>
    { se with
      next := none
      prev := s.rq.queueTails prio
      runqueuePrio := UInt8.ofNat prio
      inRunqueue := 1 }
  let s := linkTail s prio p
  let s := s.setTail prio (some p)
  countIn s prio p

/-- Lead around `p` from the left: `se->prev->next = se->next`, or `head = se->next` for the
first node. -/
def unlinkLeft (s : SchedState) (prio : Nat) (p : ProcPtr) : SchedState :=
  match (s.se p).prev with
  | some b => s.setSe b fun se => { se with next := (s.se p).next }
  | none => s.setHead prio (s.se p).next

/-- Lead around `p` from the right: `se->next->prev = se->prev`, or `tail = se->prev` for the
last node. -/
def unlinkRight (s : SchedState) (prio : Nat) (p : ProcPtr) : SchedState :=
  match (s.se p).next with
  | some a => s.setSe a fun se => { se with prev := (s.se p).prev }
  | none => s.setTail prio (s.se p).prev

/-- The counters of `sched_dequeue`. -/
def countOut (s : SchedState) (prio : Nat) (p : ProcPtr) : SchedState :=
  { s with rq := { s.rq with
      queueSizes := Function.update s.rq.queueSizes prio (s.rq.queueSizes prio - 1)
      totalRunnable := s.rq.totalRunnable - 1
      totalWeight := s.rq.totalWeight - schedEntityWeight (s.se p) } }

/-- `sched_dequeue`: unlink a process from the queue that it was put in. -/
def schedDequeue (s : SchedState) (p : ProcPtr) : SchedState :=
  let prio := (s.se p).runqueuePrio
  if prio ≥ SCHED_PRIORITY_LEVELS then s
  else
    let s := unlinkLeft s prio.toNat p
    let s := unlinkRight s prio.toNat p
    let s := s.setSe p fun se => { se with next := none, prev := none, inRunqueue := 0 }
    countOut s prio.toNat p

/-- The walk of `sched_pick_next` along one queue, from the node `se`, with the best node so
far and its run time. A queue has at most `MAX_PROCESSES` nodes. The walk gives up (`none`)
when there are more, which is a walk that does not end. -/
def pickWalk (s : SchedState) : Nat → Option ProcPtr → ProcPtr → UInt64 → Option ProcPtr
  | _, none, best, _ => some best
  | 0, some _, _, _ => none
  | fuel + 1, some se, best, minVruntime =>
    if (s.se se).vruntime < minVruntime then
      pickWalk s fuel (s.se se).next se (s.se se).vruntime
    else
      pickWalk s fuel (s.se se).next best minVruntime

/-- The loop of `sched_pick_next` over the priorities from `prio` on. The result `some none`
is the `NULL` that the function returns when all these queues are empty. -/
def pickFrom (s : SchedState) : Nat → Nat → Option (Option ProcPtr)
  | 0, _ => some none
  | levels + 1, prio =>
    match s.rq.queueHeads prio with
    | none => pickFrom s levels (prio + 1)
    | some se =>
      if prio ≤ PRIO_RT_MAX.toNat then some (some se)
      else (pickWalk s MAX_PROCESSES (s.se se).next se (s.se se).vruntime).map some

/-- `sched_pick_next`: the process to run next. -/
def schedPickNext (s : SchedState) : Option (Option ProcPtr) :=
  pickFrom s SCHED_PRIORITY_LEVELS.toNat 0

/-! ### Operations on a process -/

/-- `sched_fork`: initialise the entity of a new process. -/
def schedFork (s : SchedState) (p : ProcPtr) : SchedState :=
  s.setSe p fun _ =>
    let se := { SchedEntity.zero with
      staticPriority := PRIO_NORMAL_MIN
      dynamicPriority := PRIO_NORMAL_MIN
      vruntime := s.rq.minVruntime }
    { se with lastTimeslice := schedComputeTimeslice s.rq se }

/-- The sleep accounting at the start of `sched_sleep`. -/
def accountSleep (now : UInt64) (se : SchedEntity) : SchedEntity :=
  if 0 < se.lastRan then
    let sleepDuration := now - se.lastRan
    { se with
      sleepTime := se.sleepTime + sleepDuration
      sleepAvg := (((se.sleepAvg * 7).toUInt64 + sleepDuration) / 8).toUInt32 }
  else se

/-- `sched_sleep`. -/
def schedSleep (s : SchedState) (p : ProcPtr) (wchan : UInt64) (now : UInt64) : SchedState :=
  let s := s.setSe p (accountSleep now)
  let s := schedDequeue s p
  let s := s.setProc p fun proc =>
    { proc with state := .SLEEPING, waitingChannel := some wchan }
  s.setSe p schedCheckInteractive

/-- The writes of `sched_wakeup` to the process, before it is enqueued. -/
def wakeProcess (proc : Process) : Process :=
  { proc with
    state := .RUNNABLE
    waitingChannel := none
    sched := schedUpdatePriority { proc.sched with next := none, prev := none } }

/-- `sched_wakeup`. Only a sleeping process or a new one is woken. -/
def schedWakeup (s : SchedState) (p : ProcPtr) : SchedState :=
  if (s.procs p).state ≠ .SLEEPING ∧ (s.procs p).state ≠ .USED then s
  else schedEnqueue (s.setProc p wakeProcess) p

/-- The end of `sched_set_priority` and of `sched_nice`: a queued process moves to the queue
of its new priority. -/
def requeueIfQueued (s : SchedState) (p : ProcPtr) : SchedState :=
  if (s.procs p).state = .RUNNABLE ∧ (s.se p).inRunqueue ≠ 0 then
    schedEnqueue (schedDequeue s p) p
  else s

/-- `sched_set_priority`. -/
def schedSetPriority (s : SchedState) (p : ProcPtr) (prio : UInt8) : SchedState :=
  if prio ≥ SCHED_PRIORITY_LEVELS then s
  else
    requeueIfQueued (s.setSe p fun se =>
      { se with
        flags := if prio ≤ PRIO_RT_MAX then se.flags ||| SCHED_FLAG_RT
          else se.flags &&& ~~~SCHED_FLAG_RT
        staticPriority := prio
        dynamicPriority := prio }) p

/-- `sched_nice`. -/
def schedNice (s : SchedState) (p : ProcPtr) (nice : Int8) : SchedState :=
  let nice := if nice < -20 then -20 else nice
  let nice := if nice > 19 then 19 else nice
  requeueIfQueued (s.setSe p fun se => schedUpdatePriority { se with nice := nice }) p

/-- `scheduler_preempt`, up to the switch back to the scheduler. -/
def schedulerPreempt (s : SchedState) : SchedState :=
  match s.rq.curr with
  | none => s
  | some p => if (s.procs p).state = .RUNNING then s.setState p .RUNNABLE else s

/-- `scheduler_tick`, the timer interrupt. -/
def schedulerTick (s : SchedState) (now : UInt64) : SchedState :=
  match s.rq.curr with
  | none => s
  | some p =>
    if (s.procs p).state ≠ .RUNNING then s
    else
      let s := if 0 < (s.se p).execStart then
          (schedUpdateVruntime s p (now - (s.se p).execStart)).setSe p fun se =>
            { se with execStart := now }
        else s
      if now - (s.se p).lastRan ≥ (s.se p).lastTimeslice then schedulerPreempt s else s

/-! ### The process table -/

/-- `processes[j - 1] = *proc; (*proc)->i = j - 1; *proc = 0`. -/
def shiftDown (s : SchedState) (j : Nat) (p : ProcPtr) : SchedState :=
  let s := { s with processes := Function.update s.processes (j - 1) (some p) }
  let s := s.setProc p fun proc => { proc with i := j - 1 }
  { s with processes := Function.update s.processes j none }

/-- The loop of `coelesce_processes` from the slot `j` on, with the number of slots left. -/
def coelesceFrom (s : SchedState) : Nat → Nat → SchedState
  | 0, _ => s
  | left + 1, j =>
    match s.processes j with
    | none => s
    | some p => coelesceFrom (shiftDown s j p) left (j + 1)

/-- `coelesce_processes`: close the gap at the slot `i`. -/
def coelesceProcesses (s : SchedState) (i : Nat) : SchedState :=
  let s := coelesceFrom s (s.processCount - (i + 1)) (i + 1)
  { s with
    processMinIndex := if s.processMinIndex > i then i else s.processMinIndex
    processCount := s.processCount - 1 }

/-- `p->state = UNUSED; p->pid = 0; processes[idx] = NULL`. -/
def clearSlot (s : SchedState) (p : ProcPtr) (idx : Nat) : SchedState :=
  let s := s.setProc p fun proc => { proc with state := .UNUSED, pid := 0 }
  { s with processes := Function.update s.processes idx none }

/-- Clean up the exited process `p` at the slot `idx`. The source frees its memory before it
clears the slot. The page is not written in between, so the fields that it still reads from
it are the old ones. -/
def reapProcess (s : SchedState) (p : ProcPtr) (idx : Nat) : SchedState :=
  coelesceProcesses (clearSlot s p idx) idx

/-! ### The main loop -/

/-- The body of the loop that rebuilds the run queue, for the slot `i`. -/
def rebuildSlot (s : SchedState) (i : Nat) : SchedState :=
  match s.processes i with
  | none => s
  | some p =>
    if (s.procs p).state = .RUNNABLE ∧ (s.se p).inRunqueue = 0 then
      schedEnqueue (s.setSe p fun se => { se with next := none, prev := none }) p
    else s

/-- The loop that rebuilds the run queue from the process table. -/
def rebuild (s : SchedState) : SchedState := (List.range s.processCount).foldl rebuildSlot s

/-- The loop that reclaims exited processes, from the slot `i` on. Each turn moves to the
next slot or shortens the table, so the number of slots left bounds the turns. -/
def reclaimFrom (s : SchedState) : Nat → Nat → SchedState
  | 0, _ => s
  | turns + 1, i =>
    if i < s.processCount then
      match s.processes i with
      | none => reclaimFrom s turns (i + 1)
      | some p =>
        if (s.procs p).state = .EXITED then reclaimFrom (reapProcess s p i) turns i
        else reclaimFrom s turns (i + 1)
    else s

/-- The switch to `next` in the main loop. -/
def switchTo (s : SchedState) (next : ProcPtr) (now : UInt64) : SchedState :=
  let s := schedDequeue s next
  let s := (s.setCurr (some next)).setState next .RUNNING
  s.setSe next fun se =>
    { se with
      execStart := now
      lastRan := now
      lastTimeslice := schedComputeTimeslice s.rq { se with execStart := now, lastRan := now } }

/-- One turn of the main loop of `scheduler_start`, from its start to the switch to the next
process, or to its end when there is no process to run. -/
def schedulerLoop (s : SchedState) (now : UInt64) : Option SchedState :=
  if s.rq.totalRunnable = 0 then
    let s := rebuild s
    if 0 < s.rq.totalRunnable then some s else some (reclaimFrom s s.processCount 0)
  else
    match schedPickNext s with
    | none => none
    | some none => some s
    | some (some next) => some (switchTo s next now)

/-- The account of the time that `next` ran, and its new priority. -/
def accountRun (s : SchedState) (next : ProcPtr) (now : UInt64) : SchedState :=
  (schedUpdateVruntime s next (now - (s.se next).execStart)).setSe next fun se =>
    schedUpdatePriority (schedCheckInteractive se)

/-- The switch over the state of the process that came back. The source logs a warning in its
last case. -/
def handleReturn (s : SchedState) (next : ProcPtr) : SchedState :=
  match (s.procs next).state with
  | .RUNNABLE => schedEnqueue s next
  | .SLEEPING => s
  | .EXITED => reapProcess s next (s.procs next).i
  | .RUNNING => s
  | .UNUSED | .USED => schedEnqueue (s.setState next .RUNNABLE) next

/-- The rest of the turn, from `resume_scheduler` on: the process `next` came back. -/
def resumeScheduler (s : SchedState) (next : ProcPtr) (now : UInt64) : SchedState :=
  (handleReturn (accountRun s next now) next).setCurr none

/-! ### Runs -/

/-- A step of the system. `sleep` is `sched_sleep` as `condvar_wait` calls it, on the running
process. `yield` is `scheduler_yield`, and `exit` is the end of `proc_exit`. In `schedule` the
main loop makes a turn, and in `resume` the running process gives the CPU back to it. -/
inductive Act where
  | fork (p : ProcPtr)
  | wakeup (p : ProcPtr)
  | sleep (wchan : UInt64) (now : UInt64)
  | setPriority (p : ProcPtr) (prio : UInt8)
  | nice (p : ProcPtr) (nice : Int8)
  | tick (now : UInt64)
  | yield
  | exit
  | schedule (now : UInt64)
  | resume (now : UInt64)
  deriving DecidableEq, Repr

/-- The process at `p` is in the process table. -/
def Live (s : SchedState) (p : ProcPtr) : Prop :=
  ∃ i < s.processCount, s.processes i = some p

instance (s : SchedState) (p : ProcPtr) : Decidable (Live s p) :=
  inferInstanceAs (Decidable (∃ i < s.processCount, s.processes i = some p))

/-- The process that executes: the current process, as long as its state is `RUNNING`. -/
def executing (s : SchedState) : Option ProcPtr :=
  s.rq.curr.filter fun p => (s.procs p).state = .RUNNING

/-- One step, or `none` when the step cannot happen in the state `s`. A new process is forked
before its first wake. Processes are named by pointers of the process table. The running
process executes its system calls only while its state is `RUNNING`, and the main loop runs
only while no process does. -/
def step (s : SchedState) : Act → Option SchedState
  | .fork p => if Live s p ∧ (s.procs p).state = .USED then some (schedFork s p) else none
  | .wakeup p => if Live s p then some (schedWakeup s p) else none
  | .sleep wchan now => (executing s).map fun p => schedSleep s p wchan now
  | .setPriority p prio => if Live s p then some (schedSetPriority s p prio) else none
  | .nice p n => if Live s p then some (schedNice s p n) else none
  | .tick now => some (schedulerTick s now)
  | .yield => (executing s).map fun p => s.setState p .RUNNABLE
  | .exit => (executing s).map fun p => s.setState p .EXITED
  | .schedule now =>
    match s.rq.curr with
    | none => schedulerLoop s now
    | some _ => none
  | .resume now =>
    match s.rq.curr with
    | none => none
    | some p =>
      if (s.procs p).state = .RUNNING then none else some (resumeScheduler s p now)

/-- The state after a run of steps, or `none` when one of them cannot happen. -/
def run (s : SchedState) : List Act → Option SchedState
  | [] => some s
  | a :: acts => (step s a).bind fun s' => run s' acts

end DzOS.Sched
