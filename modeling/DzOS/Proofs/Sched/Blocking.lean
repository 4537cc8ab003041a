import DzOS.Lib.Outcome
import DzOS.Proofs.Sched.StackSlots
import DzOS.Sched.Blocking

/-!
# `DzOS.Proofs.Sched.Blocking`: what the steps do to the process table

`Calm s s'` says that the table and the current process are the same in both states, and that no
process has become `EXITED` in between. Every operation of the run queue is calm, and so is
every system call but `proc_exit`. `Wakes s s'` says that nobody has gone to sleep, which holds of
every operation of the scheduler but `sched_sleep`.

`Base` is the invariant of all runs, with locks or without: the table has no gap, the current
process is in it, and no other process is `EXITED`. The scheduler takes a process out of the
table as soon as it comes back from `proc_exit`, so nobody else ever sees it in this state.

With locks, a lock is `Free`, or the CPU has it (`Held`). The functions of the locks have a result
for each of the two.
-/

set_option autoImplicit false

namespace DzOS.Proofs.Sched.Blocking

open DzOS.Lib DzOS.Sched DzOS.Proofs.Sched DzOS.Proofs.Sched.StackSlots

variable {f : Process → Process} {st : ProcessState} {x : ProcPtr}

/-! ### Operations that leave the table alone -/

/-- `s'` has the table and the current process of `s`, and no process became `EXITED`. -/
structure Calm (s s' : SchedState) : Prop where
  processes : s'.processes = s.processes
  processCount : s'.processCount = s.processCount
  processMinIndex : s'.processMinIndex = s.processMinIndex
  curr : s'.rq.curr = s.rq.curr
  index : ∀ x, (s'.procs x).i = (s.procs x).i
  exited : ∀ x, (s'.procs x).state = .EXITED → (s.procs x).state = .EXITED

section
variable {s s' s'' : SchedState} {p x : ProcPtr}

theorem Calm.refl (s : SchedState) : Calm s s := ⟨rfl, rfl, rfl, rfl, fun _ => rfl, fun _ => id⟩

theorem Calm.trans (h : Calm s s') (h' : Calm s' s'') : Calm s s'' where
  processes := h'.processes.trans h.processes
  processCount := h'.processCount.trans h.processCount
  processMinIndex := h'.processMinIndex.trans h.processMinIndex
  curr := h'.curr.trans h.curr
  index x := (h'.index x).trans (h.index x)
  exited x hx := h.exited x (h'.exited x hx)

theorem Calm.live (h : Calm s s') (x : ProcPtr) : Live s' x ↔ Live s x := by
  simp only [Live, h.processes, h.processCount]

theorem Calm.table (h : Calm s s') (ht : Table s) : Table s' where
  compact i := by rw [h.processes, h.processCount]; exact ht.compact i
  index i x hx := by rw [h.index]; exact ht.index i x (h.processes ▸ hx)
  le := by rw [h.processCount]; exact ht.le

/-- An operation of the run queue is calm. -/
theorem Keeps.calm (h : Keeps s s') : Calm s s' :=
  ⟨h.processes, h.processCount, h.processMinIndex, h.curr, h.index, fun x hx => (h.state x) ▸ hx⟩

/-- A write to a process is calm when it keeps the slot and does not end the process. -/
theorem calm_setProc (s : SchedState) (p : ProcPtr) (hi : (f (s.procs p)).i = (s.procs p).i)
    (hstate : (f (s.procs p)).state = .EXITED → (s.procs p).state = .EXITED) :
    Calm s (s.setProc p f) := by
  refine ⟨rfl, rfl, rfl, rfl, fun x => ?_, fun x => ?_⟩
  all_goals
    rw [setProc_procs]
    split
  · rename_i hx
    rw [hx, hi]
  · rfl
  · rename_i hx
    rw [hx]
    exact hstate
  · exact id

theorem calm_setState (s : SchedState) (p : ProcPtr) (hst : st ≠ .EXITED) :
    Calm s (s.setState p st) :=
  calm_setProc s p rfl fun h => absurd h hst

theorem calm_schedWakeup (s : SchedState) (p : ProcPtr) : Calm s (schedWakeup s p) := by
  unfold schedWakeup
  split
  · exact Calm.refl s
  · have hwrite : Calm s (s.setProc p wakeProcess) :=
      calm_setProc s p rfl fun h => by cases h
    exact hwrite.trans (Keeps.calm (keeps_schedEnqueue _ p))

theorem calm_schedSleep (s : SchedState) (p : ProcPtr) (wchan now : UInt64) :
    Calm s (schedSleep s p wchan now) := by
  have hdeq : Calm s (schedDequeue (s.setSe p (accountSleep now)) p) :=
    Keeps.calm ((keeps_setSe s p _).trans (keeps_schedDequeue _ p))
  have hsleep : Calm (schedDequeue (s.setSe p (accountSleep now)) p)
      ((schedDequeue (s.setSe p (accountSleep now)) p).setProc p fun proc =>
        { proc with state := .SLEEPING, waitingChannel := some wchan }) :=
    calm_setProc _ p rfl fun h => by cases h
  exact (hdeq.trans hsleep).trans (Keeps.calm (keeps_setSe _ p _))

theorem calm_schedulerPreempt (s : SchedState) : Calm s (schedulerPreempt s) := by
  unfold schedulerPreempt
  split
  · exact Calm.refl s
  · split
    · exact calm_setState s _ (by decide)
    · exact Calm.refl s

theorem calm_schedulerTick (s : SchedState) (now : UInt64) : Calm s (schedulerTick s now) :=
  schedulerTick_induct (P := Calm s) (Calm.refl s)
    (fun p => Keeps.calm ((keeps_schedUpdateVruntime s p _).trans (keeps_setSe _ p _)))
    fun t ht => ht.trans (calm_schedulerPreempt t)

end

/-! ### The invariant -/

/-- What holds in every reachable state. -/
structure Base (s : SchedState) : Prop where
  table : Table s
  minIndex : s.processMinIndex ≤ s.processCount
  curr : ∀ p, s.rq.curr = some p → Live s p
  exited : ∀ p, Live s p → (s.procs p).state = .EXITED → s.rq.curr = some p

section
variable {s s' : SchedState} {p : ProcPtr}

theorem Base.calm (h : Base s) (hc : Calm s s') : Base s' where
  table := hc.table h.table
  minIndex := by rw [hc.processMinIndex, hc.processCount]; exact h.minIndex
  curr q hq := (hc.live q).mpr (h.curr q (hc.curr ▸ hq))
  exited q hq hst := by rw [hc.curr]; exact h.exited q ((hc.live q).mp hq) (hc.exited q hst)

/-- The slots of the table hold live processes. -/
theorem live_of_slot (h : Table s) {i : Nat} (hp : s.processes i = some p) : Live s p :=
  ⟨i, (h.compact i).mp (by simp [hp]), hp⟩

/-- The current process may exit. -/
theorem Base.exit (h : Base s) (hc : s.rq.curr = some p) : Base (s.setState p .EXITED) where
  table := ⟨h.table.compact, fun i q hq => by rw [setState_i]; exact h.table.index i q hq,
    h.table.le⟩
  minIndex := h.minIndex
  curr := h.curr
  exited q hq hst := by
    rw [setState_state] at hst
    split at hst
    · rename_i hqp
      rw [hqp]
      exact hc
    · exact h.exited q hq hst

/-- The scheduler may switch to a live process. -/
theorem Base.switchTo (h : Base s) (hc : s.rq.curr = none) (hp : Live s p) (now : UInt64) :
    Base (switchTo s p now) := by
  unfold DzOS.Sched.switchTo
  have hdeq := h.calm (Keeps.calm (keeps_schedDequeue s p))
  have hcalm := Keeps.calm (keeps_schedDequeue s p)
  have hlive : Live (schedDequeue s p) p := (hcalm.live p).mpr hp
  have hrun : Base (((schedDequeue s p).setCurr (some p)).setState p .RUNNING) := by
    refine ⟨⟨hdeq.table.compact, fun i q hq => ?_, hdeq.table.le⟩, hdeq.minIndex, fun q hq => ?_,
      fun q hq hst => ?_⟩
    · rw [setState_i]
      exact hdeq.table.index i q hq
    · cases hq
      exact hlive
    · -- Nobody was `EXITED` while no process ran.
      rw [setState_state] at hst
      split at hst
      · cases hst
      · have hcurr := hdeq.exited q hq hst
        rw [hcalm.curr, hc] at hcurr
        cases hcurr
  exact hrun.calm (Keeps.calm (keeps_setSe _ p _))

theorem switchTo_curr (s : SchedState) (p : ProcPtr) (now : UInt64) :
    (switchTo s p now).rq.curr = some p := rfl

/-- The switch to a process leaves the table alone. -/
theorem switchTo_live (s : SchedState) (p x : ProcPtr) (now : UInt64) :
    Live (switchTo s p now) x ↔ Live s x := (keeps_schedDequeue s p).live x

/-- The current process comes back to the scheduler. -/
theorem Base.resumeScheduler (h : Base s) (hc : s.rq.curr = some p) (now : UInt64) :
    Base (resumeScheduler s p now) := by
  unfold DzOS.Sched.resumeScheduler
  have hacc := h.calm (Keeps.calm (keeps_accountRun s p now))
  have hcurr : (accountRun s p now).rq.curr = some p := by
    rw [(keeps_accountRun s p now).curr, hc]
  generalize accountRun s p now = t at hacc hcurr
  -- A state in which nobody but `p` was `EXITED`, and `p` is not any more.
  have hleave : ∀ {t' : SchedState}, Calm t t' → (t'.procs p).state ≠ .EXITED →
      Base (t'.setCurr none) := by
    intro t' hcalm hst
    have hbase := hacc.calm hcalm
    refine ⟨⟨hbase.table.compact, hbase.table.index, hbase.table.le⟩, hbase.minIndex,
      fun q hq => (by cases hq), fun q hq hq' => ?_⟩
    have hqp := hbase.exited q hq hq'
    rw [hcalm.curr, hcurr] at hqp
    cases hqp
    exact absurd hq' hst
  have henq : ∀ {t' : SchedState}, Calm t t' → (t'.procs p).state ≠ .EXITED →
      Base ((schedEnqueue t' p).setCurr none) := by
    intro t' hcalm hst
    refine hleave (hcalm.trans (Keeps.calm (keeps_schedEnqueue t' p))) ?_
    rwa [(keeps_schedEnqueue t' p).state]
  unfold handleReturn
  cases hst : (t.procs p).state with
  | RUNNABLE => exact henq (Calm.refl t) (by rw [hst]; decide)
  | SLEEPING => exact hleave (Calm.refl t) (by rw [hst]; decide)
  | RUNNING => exact hleave (Calm.refl t) (by rw [hst]; decide)
  | UNUSED => exact henq (calm_setState t p (by decide)) (by simp)
  | USED => exact henq (calm_setState t p (by decide)) (by simp)
  | EXITED =>
    have hslot := (hacc.table.live_iff p).mp (hacc.curr p hcurr)
    obtain ⟨htable, hlive, hrq, -, hstate⟩ := reapProcess_table hacc.table hslot
    refine ⟨⟨htable.compact, htable.index, htable.le⟩,
      reapProcess_minIndex hacc.minIndex ((hacc.table.compact _).mp (by simp [hslot])),
      fun q hq => (by cases hq), fun q hq hq' => ?_⟩
    obtain ⟨hq, hqp⟩ := (hlive q).mp hq
    have hq'' : (t.procs q).state = .EXITED := (hstate q hqp) ▸ hq'
    have heq := hacc.exited q hq hq''
    rw [hcurr] at heq
    exact absurd (Option.some.inj heq).symm hqp

/-- No process becomes live when the current process comes back to the scheduler. -/
theorem Base.live_of_resumeScheduler (h : Base s) (hc : s.rq.curr = some p) {now : UInt64}
    (hx : Live (DzOS.Sched.resumeScheduler s p now) x) : Live s x := by
  have hcalm := Keeps.calm (keeps_accountRun s p now)
  have hacc := h.calm hcalm
  have hslot := (hacc.table.live_iff p).mp (hacc.curr p (hcalm.curr.trans hc))
  replace hx : Live (handleReturn (accountRun s p now) p) x := hx
  refine (hcalm.live x).mp ?_
  generalize accountRun s p now = t at hacc hslot hx
  unfold handleReturn at hx
  cases hst : (t.procs p).state with
  | RUNNABLE =>
    rw [hst] at hx
    exact ((keeps_schedEnqueue t p).live x).mp hx
  | SLEEPING =>
    rw [hst] at hx
    exact hx
  | RUNNING =>
    rw [hst] at hx
    exact hx
  | UNUSED =>
    rw [hst] at hx
    exact ((calm_setState t p (by decide)).live x).mp (((keeps_schedEnqueue _ p).live x).mp hx)
  | USED =>
    rw [hst] at hx
    exact ((calm_setState t p (by decide)).live x).mp (((keeps_schedEnqueue _ p).live x).mp hx)
  | EXITED =>
    rw [hst] at hx
    obtain ⟨-, hlive, -⟩ := reapProcess_table hacc.table hslot
    exact ((hlive x).mp hx).1

/-- The table may get a new process behind the last one. -/
theorem Base.append {proc : Process} (h : Base s) (hroom : s.processCount < MAX_PROCESSES)
    (hp : ¬ Live s p) (hi : proc.i = s.processCount) (hst : proc.state ≠ .EXITED)
    (ha : Appended s s' p proc) (hmin : s'.processMinIndex ≤ s'.processCount)
    (hrq : s'.rq = s.rq) : Base s' := by
  obtain ⟨htable, hlive⟩ := ha.table h.table hroom hp hi
  refine ⟨htable, hmin, fun q hq => ?_, fun q hq hq' => ?_⟩
  · rw [hrq] at hq
    exact (hlive q).mpr (Or.inr (h.curr q hq))
  · rw [ha.procs] at hq'
    rw [hrq]
    rcases (hlive q).mp hq with rfl | hold
    · rw [Function.update_self] at hq'
      exact absurd hq' hst
    · have hqp : q ≠ p := fun hqp => hp (hqp ▸ hold)
      rw [Function.update_of_ne hqp] at hq'
      exact h.exited q hold hq'

/-- Anyone may write the memory of a process that is not live. -/
theorem Base.reuse (h : Base s) (hp : ¬ Live s p) (proc : Process) :
    Base (s.setProc p fun _ => proc) := by
  have hprocs : ∀ q, Live s q → (s.setProc p fun _ => proc).procs q = s.procs q := by
    intro q hq
    rw [setProc_procs, if_neg]
    rintro rfl
    exact hp hq
  refine ⟨⟨h.table.compact, fun i q hq => ?_, h.table.le⟩, h.minIndex, h.curr, fun q hq hst => ?_⟩
  · rw [hprocs q (live_of_slot h.table hq)]
    exact h.table.index i q hq
  · rw [hprocs q hq] at hst
    exact h.exited q hq hst

/-- With no current process there is nothing to reclaim. -/
theorem reclaimFrom_eq (h : Base s) (hc : s.rq.curr = none) (turns i : Nat) :
    reclaimFrom s turns i = s := by
  induction turns generalizing i with
  | zero => rfl
  | succ turns ih =>
    unfold reclaimFrom
    split
    · split
      · exact ih (i + 1)
      · rename_i q hq
        rw [if_neg, ih (i + 1)]
        intro hst
        have hcurr := h.exited q (live_of_slot h.table hq) hst
        rw [hc] at hcurr
        cases hcurr
    · rfl

theorem calm_idleTurn (h : Base s) (hc : s.rq.curr = none) : Calm s (idleTurn s) := by
  have hcalm := Keeps.calm (keeps_rebuild s)
  unfold idleTurn
  simp only
  split
  · exact hcalm
  · rw [reclaimFrom_eq (h.calm hcalm) (by rw [hcalm.curr, hc])]
    exact hcalm

end

/-! ### A new process -/

section
variable {c : LockConfig} {s : BlockState} {p : ProcPtr}

theorem allocateAt_appended (s : BlockState) (p : ProcPtr) (minIndex : Nat) :
    Appended s.sched (allocateAt s p s.sched.processCount minIndex).sched p
      (newProcess s.nextPid s.sched.processCount) := ⟨rfl, rfl, if_pos rfl⟩

/-- The record of a new process in the table, with its priority. -/
def allocated (s : BlockState) (p : ProcPtr) : BlockState :=
  (allocateAt s p s.sched.processCount (s.sched.processCount + 1)).mapSched fun sched =>
    schedNice (schedSetPriority (schedFork sched p) p PRIO_NORMAL_MIN) p 1

theorem calm_allocated (s : BlockState) (p : ProcPtr) :
    Calm (allocateAt s p s.sched.processCount (s.sched.processCount + 1)).sched
      (allocated s p).sched :=
  Keeps.calm <| (keeps_schedFork _ p).trans <| (keeps_schedSetPriority _ p _).trans
    (keeps_schedNice _ p 1)

/-- The new process is live, with the others. -/
theorem live_allocated (h : Base s.sched) (hp : ¬ Live s.sched p)
    (hroom : s.sched.processCount < MAX_PROCESSES) (q : ProcPtr) :
    Live (allocated s p).sched q ↔ q = p ∨ Live s.sched q :=
  ((calm_allocated s p).live q).trans (((allocateAt_appended s p _).table h.table hroom hp rfl).2 q)

theorem Base.allocated (h : Base s.sched) (hp : ¬ Live s.sched p)
    (hroom : s.sched.processCount < MAX_PROCESSES) : Base (allocated s p).sched := by
  have happ := allocateAt_appended s p (s.sched.processCount + 1)
  have hnew := h.append hroom hp rfl (by simp [newProcess]) happ
    (by rw [happ.processCount]; rfl) rfl
  exact hnew.calm (calm_allocated s p)

/-- A new process is woken, unless the process table is full. -/
theorem spawn_cases (h : Base s.sched) (p : ProcPtr) :
    spawn c p s = .ok s ∨ spawn c p s = .error (.panic "hit process limit - 1") ∨
      (s.sched.processCount < MAX_PROCESSES ∧
        spawn c p s = withRunqueue c (fun sched => schedWakeup sched p) (allocated s p)) := by
  unfold spawn
  cases hfind : findSlot s.sched with
  | none => exact Or.inl rfl
  | some i =>
    have hroom := lt_of_findSlot h.table h.minIndex hfind
    rw [findSlot_eq h.table h.minIndex hroom] at hfind
    cases hfind
    simp only
    split
    · exact Or.inr (Or.inl rfl)
    · rename_i minIndex hscan
      obtain ⟨rfl, -⟩ := nextSlot_eq h.table hscan
      exact Or.inr (Or.inr ⟨hroom, rfl⟩)

end

/-! ### Spinlocks -/

section
variable {c : LockConfig} {s : BlockState} {p : ProcPtr} {l l' : Lock}

/-- The lock with its new value. -/
def setLock (s : BlockState) (l : Lock) (v : Spinlock) : BlockState :=
  { s with lock := Function.update s.lock l v }

@[simp] theorem setLock_sched (v : Spinlock) : (setLock s l v).sched = s.sched := rfl

@[simp] theorem setLock_resume (v : Spinlock) : (setLock s l v).resume = s.resume := rfl

@[simp] theorem setLock_lock_self (v : Spinlock) : (setLock s l v).lock l = v :=
  Function.update_self _ _ _

theorem setLock_lock_of_ne (v : Spinlock) (h : l' ≠ l) : (setLock s l v).lock l' = s.lock l' :=
  Function.update_of_ne h _ _

/-- No CPU holds the lock. -/
def Free (s : BlockState) (l : Lock) : Prop := (s.lock l).locked = 0

/-- This CPU holds the lock. -/
def Held (c : LockConfig) (s : BlockState) (l : Lock) : Prop :=
  thisCpuHoldingLock c (s.lock l) = true

theorem Free.not_held (h : Free s l) : thisCpuHoldingLock c (s.lock l) = false := by
  unfold thisCpuHoldingLock
  rw [h]
  rfl

theorem Held.locked (h : Held c s l) : (s.lock l).locked ≠ 0 := by
  intro hfree
  rw [Held, Free.not_held hfree] at h
  cases h

theorem held_setLock : Held c (setLock s l ⟨1, c.cpu⟩) l := by
  unfold Held thisCpuHoldingLock
  rw [setLock_lock_self]
  simp

/-- A free lock can be taken. -/
theorem spinlockLock_free (hlocks : c.locks = true) (h : Free s l) :
    spinlockLock c l s = .ok (setLock s l ⟨1, c.cpu⟩) := by
  unfold spinlockLock
  rw [hlocks, h.not_held, if_neg (by decide), if_neg (by decide)]
  exact if_neg (not_not.mpr h)

/-- A CPU that takes its lock again would wait forever. -/
theorem spinlockLock_held (hlocks : c.locks = true) (h : Held c s l) :
    spinlockLock c l s = .error (.panic "deadlock") := by
  unfold spinlockLock
  rw [hlocks, show thisCpuHoldingLock c (s.lock l) = true from h, if_neg (by decide), if_pos rfl]

theorem spinlockUnlock_held (hlocks : c.locks = true) (h : Held c s l) :
    spinlockUnlock c l s = .ok (setLock s l ⟨0, 0⟩) := by
  unfold spinlockUnlock
  rw [hlocks, show thisCpuHoldingLock c (s.lock l) = true from h, if_neg (by decide),
    if_neg (by decide)]
  rfl

/-- An operation of the run queue leaves its lock free. -/
theorem withRunqueue_free (hlocks : c.locks = true) (h : Free s .runqueue)
    (f : SchedState → SchedState) :
    withRunqueue c f s = .ok (setLock (s.mapSched f) .runqueue ⟨0, 0⟩) := by
  unfold withRunqueue
  rw [bind_ok (spinlockLock_free hlocks h)]
  have hheld : Held c ((setLock s .runqueue ⟨1, c.cpu⟩).mapSched f) .runqueue := held_setLock
  rw [spinlockUnlock_held hlocks hheld]
  simp only [setLock, BlockState.mapSched, Function.update_idem]

/-- The end of a system call in a process with a locked lock. -/
theorem schedulerSwitchBack_held (h : Held c s (.proc p))
    (hst : (s.sched.procs p).state ≠ .RUNNING) :
    schedulerSwitchBack c p s = .ok s := by
  have hlocked : spinlockLocked c (.proc p) s = true := by
    unfold spinlockLocked
    simp [h.locked]
  unfold schedulerSwitchBack
  rw [hlocked]
  exact if_neg hst

end

/-! ### Operations that put nobody to sleep -/

/-- Who sleeps in `s'` slept in `s`, on the same channel. -/
def Wakes (s s' : SchedState) : Prop :=
  ∀ x, (s'.procs x).state = .SLEEPING → (s.procs x).state = .SLEEPING ∧
    (s'.procs x).waitingChannel = (s.procs x).waitingChannel

section
variable {s s' s'' : SchedState} {p : ProcPtr}

theorem Wakes.refl (s : SchedState) : Wakes s s := fun _ hx => ⟨hx, rfl⟩

theorem Wakes.trans (h : Wakes s s') (h' : Wakes s' s'') : Wakes s s'' := by
  intro x hx
  obtain ⟨hs', hchannel⟩ := h' x hx
  exact ⟨(h x hs').1, hchannel.trans (h x hs').2⟩

theorem Wakes.of_procs (h : s'.procs = s.procs) : Wakes s s' := by
  intro x hx
  rw [h] at hx ⊢
  exact ⟨hx, rfl⟩

/-- An operation of the run queue wakes nobody and puts nobody to sleep. -/
theorem Keeps.wakes (h : Keeps s s') : Wakes s s' := fun x hx => ⟨h.state x ▸ hx, h.channel x⟩

section

variable (s : SchedState)

/-- A write to one process. -/
theorem wakes_setProc (p : ProcPtr)
    (hf : (f (s.procs p)).state = .SLEEPING → (s.procs p).state = .SLEEPING ∧
      (f (s.procs p)).waitingChannel = (s.procs p).waitingChannel) : Wakes s (s.setProc p f) := by
  intro x
  rw [setProc_procs]
  split
  · rename_i hx
    rw [hx]
    exact hf
  · exact fun hx => ⟨hx, rfl⟩

theorem wakes_setState (p : ProcPtr) (hst : st ≠ .SLEEPING) :
    Wakes s (s.setState p st) := wakes_setProc s p fun h => absurd h hst

theorem wakes_schedWakeup (p : ProcPtr) : Wakes s (schedWakeup s p) := by
  unfold schedWakeup
  split
  · exact Wakes.refl s
  · have hwrite : Wakes s (s.setProc p wakeProcess) :=
      wakes_setProc s p fun h => by cases h
    exact hwrite.trans (Keeps.wakes (keeps_schedEnqueue _ p))

/-- The process does not sleep after it is woken. -/
theorem schedWakeup_awake (p : ProcPtr) : ((schedWakeup s p).procs p).state ≠ .SLEEPING := by
  intro hsleeps
  have hslept := (wakes_schedWakeup s p p hsleeps).1
  unfold schedWakeup at hsleeps
  rw [if_neg fun h => h.1 hslept, (keeps_schedEnqueue _ p).state, setProc_procs, if_pos rfl]
    at hsleeps
  cases hsleeps

theorem wakes_schedulerPreempt : Wakes s (schedulerPreempt s) := by
  unfold schedulerPreempt
  split
  · exact Wakes.refl s
  · split
    · exact wakes_setState s _ (by decide)
    · exact Wakes.refl s

theorem wakes_schedulerTick (now : UInt64) : Wakes s (schedulerTick s now) :=
  schedulerTick_induct (P := Wakes s) (Wakes.refl s)
    (fun p => Keeps.wakes ((keeps_schedUpdateVruntime s p _).trans (keeps_setSe _ p _)))
    fun t ht => ht.trans (wakes_schedulerPreempt t)

theorem wakes_coelesceFrom (left j : Nat) : Wakes s (coelesceFrom s left j) := by
  induction left generalizing s j with
  | zero => exact Wakes.refl s
  | succ left ih =>
    unfold coelesceFrom
    split
    · exact Wakes.refl s
    · rename_i q _
      have hshift : Wakes s (shiftDown s j q) := by
        have hmove := wakes_setProc
          { s with processes := Function.update s.processes (j - 1) (some q) } q
          (f := fun proc => { proc with i := j - 1 }) fun h => ⟨h, rfl⟩
        exact ((Wakes.of_procs rfl).trans hmove).trans (Wakes.of_procs rfl)
      exact hshift.trans (ih _ (j + 1))

theorem wakes_reapProcess (p : ProcPtr) (i : Nat) : Wakes s (reapProcess s p i) := by
  have hwrite : Wakes s (s.setProc p fun proc => { proc with state := .UNUSED, pid := 0 }) :=
    wakes_setProc s p fun h => by cases h
  have hclear : Wakes s (clearSlot s p i) := hwrite.trans (Wakes.of_procs rfl)
  exact (hclear.trans (wakes_coelesceFrom _ _ _)).trans (Wakes.of_procs rfl)

theorem wakes_switchTo (p : ProcPtr) (now : UInt64) : Wakes s (switchTo s p now) := by
  unfold switchTo
  have hrun : Wakes (schedDequeue s p)
      (((schedDequeue s p).setCurr (some p)).setState p .RUNNING) :=
    (Wakes.of_procs rfl).trans (wakes_setState _ p (by decide))
  exact ((Keeps.wakes (keeps_schedDequeue s p)).trans hrun).trans (Keeps.wakes (keeps_setSe _ p _))

theorem wakes_resumeScheduler (p : ProcPtr) (now : UInt64) : Wakes s (resumeScheduler s p now) := by
  have hreturn : ∀ t, Wakes t (handleReturn t p) := by
    intro t
    unfold handleReturn
    split
    · exact Keeps.wakes (keeps_schedEnqueue t p)
    · exact Wakes.refl t
    · exact wakes_reapProcess t p _
    · exact Wakes.refl t
    · exact (wakes_setState t p (by decide)).trans (Keeps.wakes (keeps_schedEnqueue _ p))
    · exact (wakes_setState t p (by decide)).trans (Keeps.wakes (keeps_schedEnqueue _ p))
  exact ((Keeps.wakes (keeps_accountRun s p now)).trans (hreturn _)).trans (Wakes.of_procs rfl)

/-- `sched_sleep` puts its process to sleep, and nobody else. -/
theorem schedSleep_sleeps (p : ProcPtr) (wchan now : UInt64)
    (hx : ((schedSleep s p wchan now).procs x).state = .SLEEPING) :
    (x = p ∧ ((schedSleep s p wchan now).procs x).waitingChannel = some wchan) ∨
      (x ≠ p ∧ (s.procs x).state = .SLEEPING ∧
        ((schedSleep s p wchan now).procs x).waitingChannel = (s.procs x).waitingChannel) := by
  have hdeq : Wakes s (schedDequeue (s.setSe p (accountSleep now)) p) :=
    Keeps.wakes ((keeps_setSe s p _).trans (keeps_schedDequeue _ p))
  unfold schedSleep at hx ⊢
  simp only at hx ⊢
  have hlast := Keeps.wakes (keeps_setSe ((schedDequeue (s.setSe p (accountSleep now)) p).setProc p
    fun proc => { proc with state := .SLEEPING, waitingChannel := some wchan }) p
    schedCheckInteractive) x hx
  rw [hlast.2]
  by_cases hxp : x = p
  · refine Or.inl ⟨hxp, ?_⟩
    rw [setProc_procs, if_pos hxp]
  · refine Or.inr ?_
    rw [setProc_procs, if_neg hxp] at hlast ⊢
    exact ⟨hxp, hdeq x hlast.1⟩

theorem wakes_reclaimFrom (turns i : Nat) : Wakes s (reclaimFrom s turns i) :=
  reclaimFrom_induct (P := Wakes s) (fun t i p ht _ _ _ => ht.trans (wakes_reapProcess t p i))
    (Wakes.refl s) turns i

theorem wakes_idleTurn : Wakes s (idleTurn s) := by
  unfold idleTurn
  simp only
  split
  · exact Keeps.wakes (keeps_rebuild s)
  · exact (Keeps.wakes (keeps_rebuild s)).trans (wakes_reclaimFrom _ _ _)

end

end

/-! ### Steps -/

/-- What a step runs, and when it can happen. -/
inductive BlockStepped (c : LockConfig) (s : BlockState) : BlockAct → Outcome → Prop
  | timer {p : ProcPtr} {now : UInt64} (user : inUser s = some p) :
      BlockStepped c s (.timer now) (timerTick c now s)
  | yield {p : ProcPtr} (user : inUser s = some p) : BlockStepped c s .yield (schedulerYield c p s)
  | sleep {p : ProcPtr} {msec now now' : UInt64} (user : inUser s = some p) :
      BlockStepped c s (.sleep msec now now') (sysSleep c p msec now now' s)
  | wait {p : ProcPtr} {targetPid now : UInt64} (user : inUser s = some p) :
      BlockStepped c s (.wait targetPid now) (procWait c p targetPid now s)
  | serialRead {p : ProcPtr} {len : Nat} {now : UInt64} (user : inUser s = some p) :
      BlockStepped c s (.serialRead len now) (serialReadOp c p len now s)
  | exit {p : ProcPtr} {exitCode : Int32} (user : inUser s = some p) :
      BlockStepped c s (.exit exitCode) (procExit c p exitCode s)
  | spawn {p x : ProcPtr} (fresh : ¬ Live s.sched p) (user : inUser s = some x) :
      BlockStepped c s (.spawn p) (spawn c p s)
  | goOn {p : ProcPtr} {now : UInt64} (call : inCall s = some p) :
      BlockStepped c s (.goOn now) (continueCall c p now s)
  | switchIn {p : ProcPtr} {now : UInt64} (free : s.sched.rq.curr = none) (live : Live s.sched p)
      (runnable : (s.sched.procs p).state = .RUNNABLE) :
      BlockStepped c s (.switchIn p now) (switchIn c p now s)
  | switchOut {p : ProcPtr} {now : UInt64} (curr : s.sched.rq.curr = some p)
      (back : (s.sched.procs p).state ≠ .RUNNING) :
      BlockStepped c s (.switchOut now) (switchOut c p now s)
  | idle (free : s.sched.rq.curr = none) (empty : s.sched.rq.totalRunnable = 0) :
      BlockStepped c s .idle (withRunqueue c idleTurn s)
  | serialIrq (enabled : s.sched.rq.curr = none ∨ (inUser s).isSome) :
      BlockStepped c s .serialIrq (serialIrqHandler c s)
  | reuse {p : ProcPtr} {proc : Process} {lock : Spinlock} {exitStatus : Int32}
      (fresh : ¬ Live s.sched p) :
      BlockStepped c s (.reuse p proc lock exitStatus) (.ok { s with
        sched := s.sched.setProc p fun _ => proc
        lock := Function.update s.lock (.proc p) lock
        exitStatus := Function.update s.exitStatus p exitStatus })

/-- Every step is one of the listed ones. -/
theorem blockStep_cases {c : LockConfig} {s : BlockState} {a : BlockAct} {o : Outcome}
    (h : blockStep c s a = some o) : BlockStepped c s a o := by
  cases a with
  | timer now =>
    obtain ⟨p, hp, rfl⟩ := Option.map_eq_some_iff.mp h
    exact .timer hp
  | yield =>
    obtain ⟨p, hp, rfl⟩ := Option.map_eq_some_iff.mp h
    exact .yield hp
  | sleep msec now now' =>
    obtain ⟨p, hp, rfl⟩ := Option.map_eq_some_iff.mp h
    exact .sleep hp
  | wait targetPid now =>
    obtain ⟨p, hp, rfl⟩ := Option.map_eq_some_iff.mp h
    exact .wait hp
  | serialRead len now =>
    obtain ⟨p, hp, rfl⟩ := Option.map_eq_some_iff.mp h
    exact .serialRead hp
  | exit exitCode =>
    obtain ⟨p, hp, rfl⟩ := Option.map_eq_some_iff.mp h
    exact .exit hp
  | spawn p =>
    obtain ⟨hlive, hrun⟩ := Option.ite_none_left_eq_some.mp h
    obtain ⟨x, hx, rfl⟩ := Option.map_eq_some_iff.mp hrun
    exact .spawn hlive hx
  | goOn now =>
    obtain ⟨p, hp, rfl⟩ := Option.map_eq_some_iff.mp h
    exact .goOn hp
  | switchIn p now =>
    obtain ⟨⟨hcurr, hlive, hst⟩, ⟨⟩⟩ := Option.ite_none_right_eq_some.mp h
    exact .switchIn hcurr hlive hst
  | switchOut now =>
    rw [blockStep] at h
    split at h
    · cases h
    · rename_i p hcurr
      obtain ⟨hback, ⟨⟩⟩ := Option.ite_none_left_eq_some.mp h
      exact .switchOut hcurr hback
  | idle =>
    obtain ⟨⟨hcurr, hempty⟩, ⟨⟩⟩ := Option.ite_none_right_eq_some.mp h
    exact .idle hcurr hempty
  | serialIrq =>
    obtain ⟨henabled, ⟨⟩⟩ := Option.ite_none_right_eq_some.mp h
    exact .serialIrq henabled
  | reuse p proc lock exitStatus =>
    obtain ⟨hlive, ⟨⟩⟩ := Option.ite_none_left_eq_some.mp h
    exact .reuse hlive

end DzOS.Proofs.Sched.Blocking
