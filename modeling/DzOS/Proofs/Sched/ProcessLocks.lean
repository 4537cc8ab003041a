import DzOS.Lib.Outcome
import DzOS.Lib.Run
import DzOS.Proofs.Sched.Blocking
import DzOS.Proofs.Sched.ProcessTable

/-!
# `DzOS.Proofs.Sched.ProcessLocks`: who holds the lock of a process

The scheduler takes the lock of a process before it switches to it, and releases it when the
process is back. So a process runs with its own lock held, and all other locks are free. This is
`LockInv`, the invariant of the steps that do not block.

`scheduler_yield`, `sys_sleep`, `proc_wait` and a read of the empty serial port take the lock of
the running process once more. They end in the panic "deadlock" (`blockStep_blocks`), whatever
the other processes do. So the locks are in order exactly in the runs without these calls
(`process_locks_iff`). The timer and `proc_exit` rely on the lock that the scheduler took.
-/

set_option autoImplicit false

namespace DzOS.Proofs.Sched.ProcessLocks

open DzOS.Lib DzOS.Sched DzOS.Proofs.Sched DzOS.Proofs.Sched.Blocking
open DzOS.Proofs.Sched.StackSlots DzOS.Proofs.Sched.ProcessTable

variable {a : BlockAct} {c : LockConfig} {s s' : BlockState} {p q : ProcPtr} {l l' : Lock}

/-! ### Steps that leave the locks as they were -/

/-- `s'` has the table and the current process of `s`. Each lock is as it was, or it has been
taken and released. -/
structure Quiet (s s' : BlockState) : Prop where
  calm : Calm s.sched s'.sched
  lock : ∀ l, s'.lock l = s.lock l ∨ (Free s l ∧ Free s' l)
  resume : s'.resume = s.resume

theorem Quiet.refl (s : BlockState) : Quiet s s := ⟨Calm.refl _, fun _ => Or.inl rfl, rfl⟩

theorem Quiet.trans {s'' : BlockState} (h : Quiet s s') (h' : Quiet s' s'') : Quiet s s'' where
  calm := h.calm.trans h'.calm
  lock l := by
    rcases h.lock l with heq | ⟨hfree, hfree'⟩
    · rcases h'.lock l with heq' | ⟨hfree, hfree'⟩
      · exact Or.inl (heq'.trans heq)
      · exact Or.inr ⟨by rwa [Free, ← heq], hfree'⟩
    · rcases h'.lock l with heq' | ⟨-, hfree''⟩
      · exact Or.inr ⟨hfree, by rwa [Free, heq']⟩
      · exact Or.inr ⟨hfree, hfree''⟩
  resume := h'.resume.trans h.resume

theorem Quiet.free (h : Quiet s s') (hfree : Free s l) : Free s' l := by
  rcases h.lock l with heq | ⟨-, hfree'⟩
  · rwa [Free, heq]
  · exact hfree'

theorem Quiet.held (h : Quiet s s') (hheld : Held c s l) : Held c s' l := by
  rcases h.lock l with heq | ⟨hfree, -⟩
  · rwa [Held, heq]
  · exact absurd hfree hheld.locked

theorem quiet_mapSched (s : BlockState) (f : SchedState → SchedState)
    (h : Calm s.sched (f s.sched)) :
    Quiet s (s.mapSched f) := ⟨h, fun _ => Or.inl rfl, rfl⟩

/-- A free lock is released. -/
theorem quiet_setLock (h : Free s l) : Quiet s (setLock s l ⟨0, 0⟩) where
  calm := Calm.refl _
  lock l' := by
    by_cases hl : l' = l
    · subst hl
      exact Or.inr ⟨h, by rw [Free, setLock_lock_self]⟩
    · exact Or.inl (setLock_lock_of_ne _ hl)
  resume := rfl

theorem withRunqueue_quiet (hlocks : c.locks = true) (h : Free s .runqueue)
    {f : SchedState → SchedState} (hf : Calm s.sched (f s.sched)) :
    Succeeds (withRunqueue c f s) (Quiet s) :=
  ⟨_, withRunqueue_free hlocks h f, (quiet_mapSched s f hf).trans (quiet_setLock h)⟩

/-! ### The invariant -/

/-- The processes that do not run have free locks, and so has the run queue. -/
structure OthersFree (s : BlockState) : Prop where
  base : Base s.sched
  free : ∀ q, Live s.sched q → s.sched.rq.curr ≠ some q → Free s (.proc q)
  runqueue : Free s .runqueue

/-- What holds between the steps of a run that does not block: the current process has a held
lock, all other locks are free, and no process is inside a system call. -/
structure LockInv (c : LockConfig) (s : BlockState) : Prop extends OthersFree s where
  held : ∀ p, s.sched.rq.curr = some p → Held c s (.proc p)
  serial : Free s .serial
  user : ∀ q, Live s.sched q → s.resume q = .user

theorem OthersFree.quiet (h : OthersFree s) (hq : Quiet s s') : OthersFree s' where
  base := h.base.calm hq.calm
  free q hlive hcurr :=
    hq.free (h.free q ((hq.calm.live q).mp hlive) (by rwa [← hq.calm.curr]))
  runqueue := hq.free h.runqueue

theorem LockInv.quiet (h : LockInv c s) (hq : Quiet s s') : LockInv c s' where
  toOthersFree := h.toOthersFree.quiet hq
  held p hcurr := hq.held (h.held p (by rwa [← hq.calm.curr]))
  serial := hq.free h.serial
  user q hlive := by
    rw [hq.resume]
    exact h.user q ((hq.calm.live q).mp hlive)

/-- The lock of a process is held by the CPU exactly while the process is switched in. -/
def Disciplined (c : LockConfig) (s : BlockState) : Prop :=
  ∀ p, Live s.sched p → (thisCpuHoldingLock c (s.lock (.proc p)) = true ↔ s.sched.rq.curr = some p)

theorem LockInv.disciplined (h : LockInv c s) : Disciplined c s := by
  intro p hlive
  constructor
  · intro hheld
    by_contra hcurr
    exact (Held.locked hheld) (h.free p hlive hcurr)
  · exact h.held p

/-! ### Waking the sleepers -/

/-- The lock of another process is taken and released around a quiet operation. -/
theorem quiet_around {s₂ : BlockState} (hfree : Free s l) (h : Quiet (setLock s l ⟨1, c.cpu⟩) s₂) :
    Quiet s (setLock s₂ l ⟨0, 0⟩) where
  calm := h.calm
  lock l' := by
    by_cases hl : l' = l
    · subst hl
      exact Or.inr ⟨hfree, by rw [Free, setLock_lock_self]⟩
    · have hlock := h.lock l'
      rw [Free, setLock_lock_of_ne _ hl] at hlock
      rw [Free, Free, setLock_lock_of_ne _ hl]
      exact hlock
  resume := h.resume

/-- `proc_wakeup` takes the locks of the processes that do not run, one after the other. -/
theorem procWakeupFrom_quiet (hlocks : c.locks = true) (waitingChannel : UInt64) (everyone : Bool)
    (left i : Nat) (h : OthersFree s) :
    Succeeds (procWakeupFrom c waitingChannel everyone left i s) (Quiet s) := by
  induction left generalizing i s with
  | zero => exact Succeeds.ok (Quiet.refl s)
  | succ left ih =>
    unfold procWakeupFrom
    cases hslot : s.sched.processes i with
    | none => exact ih (i + 1) h
    | some q =>
      simp only
      split
      · exact ih (i + 1) h
      · rename_i hcurr
        have hfree := h.free q (live_of_slot h.base.table hslot) hcurr
        rw [bind_ok (spinlockLock_free hlocks hfree)]
        have hrq : Free (setLock s (.proc q) ⟨1, c.cpu⟩) .runqueue := by
          rw [Free, setLock_lock_of_ne _ (by simp)]
          exact h.runqueue
        have hrest : ∀ s₂, Quiet (setLock s (.proc q) ⟨1, c.cpu⟩) s₂ → ∀ done : Bool,
            Succeeds (do
              let s ← spinlockUnlock c (.proc q) s₂
              if done then .ok s
              else procWakeupFrom c waitingChannel everyone left (i + 1) s) (Quiet s) := by
          intro s₂ hquiet done
          rw [bind_ok (spinlockUnlock_held hlocks (hquiet.held held_setLock))]
          have hall := quiet_around hfree hquiet
          refine Succeeds.ite (fun _ => Succeeds.ok hall) fun _ => ?_
          exact (ih (i + 1) (h.quiet hall)).imp fun _ hlater => hall.trans hlater
        -- `q` is woken if it waits on the channel
        refine Succeeds.ite (fun _ => ?_) fun _ => hrest _ (Quiet.refl _) _
        obtain ⟨s₂, hs₂, hquiet⟩ := withRunqueue_quiet hlocks hrq
          (f := fun sched => schedWakeup sched q) (calm_schedWakeup _ q)
        rw [bind_ok hs₂]
        exact hrest s₂ hquiet _

theorem condvarNotifyAll_quiet (hlocks : c.locks = true) (h : OthersFree s) (l : Lock) :
    Succeeds (condvarNotifyAll c l s) (Quiet s) :=
  procWakeupFrom_quiet hlocks _ true _ 0 h

/-! ### The calls that block -/

/-- The running process looks for a pid. It comes across its own lock, or it finds another
process before. -/
theorem findPidFrom_running (hlocks : c.locks = true) (targetPid : UInt64) {k : Nat} (left i : Nat)
    (h : OthersFree s) (hcurr : s.sched.rq.curr = some p) (hheld : Held c s (.proc p))
    (hslot : s.sched.processes k = some p) (hik : i ≤ k) (hk : k < i + left) :
    findPidFrom c targetPid left i s = .error (.panic "deadlock") ∨
      ∃ q s', findPidFrom c targetPid left i s = .ok (some q, s') ∧ q ≠ p ∧ Live s.sched q ∧
        s'.sched = s.sched ∧ Held c s' (.proc p) := by
  induction left generalizing i s with
  | zero => omega
  | succ left ih =>
    unfold findPidFrom
    by_cases hki : i = k
    · subst hki
      rw [hslot]
      exact Or.inl (bind_error (spinlockLock_held hlocks hheld))
    · cases hq : s.sched.processes i with
      | none => exact ih _ h hcurr hheld hslot (by omega) (by omega)
      | some q =>
        have hlive := live_of_slot h.base.table hq
        have hqp : q ≠ p := by
          rintro rfl
          exact hki ((h.base.table.index i q hq).symm.trans (h.base.table.index k q hslot))
        have hfree := h.free q hlive fun hc => hqp (Option.some.inj (hc.symm.trans hcurr))
        have hpq : Lock.proc p ≠ Lock.proc q := fun heq => hqp (Lock.proc.inj heq).symm
        simp only
        rw [bind_ok (spinlockLock_free hlocks hfree)]
        split
        · refine Or.inr ⟨q, _, rfl, hqp, hlive, rfl, ?_⟩
          rw [Held, setLock_lock_of_ne _ hpq]
          exact hheld
        · rw [bind_ok (spinlockUnlock_held hlocks held_setLock)]
          have hquiet := quiet_around hfree (Quiet.refl (setLock s (.proc q) ⟨1, c.cpu⟩))
          exact ih _ (h.quiet hquiet) hcurr (hquiet.held hheld) hslot (by omega) (by omega)

/-- `proc_wait` takes the lock of the running process, in its search or in `condvar_wait`. -/
theorem procWait_deadlock (hlocks : c.locks = true) (h : LockInv c s)
    (hcurr : s.sched.rq.curr = some p) (targetPid now : UInt64) :
    procWait c p targetPid now s = .error (.panic "deadlock") := by
  obtain ⟨k, hk, hslot⟩ := h.base.curr p hcurr
  have hle := h.base.table.le
  unfold procWait
  rcases findPidFrom_running hlocks targetPid MAX_PROCESSES 0 h.toOthersFree hcurr
    (h.held p hcurr) hslot (Nat.zero_le k) (by omega) with
    hfind | ⟨q, s', hfind, hqp, hlive, hsched, hheld⟩
  · rw [bind_error hfind]
  · rw [bind_ok hfind]
    -- only the current process could be `EXITED`
    have hst : (s'.sched.procs q).state ≠ .EXITED := by
      intro hst
      rw [hsched] at hst
      exact hqp (Option.some.inj ((h.base.exited q hlive hst).symm.trans hcurr))
    show waitLoop c p q now s' = _
    unfold waitLoop
    rw [if_pos hst]
    exact bind_error (spinlockLock_held hlocks hheld)

/-- The running process makes a call that gives the CPU away by itself. -/
def Blocks (s : BlockState) : BlockAct → Prop
  | .yield | .sleep _ _ _ | .wait _ _ => (inUser s).isSome
  | .serialRead len _ => (inUser s).isSome ∧ len ≠ 0 ∧ s.readIndex = s.writeIndex
  | _ => False

/-- The process in user space is the current one. -/
theorem inUser_eq (h : inUser s = some p) :
    s.sched.rq.curr = some p ∧ (s.sched.procs p).state = .RUNNING ∧ s.resume p = .user := by
  obtain ⟨hexec, huser⟩ := Option.filter_eq_some_iff.mp h
  obtain ⟨hcurr, hst⟩ := Option.filter_eq_some_iff.mp hexec
  exact ⟨hcurr, by simpa using hst, by simpa using huser⟩

/-- A call that blocks takes the lock of the running process again. -/
theorem blockStep_blocks (hlocks : c.locks = true) (h : LockInv c s) (ha : Blocks s a) :
    blockStep c s a = some (.error (.panic "deadlock")) := by
  have hrunning : ∃ p, inUser s = some p := by
    cases a with
    | yield => exact Option.isSome_iff_exists.mp ha
    | sleep => exact Option.isSome_iff_exists.mp ha
    | wait => exact Option.isSome_iff_exists.mp ha
    | serialRead => exact Option.isSome_iff_exists.mp ha.1
    | _ => exact ha.elim
  obtain ⟨p, hp⟩ := hrunning
  obtain ⟨hcurr, -, -⟩ := inUser_eq hp
  have hlock := spinlockLock_held hlocks (h.held p hcurr)
  cases a with
  | yield =>
    rw [blockStep, hp, Option.map_some, schedulerYield, bind_error hlock]
  | sleep msec now now' =>
    rw [blockStep, hp, Option.map_some, sysSleep, bind_error hlock]
  | wait targetPid now =>
    rw [blockStep, hp, Option.map_some, procWait_deadlock hlocks h hcurr]
  | serialRead len now =>
    obtain ⟨-, hlen, hempty⟩ := ha
    have hheld : Held c (setLock s .serial ⟨1, c.cpu⟩) (.proc p) := by
      rw [Held, setLock_lock_of_ne _ (by simp)]
      exact h.held p hcurr
    have hempty' : (setLock s .serial ⟨1, c.cpu⟩).readIndex =
        (setLock s .serial ⟨1, c.cpu⟩).writeIndex := hempty
    rw [blockStep, hp, Option.map_some, serialReadOp, if_neg hlen,
      bind_ok (spinlockLock_free hlocks h.serial), serialReadLoop, if_pos hempty', condvarWait,
      bind_error (spinlockLock_held hlocks hheld)]
  | _ => exact ha.elim

/-! ### The other steps -/

/-- A system call returns. -/
theorem LockInv.returnTo (h : LockInv c s) (p : ProcPtr) (value : Int32) :
    LockInv c (s.returnTo p value) where
  base := h.base
  free := h.free
  runqueue := h.runqueue
  held := h.held
  serial := h.serial
  user q hlive := by
    show Function.update s.resume p .user q = .user
    rw [Function.update_apply]
    split
    · rfl
    · exact h.user q hlive

/-- The scheduler finds the lock that it took. -/
theorem timerTick_keeps (h : LockInv c s) (now : UInt64) :
    Succeeds (timerTick c now s) (LockInv c) := by
  have htick := h.quiet (quiet_mapSched s (fun sched => schedulerTick sched now)
    (calm_schedulerTick s.sched now))
  unfold timerTick
  simp only
  split
  · exact Succeeds.ok htick
  · rename_i p hcurr
    refine Succeeds.ite (fun _ => Succeeds.ok htick) fun hst => ?_
    exact ⟨_, schedulerSwitchBack_held (htick.held p hcurr) hst, htick⟩

/-- The current process becomes `EXITED`. -/
theorem LockInv.exit (h : LockInv c s) (hcurr : s.sched.rq.curr = some p) :
    LockInv c (s.mapSched fun sched => sched.setState p .EXITED) where
  base := h.base.exit hcurr
  free := h.free
  runqueue := h.runqueue
  held := h.held
  serial := h.serial
  user := h.user

theorem procExit_keeps (hlocks : c.locks = true) (h : LockInv c s)
    (hcurr : s.sched.rq.curr = some p) (exitCode : Int32) :
    Succeeds (procExit c p exitCode s) (LockInv c) := by
  have hlocked : spinlockLocked c (.proc p) s = true := by
    unfold spinlockLocked
    simp [(h.held p hcurr).locked]
  have hstatus : Quiet s { s with exitStatus := Function.update s.exitStatus p exitCode } :=
    ⟨Calm.refl _, fun _ => Or.inl rfl, rfl⟩
  obtain ⟨s₂, hs₂, hquiet⟩ :=
    condvarNotifyAll_quiet hlocks (h.quiet hstatus).toOthersFree (.proc p)
  have hinv := h.quiet (hstatus.trans hquiet)
  have hcurr₂ : s₂.sched.rq.curr = some p := (hstatus.trans hquiet).calm.curr.trans hcurr
  have hexit := hinv.exit hcurr₂
  unfold procExit
  rw [hlocked, Bool.not_true, if_neg (by decide), bind_ok hs₂]
  refine ⟨_, schedulerSwitchBack_held (hexit.held p hcurr₂) ?_, hexit⟩
  show ((s₂.sched.setState p .EXITED).procs p).state ≠ .RUNNING
  rw [setState_state, if_pos rfl]
  decide

/-- A read of the serial port that does not wait. -/
theorem serialReadOp_keeps (hlocks : c.locks = true) (h : LockInv c s) {len : Nat}
    (hdata : len = 0 ∨ s.readIndex ≠ s.writeIndex) (p : ProcPtr) (now : UInt64) :
    Succeeds (serialReadOp c p len now s) (LockInv c) := by
  unfold serialReadOp
  refine Succeeds.ite (fun _ => Succeeds.ok (h.returnTo p 0)) fun hlen => ?_
  rw [bind_ok (spinlockLock_free hlocks h.serial)]
  unfold serialReadLoop
  refine Succeeds.ite (fun hempty => absurd hempty (hdata.resolve_left hlen)) fun _ => ?_
  have hread : Quiet (setLock s .serial ⟨1, c.cpu⟩)
      { setLock s .serial ⟨1, c.cpu⟩ with
        readIndex := (fun i => (i + 1) % SERIAL_BUFFER_LENGTH)^[min len
          (serialAvailable (setLock s .serial ⟨1, c.cpu⟩))]
            (setLock s .serial ⟨1, c.cpu⟩).readIndex } :=
    ⟨Calm.refl _, fun _ => Or.inl rfl, rfl⟩
  simp only
  rw [bind_ok (spinlockUnlock_held hlocks (hread.held held_setLock))]
  exact Succeeds.ok ((h.quiet (quiet_around h.serial hread)).returnTo p _)

/-- The locks of the processes do not depend on the one of the serial port. -/
theorem OthersFree.setSerial (h : OthersFree s) (v : Spinlock) :
    OthersFree (setLock s .serial v) where
  base := h.base
  free q hlive hcurr := by
    rw [Free, setLock_lock_of_ne _ (by simp)]
    exact h.free q hlive hcurr
  runqueue := by
    rw [Free, setLock_lock_of_ne _ (by simp)]
    exact h.runqueue

theorem serialIrqHandler_keeps (hlocks : c.locks = true) (h : LockInv c s) :
    Succeeds (serialIrqHandler c s) (LockInv c) := by
  have hothers := h.toOthersFree.setSerial ⟨1, c.cpu⟩
  unfold serialIrqHandler
  rw [bind_ok (spinlockLock_free hlocks h.serial)]
  have hrest : ∀ s₂, Quiet (setLock s .serial ⟨1, c.cpu⟩) s₂ →
      Succeeds (spinlockUnlock c .serial s₂) (LockInv c) := fun s₂ hquiet =>
    ⟨_, spinlockUnlock_held hlocks (hquiet.held held_setLock),
      h.quiet (quiet_around h.serial hquiet)⟩
  refine Succeeds.ite (fun _ => ?_) fun _ => hrest _ (Quiet.refl _)
  have hwrite : Quiet (setLock s .serial ⟨1, c.cpu⟩)
      { setLock s .serial ⟨1, c.cpu⟩ with
        writeIndex := ((setLock s .serial ⟨1, c.cpu⟩).writeIndex + 1) % SERIAL_BUFFER_LENGTH } :=
    ⟨Calm.refl _, fun _ => Or.inl rfl, rfl⟩
  obtain ⟨s₂, hs₂, hquiet⟩ := condvarNotifyAll_quiet hlocks (hothers.quiet hwrite) .serial
  rw [bind_ok hs₂]
  exact hrest s₂ (hwrite.trans hquiet)

/-- A new process has a free lock, and it starts in user space. -/
theorem LockInv.allocated (h : LockInv c s) (hp : ¬ Live s.sched p)
    (hroom : s.sched.processCount < MAX_PROCESSES) : LockInv c (allocated s p) := by
  have hlive := live_allocated h.base hp hroom
  have hlock : ∀ l, l ≠ .proc p → (Blocking.allocated s p).lock l = s.lock l :=
    fun l hl => Function.update_of_ne hl _ _
  have hcurr : (Blocking.allocated s p).sched.rq.curr = s.sched.rq.curr :=
    (calm_allocated s p).curr
  constructor
  · constructor
    · exact h.base.allocated hp hroom
    · intro q hq hqcurr
      by_cases hqp : q = p
      · subst hqp
        show (Function.update s.lock (.proc q) ⟨0, 0⟩ (.proc q)).locked = 0
        rw [Function.update_self]
      · rw [Free, hlock _ fun heq => hqp (Lock.proc.inj heq)]
        exact h.free q (((hlive q).mp hq).resolve_left hqp) (hcurr ▸ hqcurr)
    · rw [Free, hlock _ (by simp)]
      exact h.runqueue
  · intro x hx
    rw [hcurr] at hx
    have hxp : x ≠ p := by
      rintro rfl
      exact hp (h.base.curr x hx)
    rw [Held, hlock _ fun heq => hxp (Lock.proc.inj heq)]
    exact h.held x hx
  · rw [Free, hlock _ (by simp)]
    exact h.serial
  · intro q hq
    show Function.update s.resume p .user q = .user
    rw [Function.update_apply]
    split
    · rfl
    · rename_i hqp
      exact h.user q (((hlive q).mp hq).resolve_left hqp)

/-- A process is created, or the process table is full. -/
theorem spawn_keeps (hlocks : c.locks = true) (h : LockInv c s) (hp : ¬ Live s.sched p) :
    Succeeds (spawn c p s)
        (fun s' => LockInv c s' ∧ ∀ q, Live s'.sched q → q = p ∨ Live s.sched q) ∨
      spawn c p s = .error (.panic "hit process limit - 1") := by
  rcases spawn_cases h.base p with hspawn | hspawn | ⟨hroom, hspawn⟩
  · exact Or.inl ⟨s, hspawn, h, fun _ hq => Or.inr hq⟩
  · exact Or.inr hspawn
  · have hnew := h.allocated hp hroom
    rw [hspawn]
    refine Or.inl ((withRunqueue_quiet hlocks hnew.runqueue (calm_schedWakeup _ p)).imp
      fun _ hquiet => ?_)
    exact ⟨hnew.quiet hquiet, fun q hq =>
      (live_allocated h.base hp hroom q).mp ((hquiet.calm.live q).mp hq)⟩

/-- The scheduler takes the lock of the process to which it switches. -/
theorem switchIn_keeps (hlocks : c.locks = true) (h : LockInv c s)
    (hcurr : s.sched.rq.curr = none) (hp : Live s.sched p) (now : UInt64) :
    Succeeds (switchIn c p now s) (LockInv c) := by
  have hother : ∀ q, Live s.sched q → Free s (.proc q) := fun q hq =>
    h.free q hq (by rw [hcurr]; simp)
  unfold switchIn
  rw [bind_ok (withRunqueue_free hlocks h.runqueue _)]
  have hfree : Free (setLock (s.mapSched fun sched => switchTo sched p now) .runqueue ⟨0, 0⟩)
      (.proc p) := by
    rw [Free, setLock_lock_of_ne _ (by simp)]
    exact hother p hp
  refine ⟨_, spinlockLock_free hlocks hfree, ⟨⟨h.base.switchTo hcurr hp now, ?_, ?_⟩, ?_, ?_, ?_⟩⟩
  · intro q hq hqcurr
    have hqp : Lock.proc q ≠ Lock.proc p := by
      intro heq
      cases heq
      exact hqcurr (switchTo_curr _ _ _)
    rw [Free, setLock_lock_of_ne _ hqp, setLock_lock_of_ne _ (by simp)]
    exact hother q ((switchTo_live _ _ _ _).mp hq)
  · rw [Free, setLock_lock_of_ne _ (by simp), setLock_lock_self]
  · intro q hq
    cases hq
    exact held_setLock
  · rw [Free, setLock_lock_of_ne _ (by simp), setLock_lock_of_ne _ (by simp)]
    exact h.serial
  · intro q hq
    exact h.user q ((switchTo_live _ _ _ _).mp hq)

/-- The scheduler releases the lock of the process that came back. -/
theorem switchOut_keeps (hlocks : c.locks = true) (h : LockInv c s)
    (hcurr : s.sched.rq.curr = some p) (now : UInt64) :
    Succeeds (switchOut c p now s) (LockInv c) := by
  unfold switchOut
  rw [bind_ok (spinlockUnlock_held hlocks (h.held p hcurr))]
  have hrq : Free (setLock s (.proc p) ⟨0, 0⟩) .runqueue := by
    rw [Free, setLock_lock_of_ne _ (by simp)]
    exact h.runqueue
  have hlive : ∀ q, Live (resumeScheduler s.sched p now) q → Live s.sched q := fun q hq =>
    h.base.live_of_resumeScheduler hcurr hq
  refine ⟨_, withRunqueue_free hlocks hrq _, ⟨⟨h.base.resumeScheduler hcurr now, ?_, ?_⟩, ?_, ?_,
    fun q hq => h.user q (hlive q hq)⟩⟩
  · intro q hq _
    rw [Free, setLock_lock_of_ne _ (by simp)]
    by_cases hqp : q = p
    · subst hqp
      exact congrArg Spinlock.locked (setLock_lock_self _)
    · have hne : Lock.proc q ≠ Lock.proc p := fun heq => hqp (Lock.proc.inj heq)
      refine (congrArg Spinlock.locked (setLock_lock_of_ne _ hne)).trans (h.free q (hlive q hq) ?_)
      rw [hcurr]
      exact fun heq => hqp (Option.some.inj heq).symm
  · rw [Free, setLock_lock_self]
  · intro q hq
    cases hq
  · rw [Free, setLock_lock_of_ne _ (by simp)]
    exact (congrArg Spinlock.locked (setLock_lock_of_ne _ (by simp))).trans h.serial

/-- A write to the memory of a freed process. -/
theorem LockInv.reuse (h : LockInv c s) (hp : ¬ Live s.sched p) (proc : Process) (lock : Spinlock)
    (exitStatus : Int32) :
    LockInv c { s with
      sched := s.sched.setProc p fun _ => proc
      lock := Function.update s.lock (.proc p) lock
      exitStatus := Function.update s.exitStatus p exitStatus } := by
  have hne : ∀ q, Live s.sched q → Lock.proc q ≠ Lock.proc p := by
    rintro q hq heq
    cases heq
    exact hp hq
  have hlock : ∀ l, l ≠ .proc p → Function.update s.lock (.proc p) lock l = s.lock l :=
    fun l hl => Function.update_of_ne hl _ _
  refine ⟨⟨h.base.reuse hp proc, fun q hq hqcurr => ?_, ?_⟩, fun q hq => ?_, ?_, h.user⟩
  · exact (congrArg Spinlock.locked (hlock _ (hne q hq))).trans (h.free q hq hqcurr)
  · exact (congrArg Spinlock.locked (hlock _ (by simp))).trans h.runqueue
  · exact (congrArg (thisCpuHoldingLock c) (hlock _ (hne q (h.base.curr q hq)))).trans (h.held q hq)
  · exact (congrArg Spinlock.locked (hlock _ (by simp))).trans h.serial

/-- No process is inside a system call. -/
theorem LockInv.inCall_eq (h : LockInv c s) : inCall s = none := by
  cases hp : inCall s with
  | none => rfl
  | some p =>
    obtain ⟨hexec, hcall⟩ := Option.filter_eq_some_iff.mp hp
    obtain ⟨hcurr, -⟩ := Option.filter_eq_some_iff.mp hexec
    exact absurd (h.user p (h.base.curr p hcurr)) (by simpa using hcall)

/-- A step that does not block keeps the invariant, unless the process table is full. -/
theorem blockStep_keeps (hlocks : c.locks = true) (h : LockInv c s) (ha : ¬ Blocks s a)
    {o : Outcome} (hs : blockStep c s a = some o) :
    Succeeds o (LockInv c) ∨ o = .error (.panic "hit process limit - 1") := by
  cases blockStep_cases hs with
  | timer user => exact Or.inl (timerTick_keeps h _)
  | yield user => exact absurd (Option.isSome_of_eq_some user) ha
  | sleep user => exact absurd (Option.isSome_of_eq_some user) ha
  | wait user => exact absurd (Option.isSome_of_eq_some user) ha
  | @serialRead p len now user =>
    refine Or.inl (serialReadOp_keeps hlocks h ?_ p now)
    by_contra hwait
    obtain ⟨hlen, hempty⟩ := not_or.mp hwait
    exact ha ⟨Option.isSome_of_eq_some user, hlen, not_not.mp hempty⟩
  | exit user => exact Or.inl (procExit_keeps hlocks h (inUser_eq user).1 _)
  | spawn fresh user =>
    exact (spawn_keeps hlocks h fresh).imp_left fun hnew => hnew.imp fun _ hinv => hinv.1
  | goOn call =>
    rw [h.inCall_eq] at call
    cases call
  | switchIn free live runnable => exact Or.inl (switchIn_keeps hlocks h free live _)
  | switchOut curr back => exact Or.inl (switchOut_keeps hlocks h curr _)
  | idle free empty =>
    exact Or.inl ((withRunqueue_quiet hlocks h.runqueue (calm_idleTurn h.base free)).imp
      fun _ hquiet => h.quiet hquiet)
  | serialIrq enabled => exact Or.inl (serialIrqHandler_keeps hlocks h)
  | reuse fresh => exact Or.inl (Succeeds.ok (h.reuse fresh _ _ _))

/-! ### Runs -/

/-- One step that succeeds, or `none`. -/
def lockStep (c : LockConfig) (s : BlockState) (a : BlockAct) : Option BlockState :=
  (blockStep c s a).bind Except.toOption

/-- The panics about locks. -/
def lockPanics : List String :=
  ["deadlock", "cpu not holding lock", "proc should be locked", "scheduler_switch_back: not locked"]

/-- The step does not end in a panic about locks. -/
def NoLockPanic (c : LockConfig) (s : BlockState) (a : BlockAct) : Prop :=
  ∀ msg ∈ lockPanics, blockStep c s a ≠ some (.error (.panic msg))

/-- The machine before `userspace_init`: there is no process, and the locks are free. -/
structure AtBoot (s : BlockState) : Prop where
  table : EmptyTable s.sched
  curr : s.sched.rq.curr = none
  runqueue : Free s .runqueue
  serial : Free s .serial

theorem AtBoot.not_live (h : AtBoot s) (p : ProcPtr) : ¬ Live s.sched p := by
  rintro ⟨i, -, hp⟩
  rw [h.table.processes] at hp
  cases hp

theorem AtBoot.inv (h : AtBoot s) : LockInv c s where
  base := by
    refine ⟨⟨fun i => ?_, fun i q hq => ?_, ?_⟩, ?_, fun q hq => ?_,
      fun q hq => absurd hq (h.not_live q)⟩
    · rw [h.table.processes, h.table.processCount]
      simp
    · rw [h.table.processes] at hq
      cases hq
    · rw [h.table.processCount]
      exact Nat.zero_le _
    · rw [h.table.processMinIndex]
      exact Nat.zero_le _
    · rw [h.curr] at hq
      cases hq
  free q hq := absurd hq (h.not_live q)
  runqueue := h.runqueue
  held p hcurr := by
    rw [h.curr] at hcurr
    cases hcurr
  serial := h.serial
  user q hq := absurd hq (h.not_live q)

/-- `userspace_init` makes two processes. -/
theorem AtBoot.userspaceInit (hlocks : c.locks = true) (h : AtBoot s) (hpq : p ≠ q)
    (hinit : userspaceInit c p q s = .ok s') : LockInv c s' := by
  obtain ⟨s₁, hfirst, hsecond⟩ := bind_eq_ok.mp hinit
  have hspawn : ∀ {p t t'}, LockInv c t → ¬ Live t.sched p → spawn c p t = .ok t' →
      LockInv c t' ∧ ∀ q, Live t'.sched q → q = p ∨ Live t.sched q := by
    intro p t t' hinv hp hok
    rcases spawn_keeps hlocks hinv hp with ⟨t₁, ht₁, hnew⟩ | hfull
    · cases hok.symm.trans ht₁
      exact hnew
    · cases hok.symm.trans hfull
  obtain ⟨hinv, hlive⟩ := hspawn h.inv (h.not_live p) hfirst
  refine (hspawn hinv (fun hq => ?_) hsecond).1
  exact (hlive q hq).elim hpq.symm (h.not_live q)

/-- A step that succeeds and does not block keeps the invariant. -/
theorem lockStep_keeps (hlocks : c.locks = true) (h : LockInv c s) (ha : ¬ Blocks s a)
    (hs : lockStep c s a = some s') : LockInv c s' := by
  obtain ⟨o, ho, hok⟩ := Option.bind_eq_some_iff.mp hs
  rcases blockStep_keeps hlocks h ha ho with ⟨s₁, rfl, hinv⟩ | rfl
  · cases hok
    exact hinv
  · cases hok

/-- The steps that panic because of a lock are those that block. -/
theorem noLockPanic_iff (hlocks : c.locks = true) (h : LockInv c s) (a : BlockAct) :
    NoLockPanic c s a ↔ ¬ Blocks s a := by
  constructor
  · intro hpanic ha
    exact hpanic "deadlock" (by decide) (blockStep_blocks hlocks h ha)
  · intro ha msg hmsg hs
    rcases blockStep_keeps hlocks h ha hs with ⟨s', hok, -⟩ | hfull
    · cases hok
    · cases hfull
      exact absurd hmsg (by decide)

/-- With spinlocks enabled, the lock of each process is held exactly while the process is
switched in, and no step panics because of a lock, exactly in the runs without a call that
blocks. -/
theorem process_locks_iff (hlocks : c.locks = true) {s₀ : BlockState} (hboot : AtBoot s₀)
    (hpq : p ≠ q) (hinit : userspaceInit c p q s₀ = .ok s) (acts : List BlockAct) :
    (Throughout (lockStep c) s acts (Disciplined c) ∧
      EachCall (lockStep c) s acts (NoLockPanic c)) ↔
    EachCall (lockStep c) s acts fun s a => ¬ Blocks s a := by
  have hinv : LockInv c s := hboot.userspaceInit hlocks hpq hinit
  have hcalls : EachCall (lockStep c) s acts (NoLockPanic c) ↔
      EachCall (lockStep c) s acts fun s a => ¬ Blocks s a :=
    eachCall_congr (fun _ _ _ h ha hs => lockStep_keeps hlocks h ha hs)
      (fun _ a h => noLockPanic_iff hlocks h a) hinv
  constructor
  · rintro ⟨-, hpanic⟩
    exact hcalls.mp hpanic
  · intro hfree
    have hall : Throughout (lockStep c) s acts (LockInv c) :=
      throughout_of_invariant (fun _ _ _ h ha hs _ => lockStep_keeps hlocks h ha hs) hinv hfree
        fun _ _ _ _ => trivial
    exact ⟨hall.mono fun _ => LockInv.disciplined, hcalls.mpr hfree⟩

/-- One CPU with spinlocks enabled. -/
def bootCpu : LockConfig where
  cpu := 0
  addr := fun
    | .proc p => UInt64.ofNat p
    | .runqueue => 100
    | .serial => 101
  locks := true

/-- A machine before `userspace_init`. -/
def bootState : BlockState where
  sched := emptyMachine.sched
  lock := fun _ => ⟨0, 0⟩
  exitStatus := fun _ => 0
  resume := fun _ => .user
  ret := fun _ => 0
  nextPid := 1
  readIndex := 0
  writeIndex := 0

theorem bootState_atBoot : AtBoot bootState :=
  ⟨⟨fun _ => rfl, rfl, rfl⟩, rfl, rfl, rfl⟩

/-- The first process is preempted, and the second one exits. -/
def twoTurns : List BlockAct :=
  [.switchIn 1 10, .timer 20000, .switchOut 20010, .switchIn 2 20020, .exit 3, .switchOut 20030]

theorem process_locks_iff_twoTurns : ∃ s, userspaceInit bootCpu 1 2 bootState = .ok s ∧
    (runSteps (lockStep bootCpu) s twoTurns).isSome ∧
    Throughout (lockStep bootCpu) s twoTurns (Disciplined bootCpu) ∧
    EachCall (lockStep bootCpu) s twoTurns (NoLockPanic bootCpu) := by
  have hrun : (userspaceInit bootCpu 1 2 bootState).toOption.any
      fun s => (runSteps (lockStep bootCpu) s twoTurns).isSome := by decide +kernel
  obtain ⟨s, hs, hturns⟩ := (Option.any_eq_true _ _).mp hrun
  have hinit := eq_ok_of_toOption hs
  have hlaw := process_locks_iff rfl bootState_atBoot (show 1 ≠ 2 by decide) hinit twoTurns
  obtain ⟨hheld, hpanic⟩ := hlaw.mpr fun front a t hfront _ => by
    have hmem : a ∈ twoTurns := hfront.subset (by simp)
    simp only [twoTurns, List.mem_cons, List.not_mem_nil, or_false] at hmem
    rcases hmem with rfl | rfl | rfl | rfl | rfl | rfl <;> exact id
  exact ⟨s, hinit, hturns, hheld, hpanic⟩

/-- The first process of the machine calls `scheduler_yield`. -/
theorem yield_deadlocks : ∃ s, userspaceInit bootCpu 1 2 bootState = .ok s ∧
    ¬ EachCall (lockStep bootCpu) s [.switchIn 1 10, .yield] (NoLockPanic bootCpu) := by
  have hrun : (userspaceInit bootCpu 1 2 bootState).toOption.any fun s =>
      (lockStep bootCpu s (.switchIn 1 10)).any fun t => (inUser t).isSome := by decide +kernel
  obtain ⟨s, hs, hswitch⟩ := (Option.any_eq_true _ _).mp hrun
  obtain ⟨t, ht, huser⟩ := (Option.any_eq_true _ _).mp hswitch
  have hinit := eq_ok_of_toOption hs
  have hinv : LockInv bootCpu s := bootState_atBoot.userspaceInit rfl (by decide) hinit
  have hinv' : LockInv bootCpu t := lockStep_keeps rfl hinv id ht
  refine ⟨s, hinit, fun hpanic => ?_⟩
  refine (noLockPanic_iff rfl hinv' .yield).mp ?_ huser
  refine hpanic [.switchIn 1 10] .yield t (List.prefix_refl _) ?_
  rw [runSteps_cons ht]
  rfl

end DzOS.Proofs.Sched.ProcessLocks
