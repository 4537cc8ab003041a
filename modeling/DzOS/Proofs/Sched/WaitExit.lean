import DzOS.Proofs.Sched.ProcessLocks

/-!
# `DzOS.Proofs.Sched.WaitExit`: what `proc_wait` sees of an exit

`proc_exit` wakes the waiters, and only then the process becomes `EXITED`. When it comes back to
the scheduler it leaves the table, before anyone else runs. So a waiter that goes on never finds
an `EXITED` process: its record has been freed, and may belong to somebody else by then. Waiters
see the exits of a run exactly when no waiter goes on in it (`wait_observes_exit_iff`).

`Hushed` describes kernel code that puts nobody to sleep and leaves the table alone, and
`CalmResult` all calls that leave the table alone. The proof needs nothing but `Base`, which every
step keeps (`blockStep_base`). This holds with locks and without them. With locks there is no such
waiter, since `proc_wait` panics.
-/

set_option autoImplicit false

namespace DzOS.Proofs.Sched.WaitExit

open DzOS.Lib DzOS.Sched DzOS.Proofs.Sched DzOS.Proofs.Sched.Blocking
open DzOS.Proofs.Sched.StackSlots DzOS.Proofs.Sched.ProcessLocks

variable {o : Outcome} {f : SchedState → SchedState} {c : LockConfig} {s s' s'' : BlockState}
  {p q : ProcPtr} {l : Lock} {now : UInt64}

/-! ### Kernel code that puts nobody to sleep -/

/-- The table and the serial buffer are the same, every process goes on where it did, and who sleeps
in `s'` slept in `s`. -/
structure Hushed (s s' : BlockState) : Prop where
  calm : Calm s.sched s'.sched
  wakes : Wakes s.sched s'.sched
  resume : s'.resume = s.resume
  readIndex : s'.readIndex = s.readIndex
  writeIndex : s'.writeIndex = s.writeIndex

theorem Hushed.refl (s : BlockState) : Hushed s s := ⟨Calm.refl _, Wakes.refl _, rfl, rfl, rfl⟩

theorem Hushed.trans (h : Hushed s s') (h' : Hushed s' s'') : Hushed s s'' where
  calm := h.calm.trans h'.calm
  wakes := h.wakes.trans h'.wakes
  resume := h'.resume.trans h.resume
  readIndex := h'.readIndex.trans h.readIndex
  writeIndex := h'.writeIndex.trans h.writeIndex

/-- A process that is awake stays so. -/
theorem Hushed.awake (h : Hushed s s') (hp : (s.sched.procs p).state ≠ .SLEEPING) :
    (s'.sched.procs p).state ≠ .SLEEPING := fun hsleeps => hp (h.wakes p hsleeps).1

theorem hushed_mapSched (hcalm : Calm s.sched (f s.sched)) (hwakes : Wakes s.sched (f s.sched)) :
    Hushed s (s.mapSched f) :=
  ⟨hcalm, hwakes, rfl, rfl, rfl⟩

/-- Every result is like that. -/
def HushedResult (s : BlockState) (o : Outcome) : Prop := Ensures o (Hushed s)

theorem HushedResult.bind {f : BlockState → Outcome} (h : HushedResult s o)
    (hf : ∀ t, HushedResult t (f t)) : HushedResult s (o >>= f) :=
  Ensures.bind h fun t ht => (hf t).imp fun _ h' => ht.trans h'

theorem hushed_lock (l : Lock) (s : BlockState) : HushedResult s (spinlockLock c l s) := by
  unfold spinlockLock
  refine Ensures.ite (fun _ => Ensures.ok (Hushed.refl s)) fun _ => ?_
  refine Ensures.ite (fun _ => Ensures.error) fun _ => ?_
  exact Ensures.ite (fun _ => Ensures.error) fun _ =>
    Ensures.ok ⟨Calm.refl _, Wakes.refl _, rfl, rfl, rfl⟩

theorem hushed_unlock (l : Lock) (s : BlockState) : HushedResult s (spinlockUnlock c l s) := by
  unfold spinlockUnlock
  refine Ensures.ite (fun _ => Ensures.ok (Hushed.refl s)) fun _ => ?_
  exact Ensures.ite (fun _ => Ensures.error) fun _ =>
    Ensures.ok ⟨Calm.refl _, Wakes.refl _, rfl, rfl, rfl⟩

theorem hushed_switchBack (p : ProcPtr) (s : BlockState) :
    HushedResult s (schedulerSwitchBack c p s) := by
  unfold schedulerSwitchBack
  refine Ensures.ite (fun _ => Ensures.error) fun _ => ?_
  exact Ensures.ite (fun _ => Ensures.error) fun _ => Ensures.ok (Hushed.refl s)

/-- An operation of the run queue, with what the locks around it do. -/
theorem withRunqueue_hushed (f : SchedState → SchedState) (s : BlockState) :
    Ensures (withRunqueue c f s) fun s' => ∃ t, Hushed s t ∧ Hushed (t.mapSched f) s' :=
  Ensures.bind (hushed_lock .runqueue s) fun t ht =>
    (hushed_unlock .runqueue (t.mapSched f)).imp fun _ h => ⟨t, ht, h⟩

theorem hushed_withRunqueue (hcalm : ∀ t, Calm t (f t)) (hwakes : ∀ t, Wakes t (f t))
    (s : BlockState) : HushedResult s (withRunqueue c f s) :=
  (withRunqueue_hushed f s).imp fun _ ⟨_, ht, h⟩ =>
    (ht.trans (hushed_mapSched (hcalm _) (hwakes _))).trans h

/-- A process that was switched in goes on in `condvar_wait`. -/
theorem condvarResume_hushed (p : ProcPtr) (l : Lock) (s : BlockState) :
    HushedResult s (condvarResume c p l s) :=
  (hushed_unlock (.proc p) s).bind fun s => hushed_lock l s

theorem timerTick_hushed (now : UInt64) (s : BlockState) : HushedResult s (timerTick c now s) := by
  have htick : Hushed s (s.mapSched fun sched => schedulerTick sched now) :=
    hushed_mapSched (calm_schedulerTick _ now) (wakes_schedulerTick _ now)
  unfold timerTick
  simp only
  split
  · exact Ensures.ok htick
  · refine Ensures.ite (fun _ => Ensures.ok htick) fun _ => ?_
    exact (hushed_switchBack _ _).imp fun _ h => htick.trans h

theorem hushed_runnable (p : ProcPtr) (s : BlockState) :
    Hushed s (s.mapSched fun sched => sched.setState p .RUNNABLE) :=
  hushed_mapSched (calm_setState _ p (by decide)) (wakes_setState _ p (by decide))

theorem schedulerYield_hushed (p : ProcPtr) (s : BlockState) :
    HushedResult s (schedulerYield c p s) :=
  (hushed_lock (.proc p) s).bind fun t =>
    (hushed_switchBack p _).imp fun _ h => (hushed_runnable p t).trans h

theorem findPidFrom_hushed (targetPid : UInt64) (left i : Nat) (s : BlockState) :
    Ensures (findPidFrom c targetPid left i s) fun r => Hushed s r.2 := by
  induction left generalizing i s with
  | zero => exact Ensures.ok (Hushed.refl s)
  | succ left ih =>
    unfold findPidFrom
    split
    · exact ih (i + 1) s
    · refine Ensures.bind (hushed_lock _ s) fun t ht => ?_
      refine Ensures.ite (fun _ => Ensures.ok ht) fun _ => ?_
      exact Ensures.bind (hushed_unlock _ t) fun u hu =>
        (ih (i + 1) u).imp fun _ h => (ht.trans hu).trans h

/-! ### Calls that leave the table alone -/

/-- Every result has the table of `s`. -/
def CalmResult (s : BlockState) (o : Outcome) : Prop := Ensures o fun s' => Calm s.sched s'.sched

theorem CalmResult.ok (h : Calm s.sched s'.sched) : CalmResult s (.ok s') := Ensures.ok h

theorem HushedResult.calm (h : HushedResult s o) : CalmResult s o :=
  h.imp fun _ h => h.calm

/-- A sequence of two calls that leave the table alone. -/
theorem CalmResult.bind {f : BlockState → Outcome} (h : CalmResult s o)
    (hf : ∀ t, CalmResult t (f t)) : CalmResult s (o >>= f) :=
  Ensures.bind h fun t ht => (hf t).imp fun _ h' => ht.trans h'

/-- The operation of the run queue is all that happens. -/
theorem withRunqueue_sched (f : SchedState → SchedState) :
    Ensures (withRunqueue c f s) fun s' => ∃ t, Calm s.sched t ∧ Calm (f t) s'.sched :=
  Ensures.bind (hushed_lock .runqueue s).calm fun t ht =>
    (hushed_unlock .runqueue (t.mapSched f)).calm.imp fun _ h => ⟨t.sched, ht, h⟩

theorem calmResult_withRunqueue (hf : ∀ t, Calm t (f t)) (s : BlockState) :
    CalmResult s (withRunqueue c f s) :=
  (withRunqueue_sched f).imp fun _ ⟨t, ht, h⟩ => (ht.trans (hf t)).trans h

theorem calmResult_wakeupFrom (waitingChannel : UInt64) (everyone : Bool) (left i : Nat)
    (s : BlockState) : CalmResult s (procWakeupFrom c waitingChannel everyone left i s) := by
  induction left generalizing i s with
  | zero => exact CalmResult.ok (Calm.refl _)
  | succ left ih =>
    unfold procWakeupFrom
    split
    · exact ih (i + 1) s
    · rename_i q _
      refine Ensures.ite (fun _ => ih (i + 1) s) fun _ => ?_
      refine (hushed_lock (.proc q) s).calm.bind fun s => ?_
      have hrest : ∀ (s : BlockState) (done : Bool), CalmResult s (do
          let s ← spinlockUnlock c (.proc q) s
          if done then .ok s
          else procWakeupFrom c waitingChannel everyone left (i + 1) s) := fun s done =>
        (hushed_unlock (.proc q) s).calm.bind fun s =>
          Ensures.ite (fun _ => CalmResult.ok (Calm.refl _)) fun _ => ih (i + 1) s
      exact Ensures.ite (fun _ => (calmResult_withRunqueue (fun t => calm_schedWakeup t q) s).bind
        fun s => hrest s _) fun _ => hrest s _

theorem calmResult_notifyAll (l : Lock) (s : BlockState) :
    CalmResult s (condvarNotifyAll c l s) := calmResult_wakeupFrom _ true _ 0 s

/-- A process goes to sleep in `condvar_wait`. -/
theorem calmResult_condvarWait (p : ProcPtr) (l : Lock) (r : Resume) (now : UInt64)
    (s : BlockState) : CalmResult s (condvarWait c p l r now s) := by
  unfold condvarWait
  refine (hushed_lock (.proc p) s).calm.bind fun s => ?_
  refine (hushed_unlock l s).calm.bind fun s => ?_
  refine (calmResult_withRunqueue (fun t => calm_schedSleep t p (c.addr l) now) s).bind fun s => ?_
  exact (hushed_switchBack p (s.stopAt p r)).calm

/-- The process gives the CPU away and can run again. -/
theorem calmResult_runnable (p : ProcPtr) (f : BlockState → BlockState)
    (hf : ∀ s, (f s).sched = s.sched) (s : BlockState) :
    CalmResult s (schedulerSwitchBack c p
      (f (s.mapSched fun sched => sched.setState p .RUNNABLE))) := by
  refine (hushed_switchBack _ _).calm.imp fun _ h => Calm.trans ?_ h
  rw [hf]
  exact calm_setState s.sched p (by decide)

theorem calmResult_sleepLoop (p : ProcPtr) (targetEpochWakeup now : UInt64) (s : BlockState) :
    CalmResult s (sleepLoop c p targetEpochWakeup now s) := by
  unfold sleepLoop
  refine Ensures.ite (fun _ => ?_) fun _ => ?_
  · exact calmResult_runnable p (·.stopAt p (.sleep targetEpochWakeup)) (fun _ => rfl) s
  · exact (hushed_unlock (.proc p) s).calm.bind fun _ => CalmResult.ok (Calm.refl _)

theorem calmResult_sleep (p : ProcPtr) (msec now now' : UInt64) (s : BlockState) :
    CalmResult s (sysSleep c p msec now now' s) :=
  (hushed_lock (.proc p) s).calm.bind (calmResult_sleepLoop p _ now')

theorem calmResult_waitLoop (p target : ProcPtr) (now : UInt64) (s : BlockState) :
    CalmResult s (waitLoop c p target now s) := by
  unfold waitLoop
  refine Ensures.ite (fun _ => calmResult_condvarWait p _ _ now s) fun _ => ?_
  exact (hushed_unlock (.proc target) s).calm.bind fun _ => CalmResult.ok (Calm.refl _)

theorem calmResult_wait (p : ProcPtr) (targetPid now : UInt64) (s : BlockState) :
    CalmResult s (procWait c p targetPid now s) := by
  unfold procWait
  refine Ensures.bind (findPidFrom_hushed targetPid MAX_PROCESSES 0 s) fun r hr => ?_
  obtain ⟨target, t⟩ := r
  cases target with
  | none => exact CalmResult.ok hr.calm
  | some target => exact (calmResult_waitLoop p target now t).imp fun _ h => hr.calm.trans h

theorem calmResult_serialReadLoop (p : ProcPtr) (len : Nat) (now : UInt64) (s : BlockState) :
    CalmResult s (serialReadLoop c p len now s) := by
  unfold serialReadLoop
  refine Ensures.ite (fun _ => calmResult_condvarWait p _ _ now s) fun _ => ?_
  exact Ensures.bind (hushed_unlock .serial _).calm fun _ h => CalmResult.ok h

theorem calmResult_serialRead (p : ProcPtr) (len : Nat) (now : UInt64) (s : BlockState) :
    CalmResult s (serialReadOp c p len now s) := by
  unfold serialReadOp
  refine Ensures.ite (fun _ => CalmResult.ok (Calm.refl _)) fun _ => ?_
  exact (hushed_lock .serial s).calm.bind (calmResult_serialReadLoop p len now)

theorem calmResult_serialIrq (s : BlockState) : CalmResult s (serialIrqHandler c s) := by
  unfold serialIrqHandler
  refine (hushed_lock .serial s).calm.bind fun s => ?_
  refine Ensures.ite (fun _ => ?_) fun _ => (hushed_unlock .serial s).calm
  exact Ensures.bind (calmResult_notifyAll .serial _) fun t ht =>
    (hushed_unlock .serial t).calm.imp fun _ h => ht.trans h

theorem calmResult_continueCall (p : ProcPtr) (now : UInt64) (s : BlockState) :
    CalmResult s (continueCall c p now s) := by
  unfold continueCall
  split
  · exact CalmResult.ok (Calm.refl _)
  · exact calmResult_sleepLoop p _ now s
  · exact (condvarResume_hushed p _ s).calm.bind (calmResult_waitLoop p _ now)
  · exact (condvarResume_hushed p _ s).calm.bind (calmResult_serialReadLoop p _ now)

/-! ### The other steps -/

/-- Every result has the invariant. -/
def BaseResult (o : Outcome) : Prop := Ensures o fun s' => Base s'.sched

theorem CalmResult.base (h : CalmResult s o) (hbase : Base s.sched) :
    BaseResult o := h.imp fun _ hcalm => hbase.calm hcalm

section

variable (h : Base s.sched)

include h

theorem procExit_base (hcurr : s.sched.rq.curr = some p) (exitCode : Int32) :
    BaseResult (procExit c p exitCode s) := by
  unfold procExit
  refine Ensures.ite (fun _ => Ensures.error) fun _ => ?_
  refine Ensures.bind (calmResult_notifyAll (.proc p) _) fun t ht => ?_
  have hexit : Base (t.sched.setState p .EXITED) := (h.calm ht).exit (ht.curr.trans hcurr)
  exact (hushed_switchBack p _).calm.base hexit

theorem spawn_base (hp : ¬ Live s.sched p) :
    Ensures (spawn c p s) fun s' =>
      Base s'.sched ∧ ∀ q, Live s'.sched q → q = p ∨ Live s.sched q := by
  rcases spawn_cases h p with hspawn | hspawn | ⟨hroom, hspawn⟩
  · rw [hspawn]
    exact Ensures.ok ⟨h, fun _ hq => Or.inr hq⟩
  · rw [hspawn]
    exact Ensures.error
  · rw [hspawn]
    refine (calmResult_withRunqueue (fun t => calm_schedWakeup t p) _).imp fun _ hcalm => ?_
    exact ⟨(h.allocated hp hroom).calm hcalm,
      fun q hq => (live_allocated h hp hroom q).mp ((hcalm.live q).mp hq)⟩

theorem switchIn_base (hcurr : s.sched.rq.curr = none) (hp : Live s.sched p) (now : UInt64) :
    BaseResult (switchIn c p now s) := by
  unfold switchIn
  refine Ensures.bind (withRunqueue_sched _) fun u ⟨t, ht, hu⟩ => ?_
  have hbase := (h.calm ht).switchTo (ht.curr.trans hcurr) ((ht.live p).mpr hp) now
  exact (hushed_lock (.proc p) u).calm.base (hbase.calm hu)

theorem switchOut_base (hcurr : s.sched.rq.curr = some p) (now : UInt64) :
    BaseResult (switchOut c p now s) := by
  unfold switchOut
  refine Ensures.bind (hushed_unlock (.proc p) s).calm fun v hv => ?_
  refine (withRunqueue_sched _).imp fun u ⟨t, ht, hu⟩ => ?_
  have hcalm := hv.trans ht
  exact ((h.calm hcalm).resumeScheduler (hcalm.curr.trans hcurr) now).calm hu

theorem idle_base (hcurr : s.sched.rq.curr = none) : BaseResult (withRunqueue c idleTurn s) :=
  (withRunqueue_sched _).imp fun _ ⟨_, ht, hu⟩ =>
    (h.calm ht).calm ((calm_idleTurn (h.calm ht) (ht.curr.trans hcurr)).trans hu)

/-- Every step keeps the invariant. -/
theorem blockStep_base {a : BlockAct} (hs : blockStep c s a = some o) : BaseResult o := by
  cases blockStep_cases hs with
  | timer user => exact (timerTick_hushed _ s).calm.base h
  | yield user => exact (schedulerYield_hushed _ s).calm.base h
  | sleep user => exact (calmResult_sleep _ _ _ _ s).base h
  | wait user => exact (calmResult_wait _ _ _ s).base h
  | serialRead user => exact (calmResult_serialRead _ _ _ s).base h
  | exit user => exact procExit_base h (inUser_eq user).1 _
  | spawn fresh user => exact (spawn_base h fresh).imp fun _ hnew => hnew.1
  | goOn call => exact (calmResult_continueCall _ _ s).base h
  | switchIn free live runnable => exact switchIn_base h free live _
  | switchOut curr back => exact switchOut_base h curr _
  | idle free empty => exact idle_base h free
  | serialIrq enabled => exact (calmResult_serialIrq s).base h
  | reuse fresh => exact Ensures.ok (h.reuse fresh _)

end

/-! ### Runs -/

/-- `userspace_init` makes two processes. -/
theorem AtBoot.base {s₀ : BlockState} (hboot : AtBoot s₀) (hpq : p ≠ q)
    (hinit : userspaceInit c p q s₀ = .ok s) : Base s.sched := by
  have hstart : Base s₀.sched := (ProcessLocks.AtBoot.inv (c := c) hboot).base
  obtain ⟨s₁, hfirst, hsecond⟩ := bind_eq_ok.mp hinit
  obtain ⟨hbase, hlive⟩ := spawn_base hstart (hboot.not_live p) s₁ hfirst
  refine (spawn_base hbase (fun hq => ?_) s hsecond).1
  exact (hlive q hq).elim hpq.symm (hboot.not_live q)

/-- The invariant holds after every run. -/
theorem runSteps_base (h : Base s.sched) {acts : List BlockAct}
    (hrun : runSteps (lockStep c) s acts = some s') : Base s'.sched := by
  have hkeep : ∀ s a s', Base s.sched → True → lockStep c s a = some s' → True → Base s'.sched := by
    intro s a s' hs _ hstep _
    obtain ⟨o, ho, hok⟩ := Option.bind_eq_some_iff.mp hstep
    exact blockStep_base hs ho s' (eq_ok_of_toOption hok)
  have hall : Throughout (lockStep c) s acts fun s => Base s.sched :=
    throughout_of_invariant hkeep h (fun _ _ _ _ _ => trivial) fun _ _ _ _ => trivial
  exact hall acts s' (List.prefix_refl _) hrun

/-- The process `p` waits in `proc_wait` for the process at `q`. -/
def WaitsFor (s : BlockState) (p q : ProcPtr) : Prop := Live s.sched p ∧ s.resume p = .wait q

instance (s : BlockState) (p q : ProcPtr) : Decidable (WaitsFor s p q) :=
  inferInstanceAs (Decidable (_ ∧ _))

/-- The record at `q` is the one of a process that has exited with this code. -/
def ShowsExit (s : BlockState) (q : ProcPtr) (exitCode : Int32) : Prop :=
  Live s.sched q ∧ (s.sched.procs q).state = .EXITED ∧ s.exitStatus q = exitCode

instance (s : BlockState) (q : ProcPtr) (exitCode : Int32) : Decidable (ShowsExit s q exitCode) :=
  inferInstanceAs (Decidable (_ ∧ _ ∧ _))

/-- In the run, `p` waits for `q` when `q` exits with this code, and later goes on in `u`. -/
def Rechecks (c : LockConfig) (s : BlockState) (acts : List BlockAct) (p q : ProcPtr)
    (exitCode : Int32) (u : BlockState) : Prop :=
  ∃ front later now t, front ++ .exit exitCode :: (later ++ [.goOn now]) <+: acts ∧
    runSteps (lockStep c) s front = some t ∧ WaitsFor t p q ∧ inUser t = some q ∧
    runSteps (lockStep c) t (.exit exitCode :: later) = some u ∧ inCall u = some p

/-- The process that goes on is the current one, and no other live process is `EXITED`. -/
theorem not_showsExit {u : BlockState} (h : Base u.sched) (hgo : inCall u = some p) (q : ProcPtr)
    (exitCode : Int32) : ¬ ShowsExit u q exitCode := by
  obtain ⟨hexec, -⟩ := Option.filter_eq_some_iff.mp hgo
  obtain ⟨hcurr, hrunning⟩ := Option.filter_eq_some_iff.mp hexec
  rintro ⟨hlive, hst, -⟩
  have hqp := h.exited q hlive hst
  rw [hcurr] at hqp
  cases hqp
  rw [hst] at hrunning
  exact absurd hrunning (by decide)

/-- A waiter that goes on after the exit sees it in no run. So every waiter does only in the runs
in which no waiter goes on. -/
theorem wait_observes_exit_iff {s₀ : BlockState} (hboot : AtBoot s₀) (hpq : p ≠ q)
    (hinit : userspaceInit c p q s₀ = .ok s) (acts : List BlockAct) :
    (∀ p q exitCode u, Rechecks c s acts p q exitCode u → ShowsExit u q exitCode) ↔
      ∀ p q exitCode u, ¬ Rechecks c s acts p q exitCode u := by
  have hbase : Base s.sched := AtBoot.base hboot hpq hinit
  constructor
  · intro hshows p q exitCode u hcheck
    have hexit := hshows p q exitCode u hcheck
    obtain ⟨front, later, now, t, -, hfront, -, -, hlater, hgo⟩ := hcheck
    exact not_showsExit (runSteps_base (runSteps_base hbase hfront) hlater) hgo q exitCode hexit
  · intro hnone p q exitCode u hcheck
    exact absurd hcheck (hnone p q exitCode u)

/-- One CPU, without the locks. -/
def freeCpu : LockConfig := { bootCpu with locks := false }

/-- The first process waits for the second one, which exits. -/
def waitAndExit : List BlockAct :=
  [.switchIn 1 10, .wait 2 20, .switchOut 30, .switchIn 2 40, .exit 7, .switchOut 50,
    .switchIn 1 60,
    .goOn 70]

/-- In this run the first process goes on after the exit of the second one, which it does not
see. Its next step takes it back to sleep, on the freed record. -/
theorem waitAndExit_rechecks : ∃ s u, userspaceInit freeCpu 1 2 bootState = .ok s ∧
    Rechecks freeCpu s waitAndExit 1 2 7 u ∧ ¬ ShowsExit u 2 7 ∧
    (lockStep freeCpu u (.goOn 70)).any fun v =>
      decide (v.resume 1 = .wait 2 ∧ (v.sched.procs 1).state = .SLEEPING ∧
        ¬ Live v.sched 2) := by
  have hrun : (userspaceInit freeCpu 1 2 bootState).toOption.any fun s =>
      (runSteps (lockStep freeCpu) s (waitAndExit.take 4)).any fun t =>
        decide (WaitsFor t 1 2 ∧ inUser t = some 2) &&
        (runSteps (lockStep freeCpu) t [.exit 7, .switchOut 50, .switchIn 1 60]).any fun u =>
          decide (inCall u = some 1 ∧ ¬ ShowsExit u 2 7) &&
          (lockStep freeCpu u (.goOn 70)).any fun v =>
            decide (v.resume 1 = .wait 2 ∧ (v.sched.procs 1).state = .SLEEPING ∧
              ¬ Live v.sched 2) := by decide +kernel
  obtain ⟨s, hs, hrun⟩ := (Option.any_eq_true _ _).mp hrun
  obtain ⟨t, ht, hrun⟩ := (Option.any_eq_true _ _).mp hrun
  obtain ⟨hwaits, hrun⟩ := Bool.and_eq_true_iff.mp hrun
  obtain ⟨u, hu, hrun⟩ := (Option.any_eq_true _ _).mp hrun
  obtain ⟨hgo, hlast⟩ := Bool.and_eq_true_iff.mp hrun
  obtain ⟨hwaits, hexit⟩ := of_decide_eq_true hwaits
  obtain ⟨hgo, hmissed⟩ := of_decide_eq_true hgo
  refine ⟨s, u, eq_ok_of_toOption hs, ?_, hmissed, hlast⟩
  exact ⟨waitAndExit.take 4, [.switchOut 50, .switchIn 1 60], 70, t, List.prefix_refl _, ht, hwaits,
    hexit, hu, hgo⟩

/-- Since the waiter goes on in this run, not every waiter of it sees the exit. -/
theorem wait_observes_exit_iff_waitAndExit : ∃ s, userspaceInit freeCpu 1 2 bootState = .ok s ∧
    ¬ ∀ p q exitCode u, Rechecks freeCpu s waitAndExit p q exitCode u →
      ShowsExit u q exitCode := by
  obtain ⟨s, u, hinit, hcheck, -, -⟩ := waitAndExit_rechecks
  have hlaw := wait_observes_exit_iff bootState_atBoot (show 1 ≠ 2 by decide) hinit waitAndExit
  exact ⟨s, hinit, fun hshows => hlaw.mp hshows 1 2 7 u hcheck⟩

/-- The waiter goes on, and sleeps again on the freed record. -/
theorem wait_sleeps_again : ∃ s u v, userspaceInit freeCpu 1 2 bootState = .ok s ∧
    Rechecks freeCpu s waitAndExit 1 2 7 u ∧ ¬ ShowsExit u 2 7 ∧
    lockStep freeCpu u (.goOn 70) = some v ∧ v.resume 1 = .wait 2 ∧
    (v.sched.procs 1).state = .SLEEPING ∧ ¬ Live v.sched 2 := by
  obtain ⟨s, u, hinit, hcheck, hmissed, hlast⟩ := waitAndExit_rechecks
  obtain ⟨v, hv, hend⟩ := (Option.any_eq_true _ _).mp hlast
  exact ⟨s, u, v, hinit, hcheck, hmissed, hv, of_decide_eq_true hend⟩

end DzOS.Proofs.Sched.WaitExit
