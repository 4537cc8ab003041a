import DzOS.Proofs.Sched.ProcessTable
import DzOS.Proofs.Sched.RunQueue

/-!
# `DzOS.Proofs.Sched.Machine`: the scheduler with the allocation of processes

`MachineInv` is the invariant of the run queue together with that of the process table. The steps
of the scheduler keep it, but for `sched_sleep`, and so does `proc_allocate`
(`machineStep_inv`). The new part is the search hint of the table. `Counters` says that an
operation leaves the hint, the process count and `min_vruntime` alone, which all operations do but
the removal of a process and `sched_update_vruntime`.

`minVruntime_step` is a fact about every step. `sched_update_vruntime` only lowers
`min_vruntime`, so it is 0 for ever.
-/

set_option autoImplicit false

namespace DzOS.Proofs.Sched.Machine

open DzOS.Lib DzOS.Sched DzOS.Proofs.Sched.ProcessTable DzOS.Proofs.Sched.StackSlots

variable {a : Act} {now : UInt64} {q : Nat → List ProcPtr}

/-- The process is in the run queue. -/
def Enqueued (s : SchedState) (x : ProcPtr) : Prop :=
  Live s x ∧ (s.se x).inRunqueue ≠ 0

instance (s : SchedState) (x : ProcPtr) : Decidable (Enqueued s x) :=
  inferInstanceAs (Decidable (_ ∧ _))

/-! ### What the operations leave alone -/

/-- The counters of the table and `min_vruntime` are the same. -/
structure Counters (s s' : SchedState) : Prop where
  count : s'.processCount = s.processCount
  hint : s'.processMinIndex = s.processMinIndex
  minVruntime : s'.rq.minVruntime = s.rq.minVruntime

theorem Counters.refl (s : SchedState) : Counters s s := ⟨rfl, rfl, rfl⟩

theorem Counters.trans {s s' s'' : SchedState} (h : Counters s s') (h' : Counters s' s'') :
    Counters s s'' :=
  ⟨h'.count.trans h.count, h'.hint.trans h.hint, h'.minVruntime.trans h.minVruntime⟩

section
variable (s : SchedState) (k : Nat) (p : ProcPtr)

theorem counters_setProc (f : Process → Process) : Counters s (s.setProc p f) := ⟨rfl, rfl, rfl⟩

theorem counters_setSe (f : SchedEntity → SchedEntity) : Counters s (s.setSe p f) :=
  counters_setProc s p _

theorem counters_linkTail : Counters s (linkTail s k p) := by
  unfold linkTail
  split
  · exact counters_setSe ..
  · exact ⟨rfl, rfl, rfl⟩

theorem counters_unlinkLeft : Counters s (unlinkLeft s k p) := by
  unfold unlinkLeft
  split
  · exact counters_setSe ..
  · exact ⟨rfl, rfl, rfl⟩

theorem counters_unlinkRight : Counters s (unlinkRight s k p) := by
  unfold unlinkRight
  split
  · exact counters_setSe ..
  · exact ⟨rfl, rfl, rfl⟩

theorem counters_schedEnqueue : Counters s (schedEnqueue s p) :=
  (counters_setSe ..).trans <| (counters_linkTail ..).trans ⟨rfl, rfl, rfl⟩

theorem counters_schedDequeue : Counters s (schedDequeue s p) := by
  unfold schedDequeue
  simp only
  split
  · exact Counters.refl s
  · exact (counters_unlinkLeft ..).trans <| (counters_unlinkRight ..).trans <|
      (counters_setSe ..).trans ⟨rfl, rfl, rfl⟩

theorem counters_schedWakeup : Counters s (schedWakeup s p) := by
  unfold schedWakeup
  split
  · exact Counters.refl s
  · exact (counters_setProc ..).trans (counters_schedEnqueue ..)

theorem counters_schedSleep (wchan now : UInt64) : Counters s (schedSleep s p wchan now) :=
  (counters_setSe ..).trans <| (counters_schedDequeue ..).trans <|
    (counters_setProc ..).trans (counters_setSe ..)

theorem counters_requeueIfQueued : Counters s (requeueIfQueued s p) := by
  unfold requeueIfQueued
  split
  · exact (counters_schedDequeue ..).trans (counters_schedEnqueue ..)
  · exact Counters.refl s

theorem counters_schedSetPriority (prio : UInt8) : Counters s (schedSetPriority s p prio) := by
  unfold schedSetPriority
  split
  · exact Counters.refl s
  · exact (counters_setSe ..).trans (counters_requeueIfQueued ..)

theorem counters_schedNice (nice : Int8) : Counters s (schedNice s p nice) :=
  (counters_setSe ..).trans (counters_requeueIfQueued ..)

theorem counters_schedulerPreempt : Counters s (schedulerPreempt s) := by
  unfold schedulerPreempt
  split
  · exact Counters.refl s
  · split
    · exact counters_setProc ..
    · exact Counters.refl s

theorem counters_switchTo (now : UInt64) : Counters s (switchTo s p now) := by
  have hdequeue := counters_schedDequeue s p
  exact ⟨hdequeue.count, hdequeue.hint, hdequeue.minVruntime⟩

theorem counters_rebuild : Counters s (rebuild s) := by
  have hslot : ∀ (t : SchedState) (i : Nat), Counters t (rebuildSlot t i) := by
    intro t i
    unfold rebuildSlot
    split
    · exact Counters.refl t
    · split
      · exact (counters_setSe ..).trans (counters_schedEnqueue ..)
      · exact Counters.refl t
  have hfold : ∀ (slots : List Nat) (t : SchedState), Counters t (slots.foldl rebuildSlot t) := by
    intro slots
    induction slots with
    | nil => exact Counters.refl
    | cons i slots ih =>
      intro t
      exact (hslot t i).trans (ih _)
  exact hfold _ s

/-- `sched_update_vruntime` leaves the table alone, and `min_vruntime` when it is 0. -/
theorem counters_schedUpdateVruntime (delta : UInt64) :
    (schedUpdateVruntime s p delta).processCount = s.processCount ∧
      (schedUpdateVruntime s p delta).processMinIndex = s.processMinIndex ∧
      (s.rq.minVruntime = 0 → (schedUpdateVruntime s p delta).rq.minVruntime = 0) := by
  unfold schedUpdateVruntime
  simp only
  split
  · rename_i hlt
    refine ⟨rfl, rfl, fun hzero => ?_⟩
    rw [setSe_rq, hzero] at hlt
    exact absurd hlt (Nat.not_lt_zero _)
  · exact ⟨rfl, rfl, id⟩

theorem coelesceFrom_rq (left j : Nat) : (coelesceFrom s left j).rq = s.rq := by
  induction left generalizing s j with
  | zero => rfl
  | succ left ih =>
    unfold coelesceFrom
    split
    · rfl
    · exact ih _ _

/-- The removal of a process leaves the run queue alone. -/
theorem reapProcess_rq (j : Nat) : (reapProcess s p j).rq = s.rq :=
  coelesceFrom_rq (clearSlot s p j) _ _

end

/-! ### `min_vruntime` -/

variable {s s' : SchedState} {p : ProcPtr}

theorem minVruntime_reclaimFrom (s : SchedState) (turns i : Nat) :
    (reclaimFrom s turns i).rq.minVruntime = s.rq.minVruntime := by
  refine reclaimFrom_induct (P := fun t => t.rq.minVruntime = s.rq.minVruntime) ?_ rfl turns i
  intro t i p ht _ _ _
  rw [reapProcess_rq, ht]

theorem minVruntime_schedulerTick (h : s.rq.minVruntime = 0) (now : UInt64) :
    (schedulerTick s now).rq.minVruntime = 0 :=
  schedulerTick_induct (P := fun t => t.rq.minVruntime = 0) h
    (fun p => (counters_schedUpdateVruntime s p _).2.2 h)
    fun t ht => (counters_schedulerPreempt t).minVruntime.trans ht

theorem minVruntime_resumeScheduler (h : s.rq.minVruntime = 0) (p : ProcPtr) (now : UInt64) :
    (resumeScheduler s p now).rq.minVruntime = 0 := by
  have hrun : (accountRun s p now).rq.minVruntime = 0 :=
    (counters_schedUpdateVruntime s p (now - (s.se p).execStart)).2.2 h
  show (handleReturn (accountRun s p now) p).rq.minVruntime = 0
  generalize accountRun s p now = t at hrun
  unfold handleReturn
  split
  · exact (counters_schedEnqueue t p).minVruntime.trans hrun
  · exact hrun
  · rw [reapProcess_rq]
    exact hrun
  · exact hrun
  · exact ((counters_setProc t p _).trans (counters_schedEnqueue _ p)).minVruntime.trans hrun
  · exact ((counters_setProc t p _).trans (counters_schedEnqueue _ p)).minVruntime.trans hrun

theorem minVruntime_schedulerLoop (h : s.rq.minVruntime = 0) (hs : schedulerLoop s now = some s') :
    s'.rq.minVruntime = 0 := by
  have hrebuild : (rebuild s).rq.minVruntime = 0 := (counters_rebuild s).minVruntime.trans h
  unfold schedulerLoop at hs
  split at hs
  · dsimp only at hs
    split at hs <;> cases hs
    · exact hrebuild
    · rw [minVruntime_reclaimFrom]
      exact hrebuild
  · split at hs <;> cases hs
    · exact h
    · exact (counters_switchTo s _ now).minVruntime.trans h

/-- `min_vruntime` is 0 for ever. -/
theorem minVruntime_step (h : s.rq.minVruntime = 0) (hs : step s a = some s') :
    s'.rq.minVruntime = 0 := by
  cases step_cases hs with
  | fork => exact h
  | wakeup => exact (counters_schedWakeup s _).minVruntime.trans h
  | sleep => exact (counters_schedSleep s _ _ _).minVruntime.trans h
  | setPriority => exact (counters_schedSetPriority s _ _).minVruntime.trans h
  | nice => exact (counters_schedNice s _ _).minVruntime.trans h
  | tick => exact minVruntime_schedulerTick h _
  | yield => exact h
  | exit => exact h
  | schedule _ hloop => exact minVruntime_schedulerLoop h hloop
  | resume => exact minVruntime_resumeScheduler h _ _

/-! ### The search hint -/

/-- The search for a slot starts inside the table or right behind it. -/
def HintOk (s : SchedState) : Prop := s.processMinIndex ≤ s.processCount

theorem HintOk.counters (h : HintOk s) (hc : Counters s s') : HintOk s' := by
  rw [HintOk, hc.hint, hc.count]
  exact h

theorem HintOk.updateVruntime (h : HintOk s) (p : ProcPtr) (delta : UInt64) :
    HintOk (schedUpdateVruntime s p delta) := by
  obtain ⟨hcount, hhint, -⟩ := counters_schedUpdateVruntime s p delta
  rw [HintOk, hcount, hhint]
  exact h

theorem HintOk.reclaim (h : HintOk s) (turns i : Nat) : HintOk (reclaimFrom s turns i) :=
  reclaimFrom_induct (P := HintOk) (fun _ _ _ ht hi _ _ => reapProcess_minIndex ht hi) h turns i

theorem HintOk.tick (h : HintOk s) (now : UInt64) : HintOk (schedulerTick s now) :=
  schedulerTick_induct (P := HintOk) h (fun p => h.updateVruntime p _)
    fun t ht => ht.counters (counters_schedulerPreempt t)

theorem HintOk.loop (h : HintOk s) (hs : schedulerLoop s now = some s') : HintOk s' := by
  have hrebuild := h.counters (counters_rebuild s)
  unfold schedulerLoop at hs
  split at hs
  · dsimp only at hs
    split at hs <;> cases hs
    · exact hrebuild
    · exact hrebuild.reclaim _ _
  · split at hs <;> cases hs
    · exact h
    · exact h.counters (counters_switchTo s _ now)

/-- The process that comes back is live, so its slot is inside the table. -/
theorem HintOk.resume (h : HintOk s) (htable : Table s) (hlive : Live s p)
    (now : UInt64) : HintOk (resumeScheduler s p now) := by
  have hkeeps := keeps_accountRun s p now
  have hrun : HintOk (accountRun s p now) := h.updateVruntime p _
  have hslot : ((accountRun s p now).procs p).i < (accountRun s p now).processCount := by
    have htable' := htable.congr hkeeps
    have hlive' := (hkeeps.live p).mpr hlive
    exact (htable'.compact _).mp (by rw [(htable'.live_iff p).mp hlive']; rfl)
  show HintOk (handleReturn (accountRun s p now) p)
  generalize accountRun s p now = t at hrun hslot
  unfold handleReturn
  split
  · exact hrun.counters (counters_schedEnqueue t p)
  · exact hrun
  · exact reapProcess_minIndex hrun hslot
  · exact hrun
  · exact hrun.counters ((counters_setProc t p _).trans (counters_schedEnqueue _ p))
  · exact hrun.counters ((counters_setProc t p _).trans (counters_schedEnqueue _ p))

theorem HintOk.act (h : HintOk s) (hinv : Inv s q) (hs : step s a = some s') : HintOk s' := by
  cases step_cases hs with
  | fork => exact h
  | wakeup => exact h.counters (counters_schedWakeup s _)
  | sleep => exact h.counters (counters_schedSleep s _ _ _)
  | setPriority => exact h.counters (counters_schedSetPriority s _ _)
  | nice => exact h.counters (counters_schedNice s _ _)
  | tick => exact h.tick _
  | yield => exact h
  | exit => exact h
  | schedule _ hloop => exact h.loop hloop
  | resume hc => exact h.resume hinv.table (hinv.curr _ hc).1 _

/-! ### The machine -/

/-- A new process is in no queue. -/
theorem Inv.allocated {s s' : ProcState} (h : Inv s.sched q) (hp : ¬ Live s.sched p)
    (ha : Allocated s s' p) : Inv s'.sched q := by
  have hne : ∀ x, Live s.sched x → x ≠ p := by
    rintro x hx rfl
    exact hp hx
  have hse : ∀ x ≠ p, s'.sched.se x = s.sched.se x := fun x hx => by
    rw [SchedState.se, ha.old x hx, SchedState.se]
  have hnew : s'.sched.se p = SchedEntity.zero := by
    rw [SchedState.se, ha.new]
    rfl
  have hmem : ∀ k, ∀ x ∈ q k, Live s'.sched x := fun k x hx =>
    (ha.live x).mpr (Or.inr (h.linked.live k x hx))
  have hq : ∀ k, p ∉ q k := fun k hk => hp (h.linked.live k p hk)
  refine ⟨⟨fun k => ?_, h.linked.nodup, fun k x hx => ?_, hmem, fun x hx => ?_, fun k => ?_, ?_⟩,
    ha.table, fun x hx hc => ?_, fun c hc => ?_⟩
  · rw [ha.rq]
    refine (h.linked.dlist k).congr (fun x hx => ?_) fun x hx => ?_
    · rw [hse x (hne x (h.linked.live k x hx))]
    · rw [hse x (hne x (h.linked.live k x hx))]
  · rw [hse x (hne x (h.linked.live k x hx))]
    exact h.linked.prio k x hx
  · rcases (ha.live x).mp hx with rfl | hold
    · rw [hnew]
      exact iff_of_false (fun hflag => hflag rfl) fun hex => hex.elim hq
    · rw [hse x (hne x hold)]
      exact h.linked.flag x hold
  · rw [ha.rq]
    exact h.linked.size k
  · rw [ha.rq]
    exact h.linked.total
  · rw [ha.rq] at hc
    rcases (ha.live x).mp hx with rfl | hold
    · rw [ha.new]
      exact iff_of_false (fun hst => by cases hst) fun hex => hex.elim hq
    · rw [ha.old x (hne x hold)]
      exact h.runnable x hold hc
  · rw [ha.rq] at hc
    obtain ⟨hlive, hcq, hlinks, hst⟩ := h.curr c hc
    rw [hse c (hne c hlive), ha.old c (hne c hlive)]
    exact ⟨(ha.live c).mpr (Or.inr hlive), hcq, hlinks, hst⟩

/-- What every run without `sched_sleep` keeps. -/
structure MachineInv (s : ProcState) : Prop where
  queues : ∃ q, Inv s.sched q
  hint : HintOk s.sched

/-- The steps of `sched_sleep`. -/
def sleeps : MachineAct → Bool
  | .sched a => isSleep a
  | .allocate _ _ => false

/-- A step is a step of the scheduler, or an allocation. -/
theorem machineStep_cases {s s' : ProcState} {act : MachineAct} (h : MachineInv s)
    (hs : machineStep s act = some s') :
    (∃ a t, act = .sched a ∧ step s.sched a = some t ∧ s' = { s with sched := t }) ∨
      ∃ p pages, act = .allocate p pages ∧ ¬ Live s.sched p ∧ Allocated s s' p := by
  obtain ⟨q, hinv⟩ := h.queues
  cases act with
  | sched a =>
    obtain ⟨t, ht, rfl⟩ := Option.map_eq_some_iff.mp hs
    exact Or.inl ⟨a, t, rfl, ht, rfl⟩
  | allocate p pages =>
    have htable : tableStep s (.allocate p pages) = some s' := hs
    rcases tableStep_cases hinv.table h.hint htable with
      ⟨p', pages', hact, hp, ha⟩ | ⟨i, p', hact, -⟩
    · cases hact
      exact Or.inr ⟨p, pages, rfl, hp, ha⟩
    · cases hact

theorem machineStep_inv {s s' : ProcState} {act : MachineAct} (h : MachineInv s)
    (hact : sleeps act = false) (hs : machineStep s act = some s') : MachineInv s' := by
  obtain ⟨q, hinv⟩ := h.queues
  rcases machineStep_cases h hs with ⟨a, t, rfl, ht, rfl⟩ | ⟨p, pages, rfl, hp, ha⟩
  · exact ⟨step_inv hinv hact ht, h.hint.act hinv ht⟩
  · exact ⟨⟨q, Inv.allocated hinv hp ha⟩, ha.hint.le⟩

/-- A machine with two new processes. -/
def twoNew : ProcState := { emptyMachine with sched := twoProcesses }

end DzOS.Proofs.Sched.Machine
