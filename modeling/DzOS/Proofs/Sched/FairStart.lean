import DzOS.Proofs.Sched.Machine

/-!
# `DzOS.Proofs.Sched.FairStart`: the run time of a new process

`sched_fork` starts a process with `min_vruntime`, to be fair to the processes that have already
run. But `min_vruntime` never rises: `sched_update_vruntime` only lowers it, and it starts at 0.
So every new process starts with 0. `fork_fair_iff` says when that is fair: exactly when no
process is enqueued, or one of them has the run time 0 too.
-/

set_option autoImplicit false

namespace DzOS.Proofs.Sched.FairStart

open DzOS.Lib DzOS.Sched DzOS.Proofs.Sched.Machine DzOS.Proofs.Sched.ProcessTable
  DzOS.Proofs.Sched.StackSlots

variable {act : MachineAct}

/-- A fork is fair: the run time of the new process is not below all those in the run queue. -/
def FairFork (s : ProcState) : MachineAct → Prop
  | .sched (.fork p) => ∀ s', machineStep s (.sched (.fork p)) = some s' →
    (∃ x, Enqueued s'.sched x) →
    ∃ x, Enqueued s'.sched x ∧ (s'.sched.se x).vruntime ≤ (s'.sched.se p).vruntime
  | _ => True

/-- The condition for a fork: if other processes are in the run queue, the run time of one of
them is 0. -/
def ZeroFork (s : ProcState) : MachineAct → Prop
  | .sched (.fork p) => (∃ x, x ≠ p ∧ Enqueued s.sched x) →
    ∃ x, x ≠ p ∧ Enqueued s.sched x ∧ (s.sched.se x).vruntime = 0
  | _ => True

variable {s s' : ProcState}

theorem minVruntime_machineStep (h : s.sched.rq.minVruntime = 0)
    (hs : machineStep s act = some s') :
    s'.sched.rq.minVruntime = 0 := by
  cases act with
  | sched a =>
    obtain ⟨t, ht, rfl⟩ := Option.map_eq_some_iff.mp hs
    exact minVruntime_step h ht
  | allocate p pages =>
    rw [machineStep, tableStep] at hs
    split_ifs at hs
    split at hs <;> cases hs
    rename_i rest halloc
    rw [(procAllocate_frame halloc).1]
    exact h

/-- The run queue after a fork: the new process is not in it, and the others are as before. -/
theorem enqueued_schedFork (s : SchedState) (p x : ProcPtr) :
    Enqueued (schedFork s p) x ↔ x ≠ p ∧ Enqueued s x := by
  have hlive : Live (schedFork s p) x ↔ Live s x := Iff.rfl
  rw [Enqueued, Enqueued, hlive, schedFork, setSe_se]
  by_cases hx : x = p
  · rw [if_pos hx]
    exact iff_of_false (fun h => h.2 rfl) fun h => h.1 hx
  · rw [if_neg hx]
    exact (and_iff_right hx).symm

/-- While `min_vruntime` is 0, a fork is fair exactly under its condition. -/
theorem fairFork_iff (h : s.sched.rq.minVruntime = 0) (hs : machineStep s act = some s') :
    FairFork s act ↔ ZeroFork s act := by
  cases act with
  | allocate p pages => exact Iff.rfl
  | sched a =>
    cases a with
    | fork p =>
      have hfork : machineStep s (.sched (.fork p)) =
          some { s with sched := schedFork s.sched p } := by
        obtain ⟨t, ht, rfl⟩ := Option.map_eq_some_iff.mp hs
        obtain ⟨hcond, ⟨⟩⟩ := Option.ite_none_right_eq_some.mp ht
        rw [machineStep, step, if_pos hcond]
        rfl
      have hstart : ((schedFork s.sched p).se p).vruntime = 0 := by
        rw [schedFork, setSe_se, if_pos rfl]
        exact h
      -- an enqueued process has the run time that it had before
      have hother : ∀ x, x ≠ p → (schedFork s.sched p).se x = s.sched.se x := fun x hx => by
        rw [schedFork, setSe_se, if_neg hx]
      have hle : ∀ x, x ≠ p → (((schedFork s.sched p).se x).vruntime ≤
          ((schedFork s.sched p).se p).vruntime ↔ (s.sched.se x).vruntime = 0) := by
        intro x hx
        rw [hstart, hother x hx]
        exact UInt64.le_zero_iff
      rw [FairFork, ZeroFork]
      constructor
      · intro hfair hsome
        obtain ⟨y, hy⟩ := hsome
        obtain ⟨x, hx, hxle⟩ := hfair _ hfork ⟨y, (enqueued_schedFork s.sched p y).mpr hy⟩
        obtain ⟨hne, henq⟩ := (enqueued_schedFork s.sched p x).mp hx
        exact ⟨x, hne, henq, (hle x hne).mp hxle⟩
      · intro hzero t ht hsome
        obtain ⟨y, hy⟩ := hsome
        rw [hfork] at ht
        cases ht
        obtain ⟨x, hne, henq, hx⟩ := hzero ⟨y, (enqueued_schedFork s.sched p y).mp hy⟩
        exact ⟨x, (enqueued_schedFork s.sched p x).mpr ⟨hne, henq⟩, (hle x hne).mpr hx⟩
    | wakeup | sleep | setPriority | nice | tick | yield | exit | schedule | resume =>
      exact Iff.rfl

/-- In every run from a state with `min_vruntime` 0, all forks are fair exactly if at each of
them no other process is in the run queue, or one in it has the run time 0. -/
theorem fork_fair_iff {s₀ s : ProcState} {acts : List MachineAct}
    (hzero : s₀.sched.rq.minVruntime = 0) (hrun : runSteps machineStep s₀ acts = some s) :
    EachCall machineStep s₀ acts FairFork ↔ EachCall machineStep s₀ acts ZeroFork := by
  have hiff : (Throughout machineStep s₀ acts (fun _ => True) ∧
      EachCall machineStep s₀ acts FairFork) ↔ EachCall machineStep s₀ acts ZeroFork :=
    throughout_and_eachCall_iff (I := fun s => s.sched.rq.minVruntime = 0) (V := fun _ _ => True)
      (fun _ _ => trivial)
      (fun s act s' h _ hs hok => ⟨minVruntime_machineStep h hs, (fairFork_iff h hs).mpr hok⟩)
      (fun s act s' h _ hs hok _ hfair => hok ((fairFork_iff h hs).mp hfair))
      hzero (fun _ _ _ _ _ => trivial) hrun
  rw [← hiff]
  exact (and_iff_right fun _ _ _ _ => trivial).symm

/-- Process 1 runs for one second and waits for its next turn. Then process 2 is forked. -/
def lateFork : List MachineAct :=
  [.sched (.fork 1), .sched (.wakeup 1), .sched (.schedule 10), .sched .yield,
    .sched (.resume 1000010), .sched (.fork 2)]

/-- The law for the run before the second fork. -/
theorem fork_fair_iff_first :
    ∃ s, runSteps machineStep twoNew (lateFork.take 5) = some s ∧
      (EachCall machineStep twoNew (lateFork.take 5) FairFork ↔
        EachCall machineStep twoNew (lateFork.take 5) ZeroFork) := by
  have hsome : (runSteps machineStep twoNew (lateFork.take 5)).isSome := by decide +kernel
  obtain ⟨s, hrun⟩ := Option.isSome_iff_exists.mp hsome
  exact ⟨s, hrun, fork_fair_iff rfl hrun⟩

/-- The new process starts with the run time 0, below the 22129 of the only process in the run
queue. -/
theorem lateFork_unfair : ¬ EachCall machineStep twoNew lateFork FairFork := by
  intro hall
  have hfacts : ((runSteps machineStep twoNew (lateFork.take 5)).map fun s =>
      decide (s.sched.processCount = 2 ∧ s.sched.processes 0 = some 1 ∧
        s.sched.processes 1 = some 2 ∧ (s.sched.se 1).inRunqueue = 1 ∧
        (s.sched.se 1).vruntime = 22129 ∧ s.sched.rq.minVruntime = 0 ∧
        (machineStep s (.sched (.fork 2))).isSome)) = some true := by
    decide +kernel
  obtain ⟨t, hrun, hfacts⟩ := Option.map_eq_some_iff.mp hfacts
  obtain ⟨hcount, hslot0, hslot1, hflag, hvruntime, hmin, hstep⟩ := of_decide_eq_true hfacts
  obtain ⟨t', hstep⟩ := Option.isSome_iff_exists.mp hstep
  have hfair : FairFork t (.sched (.fork 2)) :=
    hall (lateFork.take 5) _ t List.prefix_rfl hrun
  have hone : Enqueued t.sched 1 :=
    ⟨⟨0, by rw [hcount]; decide, hslot0⟩, by rw [hflag]; decide⟩
  obtain ⟨x, hne, ⟨⟨i, hi, hx⟩, -⟩, hzero⟩ :=
    (fairFork_iff hmin hstep).mp hfair ⟨1, by decide, hone⟩
  rw [hcount] at hi
  -- the only other process is process 1
  have hx1 : x = 1 := by
    match i, hi with
    | 0, _ => exact Option.some_inj.mp (hx.symm.trans hslot0)
    | 1, _ => exact absurd (Option.some_inj.mp (hx.symm.trans hslot1)) hne
  rw [hx1, hvruntime] at hzero
  exact absurd hzero (by decide)

end DzOS.Proofs.Sched.FairStart
