import DzOS.Proofs.Sched.Account

/-!
# `DzOS.Proofs.Sched.Weights`: calls that change a priority

`sched_set_priority` and `sched_nice` write the new priority of a process first and dequeue it
then. So they subtract and add the new weight, and the old one stays in the total
(`weightOk_requeue_iff`). `weights_exact_iff` says that this is the only way to go wrong: the
account is exact throughout a run exactly if no call changes the priority of a process in the run
queue.
-/

set_option autoImplicit false

namespace DzOS.Proofs.Sched.Weights

open DzOS.Lib DzOS.Sched DzOS.Proofs.Sched.Account DzOS.Proofs.Sched.Machine
  DzOS.Proofs.Sched.ProcessTable DzOS.Proofs.Sched.StackSlots

variable {se se' : SchedEntity}

/-- `sched_nice` limits the value to the range from -20 to 19. -/
def clampNice (nice : Int8) : Int8 :=
  let nice := if nice < -20 then -20 else nice
  if nice > 19 then 19 else nice

/-- The condition for a call: a process in the run queue keeps its priority. -/
def PrioKept (s : ProcState) : MachineAct → Prop
  | .sched (.setPriority p prio) => Enqueued s.sched p → prio < 8 →
    prio = (s.sched.se p).dynamicPriority
  | .sched (.nice p nice) => Enqueued s.sched p →
    (schedUpdatePriority { s.sched.se p with nice := clampNice nice }).dynamicPriority =
      (s.sched.se p).dynamicPriority
  | _ => True

instance (s : ProcState) (act : MachineAct) : Decidable (PrioKept s act) :=
  match act with
  | .sched (.setPriority p prio) =>
    inferInstanceAs (Decidable (Enqueued s.sched p → prio < 8 →
      prio = (s.sched.se p).dynamicPriority))
  | .sched (.nice p nice) =>
    inferInstanceAs (Decidable (Enqueued s.sched p →
      (schedUpdatePriority { s.sched.se p with nice := clampNice nice }).dynamicPriority =
        (s.sched.se p).dynamicPriority))
  | .sched (.fork _) | .sched (.wakeup _) | .sched (.sleep _ _) | .sched (.tick _)
  | .sched .yield | .sched .exit | .sched (.schedule _) | .sched (.resume _)
  | .allocate _ _ => isTrue trivial

variable {s s' : SchedState} {p x : ProcPtr} {q : Nat → List ProcPtr} {k : Nat}
  {f : SchedEntity → SchedEntity}

/-- Two priorities have different weights. -/
theorem dynamicPriority_of_weight (h : se.dynamicPriority < 8) (h' : se'.dynamicPriority < 8)
    (heq : schedEntityWeight se' = schedEntityWeight se) :
    se'.dynamicPriority = se.dynamicPriority := by
  have hinj : ∀ m < 8, ∀ n < 8, weights.getD m 0 = weights.getD n 0 → m = n := by decide
  exact UInt8.toNat_inj.mp (hinj _ (UInt8.lt_iff_toNat_lt.mp h') _ (UInt8.lt_iff_toNat_lt.mp h) heq)

/-- The queue fields and the account fields share the flag and the queue number. -/
theorem flag_of_queueFields (h : queueFields se' = queueFields se) :
    se'.inRunqueue = se.inRunqueue ∧ se'.runqueuePrio = se.runqueuePrio := by
  simp only [queueFields, Prod.mk.injEq] at h
  exact ⟨h.2.2.2, h.2.2.1⟩

/-- A process outside of the run queue gets a new priority. -/
theorem Weighed.reprioritise (h : Weighed s) (hout : (s.se p).inRunqueue = 0)
    (hf : queueFields (f (s.se p)) = queueFields (s.se p))
    (hprio : (f (s.se p)).dynamicPriority < 8) : Weighed (requeueIfQueued (s.setSe p f) p) := by
  have hself : (s.setSe p f).se p = f (s.se p) := by rw [setSe_se, if_pos rfl]
  have hflag : ((s.setSe p f).se p).inRunqueue = 0 := by
    rw [hself, (flag_of_queueFields hf).1]
    exact hout
  rw [requeueIfQueued, if_neg fun hcond => hcond.2 hflag]
  refine h.writeOut (fun _ => Iff.rfl) rfl (fun x hx => ?_) (fun _ => hout) hflag ?_
  · rw [setSe_se, if_neg hx]
  · rw [hself]
    exact hprio

/-- What a call does that writes the priority of an enqueued process and moves it to the queue of
the new priority. The total stays as it was. -/
structure Moved (s s' : SchedState) (p : ProcPtr) (prio : UInt8) : Prop where
  live : ∀ x, Live s' x ↔ Live s x
  total : s'.rq.totalWeight = s.rq.totalWeight
  other : ∀ x ≠ p, weightFields (s'.se x) = weightFields (s.se x)
  self : weightFields (s'.se p) = (1, prio, prio)

/-- A process that is requeued moves its weight to its new queue. -/
theorem moved_requeue (hinv : Inv s q) (hp : p ∈ q k)
    (hf : queueFields (f (s.se p)) = queueFields (s.se p))
    (hprio : (f (s.se p)).dynamicPriority < 8) :
    Moved s (requeueIfQueued (s.setSe p f) p) p (f (s.se p)).dynamicPriority := by
  have hself : (s.setSe p f).se p = f (s.se p) := by rw [setSe_se, if_pos rfl]
  obtain ⟨hflag, hqueue⟩ := flag_of_queueFields hf
  have hlive := hinv.linked.live k p hp
  have hin : (s.se p).inRunqueue ≠ 0 := (hinv.linked.flag p hlive).mpr ⟨k, hp⟩
  have hcurr : s.rq.curr ≠ some p := fun heq => (hinv.curr p heq).2.1 k hp
  have hst : (s.procs p).state = .RUNNABLE := (hinv.runnable p hlive hcurr).mpr ⟨k, hp⟩
  have hlt : ((s.setSe p f).se p).runqueuePrio.toNat < 8 := by
    obtain ⟨hk, hk8⟩ := hinv.linked.prio k p hp
    rw [hself, hqueue, hk]
    exact hk8
  have hcond : ((s.setSe p f).procs p).state = .RUNNABLE ∧ ((s.setSe p f).se p).inRunqueue ≠ 0 := by
    rw [setSe_state, hself, hflag]
    exact ⟨hst, hin⟩
  rw [requeueIfQueued, if_pos hcond]
  generalize ht : s.setSe p f = t at hself hlt
  have hkeeps := (keeps_schedDequeue t p).trans (keeps_schedEnqueue (schedDequeue t p) p)
  have hfields := weightFields_schedDequeue hlt p
  rw [if_pos rfl, hself] at hfields
  simp only [weightFields, Prod.mk.injEq] at hfields
  have hdynamic : ((schedDequeue t p).se p).dynamicPriority = (f (s.se p)).dynamicPriority :=
    hfields.2.1
  refine ⟨fun x => ?_, ?_, fun x hx => ?_, ?_⟩
  · rw [hkeeps.live, ← ht]
    exact Iff.rfl
  · rw [totalWeight_schedEnqueue, totalWeight_schedDequeue hlt, hself,
      schedEntityWeight_congr hdynamic, UInt64.sub_add_cancel, ← ht]
    rfl
  · rw [weightFields_schedEnqueue, if_neg hx, weightFields_schedDequeue hlt, if_neg hx, ← ht,
      setSe_se, if_neg hx]
  · rw [weightFields_schedEnqueue, if_pos rfl, hdynamic,
      enqueuePrio_eq (by rw [hdynamic]; exact hprio), hdynamic]

/-- The account after the move is right exactly if the priority is the old one. -/
theorem Moved.weightOk_iff {prio : UInt8} (hmoved : Moved s s' p prio) (h : Weighed s)
    (hlive : Live s p) (hin : (s.se p).inRunqueue ≠ 0) (hprio : prio < 8) :
    (WeightOk s' ↔ prio = (s.se p).dynamicPriority) ∧
      (prio = (s.se p).dynamicPriority → Weighed s') := by
  have hself := hmoved.self
  simp only [weightFields, Prod.mk.injEq] at hself
  obtain ⟨hflag, hdynamic, hqueue⟩ := hself
  have hin' : (s'.se p).inRunqueue ≠ 0 := by
    rw [hflag]
    decide
  have hsum := sum_load_update hmoved.live hlive hmoved.other
  rw [load_of_flag hin, load_of_flag hin', ← h.total, ← hmoved.total] at hsum
  have hback : prio = (s.se p).dynamicPriority → Weighed s' := by
    intro heq
    have hweight := schedEntityWeight_congr (hdynamic.trans heq)
    rw [hweight] at hsum
    refine ⟨⟨?_, fun x hx => ?_⟩, fun x hx => ?_⟩
    · rw [sum_enqueuedSet]
      omega
    · by_cases hxp : x = p
      · rw [hxp, hqueue, hdynamic]
      · have hsame := hmoved.other x hxp
        simp only [weightFields, Prod.mk.injEq] at hsame
        rw [hsame.2.1, hsame.2.2]
        exact h.ok.prio x ⟨(hmoved.live x).mp hx.1, by rw [← hsame.1]; exact hx.2⟩
    · by_cases hxp : x = p
      · rw [hxp, hdynamic]
        exact hprio
      · have hsame := hmoved.other x hxp
        simp only [weightFields, Prod.mk.injEq] at hsame
        rw [hsame.2.1]
        exact h.prioLt x ((hmoved.live x).mp hx)
  refine ⟨⟨fun hok => ?_, fun heq => (hback heq).ok⟩, hback⟩
  -- the total is the old sum, so the new weight must be the old one
  have htotal := hok.total
  rw [sum_enqueuedSet] at htotal
  have hweight : schedEntityWeight (s'.se p) = schedEntityWeight (s.se p) :=
    UInt64.toNat_inj.mp (by omega)
  rw [← hdynamic]
  exact dynamicPriority_of_weight (h.prioLt p hlive) (by rw [hdynamic]; exact hprio) hweight

/-- A call that writes a priority keeps the account exactly if a process in the run queue keeps
its priority. -/
theorem weightOk_requeue_iff (h : Weighed s) (hinv : Inv s q) (hlive : Live s p)
    (hf : queueFields (f (s.se p)) = queueFields (s.se p))
    (hprio : (f (s.se p)).dynamicPriority < 8) :
    (WeightOk (requeueIfQueued (s.setSe p f) p) ↔
      (Enqueued s p → (f (s.se p)).dynamicPriority = (s.se p).dynamicPriority)) ∧
      ((Enqueued s p → (f (s.se p)).dynamicPriority = (s.se p).dynamicPriority) →
        Weighed (requeueIfQueued (s.setSe p f) p)) := by
  by_cases hin : (s.se p).inRunqueue = 0
  · have hout := Weighed.reprioritise h hin hf hprio
    exact ⟨iff_of_true hout.ok fun henq => absurd hin henq.2, fun _ => hout⟩
  · obtain ⟨k, hk⟩ := (hinv.linked.flag p hlive).mp hin
    obtain ⟨hiff, hback⟩ := (moved_requeue hinv hk hf hprio).weightOk_iff h hlive hin hprio
    have henq : Enqueued s p := ⟨hlive, hin⟩
    rw [hiff, forall_prop_of_true henq]
    exact ⟨Iff.rfl, hback⟩

/-- A step keeps the account exactly if it meets the condition. -/
theorem step_weightOk_iff {s s' : ProcState} {act : MachineAct} (hinv : MachineInv s)
    (h : Weighed s.sched) (hact : sleeps act = false) (hs : machineStep s act = some s') :
    (WeightOk s'.sched ↔ PrioKept s act) ∧ (PrioKept s act → Weighed s'.sched) := by
  have hkept : Weighed s'.sched → PrioKept s act →
      (WeightOk s'.sched ↔ PrioKept s act) ∧ (PrioKept s act → Weighed s'.sched) :=
    fun hweighed hok => ⟨iff_of_true hweighed.ok hok, fun _ => hweighed⟩
  obtain ⟨q, hq⟩ := hinv.queues
  rcases machineStep_cases hinv hs with ⟨a, t, rfl, ht, rfl⟩ | ⟨p, pages, rfl, hp, ha⟩
  · cases step_cases ht with
    | @setPriority p prio hlive =>
      rw [PrioKept]
      show (WeightOk (schedSetPriority s.sched p prio) ↔ _) ∧
        (_ → Weighed (schedSetPriority s.sched p prio))
      unfold schedSetPriority
      by_cases hge : prio ≥ SCHED_PRIORITY_LEVELS
      · rw [if_pos hge]
        have hnot : ¬ prio < 8 := UInt8.not_lt.mpr hge
        exact ⟨iff_of_true h.ok fun _ hlt => absurd hlt hnot, fun _ => h⟩
      · rw [if_neg hge]
        have hlt : prio < 8 := UInt8.not_le.mp hge
        simp only [forall_prop_of_true hlt]
        exact weightOk_requeue_iff h hq hlive rfl hlt
    | @nice p n hlive =>
      exact weightOk_requeue_iff h hq hlive (queueFields_schedUpdatePriority _)
        (schedUpdatePriority_lt (h.prioLt p hlive))
    | sleep => cases hact
    | fork | wakeup | tick | yield | exit | schedule | resume =>
      exact hkept (h.act hq rfl (by simp) (by simp) ht) trivial
  · exact hkept (h.allocated hp ha) trivial

/-- The start of a run: the run queue is empty and its total is 0. -/
structure Start (s : ProcState) : Prop where
  boot : Boot s.sched
  hint : HintOk s.sched
  total : s.sched.rq.totalWeight = 0
  prio : ∀ p, Live s.sched p → (s.sched.se p).dynamicPriority < 8

theorem Start.weighed {s : ProcState} (h : Start s) : Weighed s.sched := by
  refine ⟨⟨?_, fun p hp => absurd (h.boot.new p hp.1).2 hp.2⟩, h.prio⟩
  have hsum : ∑ p ∈ liveSet s.sched, load (s.sched.se p) = 0 :=
    Finset.sum_eq_zero fun p hp => load_of_no_flag (h.boot.new p (mem_liveSet.mp hp)).2
  rw [sum_enqueuedSet, hsum, h.total]
  rfl

/-- In every run, the total weight is the sum of the weights of the enqueued processes and each
of these is in the queue of its priority, in every state, exactly if no call changes the priority
of a process in the run queue. -/
theorem weights_exact_iff {s₀ s : ProcState} {acts : List MachineAct} (hstart : Start s₀)
    (hsleep : ∀ act ∈ acts, sleeps act = false) (hrun : runSteps machineStep s₀ acts = some s) :
    Throughout machineStep s₀ acts (fun s => WeightOk s.sched) ↔
      EachCall machineStep s₀ acts PrioKept := by
  have hinit : MachineInv s₀ := ⟨⟨_, hstart.boot.inv⟩, hstart.hint⟩
  refine throughout_iff (fun s (h : MachineInv s ∧ Weighed s.sched) => h.2.ok) ?_ ?_
    ⟨hinit, hstart.weighed⟩ ((eachCall_const hrun).mpr hsleep) hrun
  · rintro s act s' ⟨hinv, hweighed⟩ hact hs hok
    exact ⟨machineStep_inv hinv hact hs, (step_weightOk_iff hinv hweighed hact hs).2 hok⟩
  · rintro s act s' ⟨hinv, hweighed⟩ hact hs hnot hok
    exact hnot ((step_weightOk_iff hinv hweighed hact hs).1.mp hok)

theorem twoNew_start : Start twoNew where
  boot := twoProcesses_boot
  hint := le_refl 2
  total := rfl
  prio _ _ := (by decide : PRIO_NORMAL_MIN < 8)

/-- Process 1 gets a priority before it is woken up, and process 2 after it has run. -/
def rightCalls : List MachineAct :=
  [.sched (.fork 1), .sched (.setPriority 1 5), .sched (.wakeup 1), .sched (.fork 2),
    .sched (.wakeup 2), .sched (.schedule 10), .sched (.nice 2 12), .sched .yield,
    .sched (.resume 500)]

/-- The account is exact throughout this run. -/
theorem weights_exact_iff_rightCalls :
    Throughout machineStep twoNew rightCalls fun s => WeightOk s.sched := by
  have hsome : (runSteps machineStep twoNew rightCalls).isSome := by decide +kernel
  obtain ⟨s, hrun⟩ := Option.isSome_iff_exists.mp hsome
  exact (weights_exact_iff twoNew_start (by decide) hrun).mpr (by decide +kernel)

/-- Process 1 waits in the run queue, with the weight 46273. Then it gets the priority 5 with the
weight 29154. The total is still 46273. -/
theorem setPriority_inexact :
    ¬ Throughout machineStep twoNew
      [.sched (.fork 1), .sched (.wakeup 1), .sched (.setPriority 1 5)]
      fun s => WeightOk s.sched := by
  intro hall
  have hfacts : ((runSteps machineStep twoNew
      [.sched (.fork 1), .sched (.wakeup 1), .sched (.setPriority 1 5)]).map fun s =>
      decide (s.sched.rq.totalWeight.toNat = 46273 ∧
        ∑ p ∈ enqueuedSet s.sched, (schedEntityWeight (s.sched.se p)).toNat = 29154)) =
      some true := by
    decide +kernel
  obtain ⟨s, hrun, hfacts⟩ := Option.map_eq_some_iff.mp hfacts
  obtain ⟨htotal, hsum⟩ := of_decide_eq_true hfacts
  have hok := (hall _ s List.prefix_rfl hrun).total
  rw [htotal, hsum] at hok
  exact absurd hok (by decide)

end DzOS.Proofs.Sched.Weights
