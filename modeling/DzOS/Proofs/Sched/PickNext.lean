import DzOS.Proofs.Sched.Weights

/-!
# `DzOS.Proofs.Sched.PickNext`: the process that runs next

`sched_pick_next` returns a process of the first queue that is not empty: the first one of a
real-time queue, and the first one with the least `vruntime` of any other queue
(`schedPickNext_spec`, in `DzOS.Proofs.Sched.Queue`).

Two invariants turn this into a statement about the processes. An enqueued process is in the queue
of its priority (`Placed`). And a queue is in the order in which its processes were enqueued: the
runs come with a log of the calls of `sched_enqueue`, and the calls for the processes of a queue
are the older, the closer they are to its head (`InOrder`). `pickNext_best` is the statement for
runs.
-/

set_option autoImplicit false

namespace DzOS.Proofs.Sched.PickNext

open DzOS.Lib DzOS.Sched DzOS.Proofs.Sched.Account DzOS.Proofs.Sched.Machine
  DzOS.Proofs.Sched.ProcessTable DzOS.Proofs.Sched.StackSlots DzOS.Proofs.Sched.Weights

variable {now : UInt64} {se : SchedEntity} {f : SchedEntity → SchedEntity}

/-! ### The queue of a process -/

section
variable {s s' : SchedState} {q q' : Nat → List ProcPtr} {p x : ProcPtr} {k : Nat}

/-- An entity has a priority in range, and it is in the queue of that priority when it is in
one. -/
def PlacedSe (se : SchedEntity) : Prop :=
  se.dynamicPriority < 8 ∧ (se.inRunqueue ≠ 0 → se.runqueuePrio = se.dynamicPriority)

/-- Each enqueued process is in the queue of its priority. -/
def Placed (s : SchedState) : Prop := ∀ p, Live s p → PlacedSe (s.se p)

theorem PlacedSe.congr {se' : SchedEntity} (h : PlacedSe se)
    (hf : weightFields se' = weightFields se) : PlacedSe se' := by
  simp only [weightFields, Prod.mk.injEq] at hf
  obtain ⟨hflag, hdynamic, hqueue⟩ := hf
  rw [PlacedSe, hflag, hdynamic, hqueue]
  exact h

/-- An entity that is in no queue. -/
theorem placedSe_out (hprio : se.dynamicPriority < 8) (hout : se.inRunqueue = 0) :
    PlacedSe se := ⟨hprio, fun hne => absurd hout hne⟩

theorem Placed.congr (h : Placed s) (hlive : ∀ x, Live s' x → Live s x)
    (hf : ∀ x, weightFields (s'.se x) = weightFields (s.se x)) : Placed s' :=
  fun x hx => (h x (hlive x hx)).congr (hf x)

/-- A write to one entity. -/
theorem Placed.write (h : Placed s) (hlive : ∀ x, Live s' x → Live s x)
    (hother : ∀ x ≠ p, s'.se x = s.se x) (hself : PlacedSe (s'.se p)) : Placed s' := by
  intro x hx
  by_cases hxp : x = p
  · rw [hxp]
    exact hself
  · rw [hother x hxp]
    exact h x (hlive x hx)

/-- `sched_enqueue` puts a process into the queue of its priority. -/
theorem placed_schedEnqueue (h : ∀ x ≠ p, Live s x → PlacedSe (s.se x))
    (hprio : (s.se p).dynamicPriority < 8) : Placed (schedEnqueue s p) := by
  intro x hx
  have hfields := weightFields_schedEnqueue s p x
  by_cases hxp : x = p
  · rw [if_pos hxp, enqueuePrio_eq hprio] at hfields
    simp only [weightFields, Prod.mk.injEq] at hfields
    obtain ⟨-, hdynamic, hqueue⟩ := hfields
    rw [PlacedSe, hdynamic, hqueue]
    exact ⟨hprio, fun _ => rfl⟩
  · rw [if_neg hxp] at hfields
    exact (h x hxp (((keeps_schedEnqueue s p).live x).mp hx)).congr hfields

theorem Placed.enqueue (h : Placed s) (hlive : Live s p) : Placed (schedEnqueue s p) :=
  placed_schedEnqueue (fun x _ => h x) (h p hlive).1

/-- A process of a queue has its priority. -/
theorem Placed.prio (h : Placed s) (hl : Linked s q) (hx : x ∈ q k) :
    (s.se x).dynamicPriority.toNat = k := by
  have hlive := hl.live k x hx
  have hflag : (s.se x).inRunqueue ≠ 0 := (hl.flag x hlive).mpr ⟨k, hx⟩
  rw [← (h x hlive).2 hflag]
  exact (hl.prio k x hx).1

/-! ### The order of a queue -/

/-- The last call of `sched_enqueue` for `x` was before that for `y`. The log has the last call
first. -/
def EnqueuedBefore (log : List ProcPtr) (x y : ProcPtr) : Prop := log.idxOf y < log.idxOf x

/-- The processes are in the order in which they were enqueued. -/
def InOrder (log : List ProcPtr) (l : List ProcPtr) : Prop := l.Pairwise (EnqueuedBefore log)

section
variable {log l : List ProcPtr}

theorem EnqueuedBefore.cons {y : ProcPtr} (h : EnqueuedBefore log x y) (hx : x ≠ p)
    (hy : y ≠ p) : EnqueuedBefore (p :: log) x y := by
  rw [EnqueuedBefore, List.idxOf_cons_ne _ hx.symm, List.idxOf_cons_ne _ hy.symm]
  exact Nat.succ_lt_succ h

/-- A call for another process. -/
theorem InOrder.cons (h : InOrder log l) (hp : p ∉ l) : InOrder (p :: log) l := by
  refine List.Pairwise.imp_of_mem ?_ h
  intro x y hx hy hxy
  exact hxy.cons (ne_of_mem_of_not_mem hx hp) (ne_of_mem_of_not_mem hy hp)

/-- The process of the last call is behind the others. -/
theorem InOrder.concat (h : InOrder log l) (hp : p ∉ l) : InOrder (p :: log) (l ++ [p]) := by
  refine List.pairwise_append.mpr ⟨h.cons hp, List.pairwise_singleton _ _, ?_⟩
  intro x hx y hy
  rw [List.mem_singleton.mp hy, EnqueuedBefore, List.idxOf_cons_self,
    List.idxOf_cons_ne _ (ne_of_mem_of_not_mem hx hp).symm]
  exact Nat.succ_pos _

theorem inOrder_enqueued (h : ∀ k, InOrder log (q k)) (hp : ∀ k, p ∉ q k) (k j : Nat) :
    InOrder (p :: log) (Function.update q k (q k ++ [p]) j) := by
  by_cases hj : j = k
  · rw [hj, Function.update_self]
    exact (h k).concat (hp k)
  · rw [Function.update_of_ne hj]
    exact (h j).cons (hp j)

theorem inOrder_dequeued (h : ∀ k, InOrder log (q k)) (p : ProcPtr) (k j : Nat) :
    InOrder log (Function.update q k ((q k).erase p) j) := by
  by_cases hj : j = k
  · rw [hj, Function.update_self]
    exact (h k).sublist List.erase_sublist
  · rw [Function.update_of_ne hj]
    exact h j

end

/-- The links determine the queues. -/
theorem queues_eq (h : Linked s q) (h' : Linked s' q')
    (hse : ∀ k, ∀ x ∈ q k, (s'.se x).next = (s.se x).next ∧ (s'.se x).prev = (s.se x).prev)
    (hheads : s'.rq.queueHeads = s.rq.queueHeads) : q' = q := by
  funext k
  have hlist := h'.dlist k
  rw [hheads] at hlist
  have hold := (h.dlist k).congr (fun x hx => (hse k x hx).1) fun x hx => (hse k x hx).2
  exact hlist.unique hold

theorem queues_unique (h : Linked s q) (h' : Linked s q') : q' = q :=
  queues_eq h h' (fun _ _ _ => ⟨rfl, rfl⟩) rfl

/-! ### The best candidate -/

/-- `p` is the process to run: it is enqueued and has the least priority number of all enqueued
processes. Of those with its priority it is the first enqueued one when the priority is a
real-time one. Otherwise it has the least run time of them, and it is the first enqueued one with
that run time. -/
structure Best (s : SchedState) (log : List ProcPtr) (p : ProcPtr) : Prop where
  enqueued : Enqueued s p
  prio : ∀ x, Enqueued s x → (s.se p).dynamicPriority ≤ (s.se x).dynamicPriority
  realTime : (s.se p).dynamicPriority ≤ PRIO_RT_MAX → ∀ x, Enqueued s x →
    (s.se x).dynamicPriority = (s.se p).dynamicPriority → x ≠ p → EnqueuedBefore log p x
  vruntime : ¬ (s.se p).dynamicPriority ≤ PRIO_RT_MAX → ∀ x, Enqueued s x →
    (s.se x).dynamicPriority = (s.se p).dynamicPriority → (s.se p).vruntime ≤ (s.se x).vruntime
  ties : ¬ (s.se p).dynamicPriority ≤ PRIO_RT_MAX → ∀ x, Enqueued s x →
    (s.se x).dynamicPriority = (s.se p).dynamicPriority → (s.se x).vruntime = (s.se p).vruntime →
    x ≠ p → EnqueuedBefore log p x

/-- `sched_pick_next` returns `NULL` exactly when no process is enqueued, and the best one
otherwise. -/
def PicksBest (s : SchedState) (log : List ProcPtr) : Prop :=
  ∃ r, schedPickNext s = some r ∧ (r = none ↔ ∀ x, ¬ Enqueued s x) ∧
    ∀ p, r = some p → Best s log p

theorem picksBest {log : List ProcPtr} (hl : Linked s q) (ht : Table s) (hplaced : Placed s)
    (hord : ∀ k, InOrder log (q k)) : PicksBest s log := by
  -- An enqueued process is in the queue of its priority.
  have hmem : ∀ x, Enqueued s x → x ∈ q (s.se x).dynamicPriority.toNat := by
    rintro x ⟨hlive, hflag⟩
    obtain ⟨k, hk⟩ := (hl.flag x hlive).mp hflag
    rw [hplaced.prio hl hk]
    exact hk
  have henq : ∀ k, ∀ x ∈ q k, Enqueued s x := fun k x hx =>
    ⟨hl.live k x hx, (hl.flag x (hl.live k x hx)).mpr ⟨k, hx⟩⟩
  obtain ⟨r, hr, hnone, hsome⟩ := schedPickNext_spec hl ht
  refine ⟨r, hr, ⟨fun hrn x hx => ?_, fun hall => ?_⟩, fun p hp => ?_⟩
  · have hx := hmem x hx
    rw [hnone hrn] at hx
    cases hx
  · cases r with
    | none => rfl
    | some p =>
      obtain ⟨j, -, hchosen⟩ := hsome p rfl
      exact absurd (henq j p hchosen.mem) (hall p)
  · obtain ⟨j, hempty, hchosen⟩ := hsome p hp
    have hj : (s.se p).dynamicPriority.toNat = j := hplaced.prio hl hchosen.mem
    have hsame : ∀ x, Enqueued s x →
        (s.se x).dynamicPriority = (s.se p).dynamicPriority → x ∈ q j := by
      intro x hx heq
      rw [← hj, ← heq]
      exact hmem x hx
    refine ⟨henq j p hchosen.mem, fun x hx => ?_, fun hrt x hx heq hne => ?_,
      fun hrt x hx heq => ?_, fun hrt x hx heq hkey hne => ?_⟩
    · rw [UInt8.le_iff_toNat_le, hj]
      by_contra hlt
      have hx := hmem x hx
      rw [hempty _ (Nat.lt_of_not_le hlt)] at hx
      cases hx
    · rw [UInt8.le_iff_toNat_le, hj] at hrt
      rw [Chosen, if_pos hrt] at hchosen
      obtain ⟨l, hcons⟩ := List.head?_eq_some_iff.mp hchosen
      have hpair := hord j
      have hx := hsame x hx heq
      rw [hcons] at hpair hx
      exact (List.pairwise_cons.mp hpair).1 x ((List.mem_cons.mp hx).resolve_left hne)
    · rw [UInt8.le_iff_toNat_le, hj] at hrt
      rw [Chosen, if_neg hrt] at hchosen
      exact UInt64.le_iff_toNat_le.mpr (hchosen.le (hsame x hx heq))
    · rw [UInt8.le_iff_toNat_le, hj] at hrt
      rw [Chosen, if_neg hrt] at hchosen
      exact hchosen.before (hord j) (hsame x hx heq) hne (congrArg UInt64.toNat hkey)

/-! ### The steps and the queues of the processes -/

section

variable (h : Placed s)

include h

/-- A call that writes a priority moves an enqueued process to its new queue. -/
theorem Placed.requeue (hinv : Inv s q) (hlive : Live s p)
    (hf : queueFields (f (s.se p)) = queueFields (s.se p))
    (hprio : (f (s.se p)).dynamicPriority < 8) : Placed (requeueIfQueued (s.setSe p f) p) := by
  have hself : (s.setSe p f).se p = f (s.se p) := by rw [setSe_se, if_pos rfl]
  have hother : ∀ x ≠ p, (s.setSe p f).se x = s.se x := fun x hx => by rw [setSe_se, if_neg hx]
  obtain ⟨hflag, hqueue⟩ := flag_of_queueFields hf
  unfold requeueIfQueued
  split
  · rename_i hcond
    rw [setSe_state, hself, hflag] at hcond
    obtain ⟨k, hk⟩ := (hinv.linked.flag p hlive).mp hcond.2
    obtain ⟨hprioq, hk8⟩ := hinv.linked.prio k p hk
    have hlt : ((s.setSe p f).se p).runqueuePrio.toNat < 8 := by
      rw [hself, hqueue, hprioq]
      exact hk8
    have hfields := weightFields_schedDequeue hlt
    refine placed_schedEnqueue (fun x hx hlx => ?_) ?_
    · have hlx : Live s x := ((keeps_schedDequeue (s.setSe p f) p).live x).mp hlx
      have hx' := hfields x
      rw [if_neg hx, hother x hx] at hx'
      exact (h x hlx).congr hx'
    · have hp := hfields p
      rw [if_pos rfl, hself] at hp
      simp only [weightFields, Prod.mk.injEq] at hp
      rw [hp.2.1]
      exact hprio
  · rename_i hcond
    rw [setSe_state, hself, hflag] at hcond
    -- A process that is marked as queued is runnable, so this one is not.
    have hout : (s.se p).inRunqueue = 0 := by
      by_contra hne
      obtain ⟨k, hk⟩ := (hinv.linked.flag p hlive).mp hne
      have hcurr : s.rq.curr ≠ some p := fun heq => (hinv.curr p heq).2.1 k hk
      exact hcond ⟨(hinv.runnable p hlive hcurr).mpr ⟨k, hk⟩, hne⟩
    refine h.write (fun x hx => hx) hother ?_
    rw [hself]
    exact placedSe_out hprio (hflag.trans hout)

theorem Placed.wakeup (hlive : Live s p) : Placed (schedWakeup s p) := by
  unfold schedWakeup
  split
  · exact h
  · refine placed_schedEnqueue (fun x hx hlx => ?_) ?_
    · rw [SchedState.se, setProc_procs, if_neg hx]
      exact h x hlx
    · rw [SchedState.se, setProc_procs, if_pos rfl]
      exact schedUpdatePriority_lt (h p hlive).1

theorem Placed.setState (p : ProcPtr) (st : ProcessState) :
    Placed (s.setState p st) := h.congr (fun _ hx => hx) fun x => by rw [setState_se]

theorem Placed.setSe (p : ProcPtr) (hf : ∀ se, weightFields (f se) = weightFields se) :
    Placed (s.setSe p f) := by
  refine h.congr (fun _ hx => hx) fun x => ?_
  rw [setSe_se]
  split
  · exact hf _
  · rfl

theorem Placed.preempt : Placed (schedulerPreempt s) := by
  unfold schedulerPreempt
  split
  · exact h
  · split
    · exact h.setState _ _
    · exact h

theorem Placed.updateVruntime (p : ProcPtr) (delta : UInt64) :
    Placed (schedUpdateVruntime s p delta) :=
  h.congr (fun x hx => (live_schedUpdateVruntime s p delta x).mp hx)
    (weightFields_schedUpdateVruntime s p delta)

theorem Placed.tick (now : UInt64) : Placed (schedulerTick s now) :=
  schedulerTick_induct (P := Placed) h (fun p => (h.updateVruntime p _).setSe p fun _ => rfl)
    fun _ ht => ht.preempt

end

theorem Placed.reap {j : Nat} (h : Placed s) (ht : Table s) (hj : s.processes j = some p) :
    Placed (reapProcess s p j) := by
  obtain ⟨-, hlive, -, hse, -⟩ := reapProcess_table ht hj
  refine h.congr (fun x hx => ((hlive x).mp hx).1) fun x => ?_
  rw [hse]

theorem Placed.reclaim (h : Placed s) (hinv : Inv s q) (hc : s.rq.curr = none) (turns i : Nat) :
    Placed (reclaimFrom s turns i) := by
  refine (reclaimFrom_induct (P := fun t => Placed t ∧ Inv t q ∧ t.rq.curr = none) ?_
    ⟨h, hinv, hc⟩ turns i).1
  rintro t i p ⟨h, hinv, hc⟩ - hp hst
  exact ⟨h.reap hinv.table hp, hinv.reap hc (hinv.exited_not_queued hc hp hst).2 hp⟩

theorem Placed.switchTo (h : Placed s) (hinv : Inv s q) (hp : p ∈ q k) (now : UInt64) :
    Placed (switchTo s p now) := by
  obtain ⟨hk, hk8⟩ := hinv.linked.prio k p hp
  have hfields := weightFields_schedDequeue (hk ▸ hk8)
  have hdequeued : Placed (schedDequeue s p) := by
    intro x hx
    have hx := h x (((keeps_schedDequeue s p).live x).mp hx)
    have hfx := hfields x
    by_cases hxp : x = p
    · rw [if_pos hxp] at hfx
      simp only [weightFields, Prod.mk.injEq] at hfx
      rw [hxp] at hx hfx ⊢
      exact placedSe_out (by rw [hfx.2.1]; exact hx.1) hfx.1
    · rw [if_neg hxp] at hfx
      exact hx.congr hfx
  have hcurr : Placed ((schedDequeue s p).setCurr (some p)) :=
    hdequeued.congr (fun _ hx => hx) fun _ => rfl
  exact (hcurr.setState p .RUNNING).setSe p fun _ => rfl

theorem Placed.loop (h : Placed s) (hinv : Inv s q) (hc : s.rq.curr = none)
    (hs : schedulerLoop s now = some s') : Placed s' := by
  rcases schedulerLoop_cases hinv hc hs with rfl | rfl | ⟨p, k, hk, rfl⟩
  · exact h
  · exact h.reclaim hinv hc _ _
  · exact h.switchTo hinv hk now

theorem Placed.account (h : Placed s) (hlive : Live s p) (hout : (s.se p).inRunqueue = 0)
    (now : UInt64) : Placed (accountRun s p now) := by
  have hrun := h.updateVruntime p (now - (s.se p).execStart)
  have hp := hrun p ((live_schedUpdateVruntime s p _ p).mpr hlive)
  have hfields := weightFields_schedUpdateVruntime s p (now - (s.se p).execStart) p
  simp only [weightFields, Prod.mk.injEq] at hfields
  unfold accountRun
  refine hrun.write (fun _ hx => hx) (fun x hx => by rw [setSe_se, if_neg hx]) ?_
  rw [setSe_se, if_pos rfl]
  refine placedSe_out (schedUpdatePriority_lt ?_) ?_
  · rw [dynamicPriority_schedCheckInteractive]
    exact hp.1
  · rw [(flag_of_queueFields (queueFields_schedUpdatePriority _)).1,
      (flag_of_queueFields (queueFields_schedCheckInteractive _)).1, hfields.1]
    exact hout

theorem Placed.resume (h : Placed s) (hinv : Inv s q) (hc : s.rq.curr = some p) (now : UInt64) :
    Placed (resumeScheduler s p now) := by
  obtain ⟨hlive, hp, -⟩ := hinv.curr p hc
  have hrun := h.account hlive (hinv.linked.flag_eq_zero hlive hp) now
  have hkeeps := keeps_accountRun s p now
  have hlive' := (hkeeps.live p).mpr hlive
  have hreturn : Placed (handleReturn (accountRun s p now) p) := by
    unfold handleReturn
    split
    · exact hrun.enqueue hlive'
    · exact hrun
    · exact hrun.reap (hinv.table.congr hkeeps)
        (((hinv.table.congr hkeeps).live_iff p).mp hlive')
    · exact hrun
    · exact (hrun.setState p .RUNNABLE).enqueue hlive'
    · exact (hrun.setState p .RUNNABLE).enqueue hlive'
  exact hreturn.congr (fun _ hx => hx) fun _ => rfl

/-- The steps keep the processes in the queues of their priorities. -/
theorem Placed.step {a : Act} (h : Placed s) (hinv : Inv s q) (ha : isSleep a = false)
    (hs : step s a = some s') : Placed s' := by
  cases step_cases hs with
  | sleep => cases ha
  | @fork p hlive hst =>
    have hc : s.rq.curr ≠ some p := fun heq => (hinv.curr p heq).2.2.2.1 hst
    have hself : ((schedFork s p).se p).dynamicPriority = PRIO_NORMAL_MIN ∧
        ((schedFork s p).se p).inRunqueue = 0 := by
      rw [schedFork, setSe_se, if_pos rfl]
      exact ⟨rfl, rfl⟩
    refine h.write (fun _ hx => hx) (fun x hx => by rw [schedFork, setSe_se, if_neg hx]) ?_
    refine placedSe_out ?_ hself.2
    rw [hself.1]
    decide
  | wakeup hlive => exact h.wakeup hlive
  | @setPriority p prio hlive =>
    unfold schedSetPriority
    split
    · exact h
    · rename_i hge
      exact h.requeue hinv hlive rfl (UInt8.not_le.mp hge)
  | @nice p n hlive =>
    exact h.requeue hinv hlive (queueFields_schedUpdatePriority _)
      (schedUpdatePriority_lt (h p hlive).1)
  | tick => exact h.tick _
  | yield => exact h.setState _ _
  | exit => exact h.setState _ _
  | schedule hc hloop => exact h.loop hinv hc hloop
  | resume hc => exact h.resume hinv hc _

theorem placed_allocated {s s' : ProcState} (h : Placed s.sched) (ha : Allocated s s' p) :
    Placed s'.sched := by
  intro x hx
  by_cases hxp : x = p
  · rw [hxp, SchedState.se, ha.new]
    exact placedSe_out (show (0 : UInt8) < 8 by decide) rfl
  · rw [SchedState.se, ha.old x hxp]
    exact h x (((ha.live x).mp hx).resolve_left hxp)

/-! ### The steps and the order of the queues -/

/-- The processes that a step passes to `sched_enqueue`, in this order. -/
def enqueues (s : SchedState) : Act → List ProcPtr
  | .wakeup p =>
    if (s.procs p).state ≠ .SLEEPING ∧ (s.procs p).state ≠ .USED then [] else [p]
  | .setPriority p prio =>
    if prio ≥ SCHED_PRIORITY_LEVELS then []
    else if (s.procs p).state = .RUNNABLE ∧ (s.se p).inRunqueue ≠ 0 then [p] else []
  | .nice p _ => if (s.procs p).state = .RUNNABLE ∧ (s.se p).inRunqueue ≠ 0 then [p] else []
  | .schedule _ =>
    if s.rq.totalRunnable = 0 then
      (List.range s.processCount).filterMap fun i => (s.processes i).filter fun p =>
        (s.procs p).state = .RUNNABLE ∧ (s.se p).inRunqueue = 0
    else []
  | .resume _ =>
    s.rq.curr.toList.filter fun p =>
      (s.procs p).state = .RUNNABLE ∨ (s.procs p).state = .UNUSED ∨ (s.procs p).state = .USED
  | .fork _ | .sleep _ _ | .tick _ | .yield | .exit => []

/-- The calls of a step go to the front of the log, the last one first. -/
def logCalls (calls log : List ProcPtr) : List ProcPtr := calls.reverse ++ log

section
variable {log : List ProcPtr}

/-- A call that writes a priority moves an enqueued process to the end of a queue. -/
theorem inOrder_requeue (hord : ∀ k, InOrder log (q k)) (hinv : Inv s q) (hlive : Live s p)
    (hf : queueFields (f (s.se p)) = queueFields (s.se p))
    (hl' : Linked (requeueIfQueued (s.setSe p f) p) q') (k : Nat) :
    InOrder (logCalls (if (s.procs p).state = .RUNNABLE ∧ (s.se p).inRunqueue ≠ 0 then [p] else [])
      log) (q' k) := by
  have hflag : ((s.setSe p f).se p).inRunqueue = (s.se p).inRunqueue := by
    rw [setSe_se, if_pos rfl, (flag_of_queueFields hf).1]
  have hset := hinv.setSe p hf
  unfold requeueIfQueued at hl'
  rw [setSe_state, hflag] at hl'
  split at hl'
  · rename_i hcond
    rw [if_pos hcond]
    obtain ⟨i, hi⟩ := (hinv.linked.flag p hlive).mp hcond.2
    have hdeq := keeps_schedDequeue (s.setSe p f) p
    have hlinked := schedDequeue_linked hset.linked hi
    have hnot : ∀ j, p ∉ Function.update q i ((q i).erase p) j := fun j hj =>
      ((hset.linked.mem_dequeued hi).mp hj).2 rfl
    have hlinked' := schedEnqueue_linked hlinked (hset.table.congr hdeq)
      ((hdeq.live p).mpr hlive) hnot rfl
    rw [queues_unique hlinked' hl']
    exact inOrder_enqueued (inOrder_dequeued hord p i) hnot _ k
  · rename_i hcond
    rw [if_neg hcond, queues_unique hset.linked hl']
    exact hord k

theorem inOrder_wakeup (hord : ∀ k, InOrder log (q k)) (hinv : Inv s q) (hlive : Live s p)
    (hl' : Linked (schedWakeup s p) q') (k : Nat) :
    InOrder (logCalls (enqueues s (.wakeup p)) log) (q' k) := by
  unfold schedWakeup at hl'
  split at hl'
  · rename_i hst
    rw [enqueues, if_pos hst, queues_unique hinv.linked hl']
    exact hord k
  · rename_i hst
    obtain ⟨-, hp, hflag⟩ := hinv.waiting hlive hst
    have hbut := (hinv.but p).setProc hp rfl hflag
    have hlinked := schedEnqueue_linked hbut.linked hbut.table hlive hp rfl
    rw [enqueues, if_neg hst, queues_unique hlinked hl']
    exact inOrder_enqueued hord hp _ k

/-- While no process runs, the main loop has no process to put back. -/
theorem enqueues_schedule (hinv : Inv s q) (hc : s.rq.curr = none) (now : UInt64) :
    enqueues s (.schedule now) = [] := by
  rw [enqueues]
  split
  · refine List.filterMap_eq_nil_iff.mpr fun i hi => Option.filter_eq_none_iff.mpr ?_
    intro p hp hcond
    obtain ⟨hst, hflag⟩ := of_decide_eq_true hcond
    have hlive : Live s p := ⟨i, List.mem_range.mp hi, hp⟩
    have hmem := (hinv.runnable p hlive (by simp [hc])).mp hst
    exact (hinv.linked.flag p hlive).mpr hmem hflag
  · rfl

section

variable (hord : ∀ k, InOrder log (q k)) (hinv : Inv s q)

include hord hinv

theorem inOrder_loop (hc : s.rq.curr = none) (hs : schedulerLoop s now = some s')
    (hl' : Linked s' q') (k : Nat) :
    InOrder (logCalls (enqueues s (.schedule now)) log) (q' k) := by
  rw [enqueues_schedule hinv hc]
  show InOrder log (q' k)
  rcases schedulerLoop_cases hinv hc hs with rfl | rfl | ⟨p, i, hi, rfl⟩
  · rw [queues_unique hinv.linked hl']
    exact hord k
  · rw [queues_unique (reclaimFrom_inv hinv hc _ _).linked hl']
    exact hord k
  · have hlinked := schedDequeue_linked hinv.linked hi
    have hq' : q' = Function.update q i ((q i).erase p) := by
      refine queues_eq hlinked hl' (fun _ x _ => ?_) rfl
      -- The switch writes no links.
      rw [switchTo, setSe_se]
      split
      · rw [setState_se]
        exact ⟨rfl, rfl⟩
      · rw [setState_se]
        exact ⟨rfl, rfl⟩
    rw [hq']
    exact inOrder_dequeued hord p i k

/-- A process that comes back is enqueued behind the others of its priority. -/
theorem inOrder_resume (hc : s.rq.curr = some p) (hl' : Linked (resumeScheduler s p now) q')
    (k : Nat) : InOrder (logCalls (enqueues s (.resume now)) log) (q' k) := by
  obtain ⟨hlive, hp, -⟩ := hinv.curr p hc
  have hkeeps := keeps_accountRun s p now
  have hrun := accountRun_inv hinv p now
  have hlive' := (hkeeps.live p).mpr hlive
  rw [enqueues, hc, Option.toList_some]
  unfold resumeScheduler at hl'
  generalize accountRun s p now = t at hkeeps hrun hlive' hl'
  have hwritten : ∀ st, InvBut (t.setState p st) q p := fun st =>
    (hrun.but p).setProc hp rfl (hrun.linked.flag_eq_zero hlive' hp)
  -- The queues of the state before the current process is forgotten.
  have hback : ∀ {u : SchedState} {q₁ : Nat → List ProcPtr}, Linked u q₁ →
      Linked (u.setCurr none) q' → q' = q₁ := fun hu hl =>
    queues_eq hu hl (fun _ _ _ => ⟨rfl, rfl⟩) rfl
  have hsame : Linked (t.setCurr none) q' → InOrder log (q' k) := by
    intro hl
    rw [hback hrun.linked hl]
    exact hord k
  have hqueued : ∀ {u : SchedState}, InvBut u q p → Live u p →
      Linked ((schedEnqueue u p).setCurr none) q' → InOrder (p :: log) (q' k) := by
    intro u hbut hliveu hl
    rw [hback (schedEnqueue_linked hbut.linked hbut.table hliveu hp rfl) hl]
    exact inOrder_enqueued hord hp _ k
  unfold handleReturn at hl'
  rw [hkeeps.state] at hl'
  cases hst : (s.procs p).state with
  | RUNNABLE =>
    rw [List.filter_cons_of_pos (by simp [hst])]
    rw [hst] at hl'
    exact hqueued (hrun.but p) hlive' hl'
  | SLEEPING =>
    rw [List.filter_cons_of_neg (by simp [hst])]
    rw [hst] at hl'
    exact hsame hl'
  | EXITED =>
    rw [List.filter_cons_of_neg (by simp [hst])]
    rw [hst] at hl'
    change Linked ((reapProcess t p (t.procs p).i).setCurr none) q' at hl'
    obtain ⟨-, -, hrq, hse, -⟩ := reapProcess_table hrun.table ((hrun.table.live_iff p).mp hlive')
    have hq' : q' = q := by
      refine queues_eq hrun.linked hl' (fun _ x _ => ?_) (congrArg (·.queueHeads) hrq)
      exact ⟨congrArg (·.next) (hse x), congrArg (·.prev) (hse x)⟩
    rw [hq']
    exact hord k
  | RUNNING =>
    rw [List.filter_cons_of_neg (by simp [hst])]
    rw [hst] at hl'
    exact hsame hl'
  | UNUSED =>
    rw [List.filter_cons_of_pos (by simp [hst])]
    rw [hst] at hl'
    exact hqueued (hwritten .RUNNABLE) hlive' hl'
  | USED =>
    rw [List.filter_cons_of_pos (by simp [hst])]
    rw [hst] at hl'
    exact hqueued (hwritten .RUNNABLE) hlive' hl'

/-- The steps keep the queues in the order of the calls. -/
theorem inOrder_step {a : Act} (ha : isSleep a = false) (hs : step s a = some s')
    (hl' : Linked s' q') (k : Nat) : InOrder (logCalls (enqueues s a) log) (q' k) := by
  cases step_cases hs with
  | sleep => cases ha
  | @fork p hlive hst =>
    have hc : s.rq.curr ≠ some p := fun heq => (hinv.curr p heq).2.2.2.1 hst
    have hp := hinv.not_queued hlive hc (by rw [hst]; decide)
    have hq' : q' = q := by
      refine queues_eq hinv.linked hl' (fun j x hx => ?_) rfl
      rw [schedFork, setSe_se, if_neg (ne_of_mem_of_not_mem hx (hp j))]
      exact ⟨rfl, rfl⟩
    rw [hq']
    exact hord k
  | wakeup hlive => exact inOrder_wakeup hord hinv hlive hl' k
  | @setPriority p prio hlive =>
    unfold schedSetPriority at hl'
    rw [enqueues]
    split at hl'
    · rename_i hge
      rw [if_pos hge, queues_unique hinv.linked hl']
      exact hord k
    · rename_i hge
      rw [if_neg hge]
      exact inOrder_requeue hord hinv hlive rfl hl' k
  | @nice p n hlive =>
    exact inOrder_requeue (f := fun se => schedUpdatePriority { se with nice := clampNice n })
      hord hinv hlive (queueFields_schedUpdatePriority _) hl' k
  | tick =>
    rw [queues_unique (schedulerTick_inv hinv _).linked hl']
    exact hord k
  | yield hp =>
    rw [queues_unique (setState_inv hinv (executing_eq_some hp).1 (by decide) (by decide)).linked
      hl']
    exact hord k
  | exit hp =>
    rw [queues_unique (setState_inv hinv (executing_eq_some hp).1 (by decide) (by decide)).linked
      hl']
    exact hord k
  | schedule hc hloop => exact inOrder_loop hord hinv hc hloop hl' k
  | resume hc => exact inOrder_resume hord hinv hc hl' k

end

end

end

/-! ### Runs -/

/-- The scheduler with the log of the calls of `sched_enqueue`. -/
structure Logged where
  machine : ProcState
  log : List ProcPtr

/-- One step, or `none` when it panics or cannot happen. An allocation enqueues nothing. -/
def loggedStep (t : Logged) (act : MachineAct) : Option Logged :=
  (machineStep t.machine act).map fun s =>
    { machine := s
      log := match act with
        | .sched a => logCalls (enqueues t.machine.sched a) t.log
        | .allocate _ _ => t.log }

/-- The invariant: of the machine, and of the queues with the log. -/
structure LoggedInv (t : Logged) : Prop where
  machine : MachineInv t.machine
  placed : Placed t.machine.sched
  order : ∀ q, Linked t.machine.sched q → ∀ k, InOrder t.log (q k)

theorem LoggedInv.picksBest {t : Logged} (h : LoggedInv t) : PicksBest t.machine.sched t.log := by
  obtain ⟨q, hinv⟩ := h.machine.queues
  exact PickNext.picksBest hinv.linked hinv.table h.placed (h.order q hinv.linked)

theorem LoggedInv.step {t t' : Logged} {act : MachineAct} (h : LoggedInv t)
    (hact : sleeps act = false) (hs : loggedStep t act = some t') : LoggedInv t' := by
  obtain ⟨s, hstep, rfl⟩ := Option.map_eq_some_iff.mp hs
  have hmachine := machineStep_inv h.machine hact hstep
  obtain ⟨q, hinv⟩ := h.machine.queues
  have hord := h.order q hinv.linked
  rcases machineStep_cases h.machine hstep with ⟨a, u, rfl, hu, rfl⟩ | ⟨p, pages, rfl, hp, ha⟩
  · exact ⟨hmachine, h.placed.step hinv hact hu, fun q' hl' => inOrder_step hord hinv hact hu hl'⟩
  · refine ⟨hmachine, placed_allocated h.placed ha, fun q' hl' => ?_⟩
    rw [queues_unique (Inv.allocated hinv hp ha).linked hl']
    exact hord

theorem loggedInv_start {s : ProcState} (h : Start s) : LoggedInv ⟨s, []⟩ where
  machine := ⟨⟨_, h.boot.inv⟩, h.hint⟩
  placed p hp := placedSe_out (h.prio p hp) (h.boot.new p hp).2
  order q hl k := by
    rw [queues_unique h.boot.inv.linked hl]
    exact List.Pairwise.nil

/-- In every state that a run without `sched_sleep` reaches from an empty run queue,
`sched_pick_next` picks the best candidate. -/
theorem pickNext_best (s₀ : ProcState) (acts : List MachineAct) (hstart : Start s₀)
    (hsleep : ∀ act ∈ acts, sleeps act = false) :
    Throughout loggedStep ⟨s₀, []⟩ acts fun t => PicksBest t.machine.sched t.log := by
  have hacts : EachCall loggedStep ⟨s₀, []⟩ acts fun _ act => sleeps act = false :=
    fun front act t hfront _ =>
      hsleep act (hfront.subset (List.mem_append_right front List.mem_cons_self))
  have hinv : Throughout loggedStep ⟨s₀, []⟩ acts LoggedInv := by
    refine throughout_of_invariant (F := fun _ => True) ?_ (loggedInv_start hstart) hacts
      fun _ _ _ _ => trivial
    intro t act t' h hact hs _
    exact h.step hact hs
  exact hinv.mono fun t h => h.picksBest

/-- Two processes get a real-time priority, and the second one runs and goes back. -/
def turnCalls : List MachineAct :=
  [.sched (.fork 1), .sched (.wakeup 1), .sched (.fork 2), .sched (.wakeup 2),
    .sched (.setPriority 2 1), .sched (.setPriority 1 1), .sched (.schedule 10), .sched .yield,
    .sched (.resume 500)]

/-- At the end, the first process has waited for longer. -/
theorem pickNext_best_turn :
    (Throughout loggedStep ⟨twoNew, []⟩ turnCalls fun t => PicksBest t.machine.sched t.log) ∧
      (runSteps loggedStep ⟨twoNew, []⟩ turnCalls).map (fun t =>
        (schedPickNext t.machine.sched, t.log)) = some (some (some 1), [2, 1, 2, 2, 1]) :=
  ⟨pickNext_best twoNew turnCalls twoNew_start (by decide), by decide +kernel⟩

end DzOS.Proofs.Sched.PickNext
