import DzOS.Lib.DList
import DzOS.Sched.Scheduler

/-!
# `DzOS.Proofs.Sched.Queue`: the operations of the run queue

`Linked s q` states that the run queue of `s` holds the queues `q`: the links chain each queue
in order, and the flags and the counters agree with the queues. `schedEnqueue_linked` and
`schedDequeue_linked` give the queues after the two operations, as operations on lists. Both
have the condition that makes them right: an entity must not be queued when it is enqueued,
and must be queued when it is dequeued. The functions do not check it.

`schedPickNext_spec` states that the walk of `schedPickNext` ends and which process of the first
queue that is not empty it returns. A run needs no more of it than `schedPickNext_linked`.

`Table s` states that the process table has no gap, and `reapProcess_table` that the removal
of a process keeps it so. The table bounds the number of processes, and with it the counters
(`Linked.sum_length_le`).
-/

set_option autoImplicit false

namespace DzOS.Proofs.Sched

open DzOS.Lib DzOS.Sched

variable {p : ProcPtr} {P : SchedState → Prop} {k : Nat} {l : List ProcPtr} {s s' : SchedState}

/-! ### Writes to one process -/

section

variable (s : SchedState)

@[simp] theorem setProc_procs (p x : ProcPtr) (f : Process → Process) :
    (s.setProc p f).procs x = if x = p then f (s.procs x) else s.procs x := by
  by_cases h : x = p
  · subst h
    simp [SchedState.setProc]
  · simp [SchedState.setProc, h]

@[simp] theorem setProc_rq (p : ProcPtr) (f : Process → Process) :
    (s.setProc p f).rq = s.rq := rfl

@[simp] theorem setProc_processes (p : ProcPtr) (f : Process → Process) :
    (s.setProc p f).processes = s.processes := rfl

@[simp] theorem setProc_processCount (p : ProcPtr) (f : Process → Process) :
    (s.setProc p f).processCount = s.processCount := rfl

section

variable (p x : ProcPtr) (f : SchedEntity → SchedEntity)

@[simp] theorem setSe_se : (s.setSe p f).se x = if x = p then f (s.se x) else s.se x := by
  simp only [SchedState.se, SchedState.setSe, setProc_procs]
  split <;> rfl

@[simp] theorem setSe_state : ((s.setSe p f).procs x).state = (s.procs x).state := by
  simp only [SchedState.setSe, setProc_procs]
  split <;> rfl

@[simp] theorem setSe_i : ((s.setSe p f).procs x).i = (s.procs x).i := by
  simp only [SchedState.setSe, setProc_procs]
  split <;> rfl

end

section

variable (p : ProcPtr) (f : SchedEntity → SchedEntity)

@[simp] theorem setSe_rq :
    (s.setSe p f).rq = s.rq := rfl

@[simp] theorem setSe_processes :
    (s.setSe p f).processes = s.processes := rfl

@[simp] theorem setSe_processCount :
    (s.setSe p f).processCount = s.processCount := rfl

end

@[simp] theorem setState_se (p x : ProcPtr) (st : ProcessState) :
    (s.setState p st).se x = s.se x := by
  simp only [SchedState.se, SchedState.setState, setProc_procs]
  split <;> rfl

@[simp] theorem setState_state (p x : ProcPtr) (st : ProcessState) :
    ((s.setState p st).procs x).state = if x = p then st else (s.procs x).state := by
  simp only [SchedState.setState, setProc_procs]
  split <;> rfl

@[simp] theorem setState_i (p x : ProcPtr) (st : ProcessState) :
    ((s.setState p st).procs x).i = (s.procs x).i := by
  simp only [SchedState.setState, setProc_procs]
  split <;> rfl

@[simp] theorem setState_rq (p : ProcPtr) (st : ProcessState) :
    (s.setState p st).rq = s.rq := rfl

@[simp] theorem setState_processes (p : ProcPtr) (st : ProcessState) :
    (s.setState p st).processes = s.processes := rfl

@[simp] theorem setState_processCount (p : ProcPtr) (st : ProcessState) :
    (s.setState p st).processCount = s.processCount := rfl

@[simp] theorem setHead_se (k : Nat) (e : Option ProcPtr) (x : ProcPtr) :
    (s.setHead k e).se x = s.se x := rfl

@[simp] theorem setTail_se (k : Nat) (e : Option ProcPtr) (x : ProcPtr) :
    (s.setTail k e).se x = s.se x := rfl

@[simp] theorem countIn_se (k : Nat) (p x : ProcPtr) :
    (countIn s k p).se x = s.se x := rfl

@[simp] theorem countOut_se (k : Nat) (p x : ProcPtr) :
    (countOut s k p).se x = s.se x := rfl

end

/-! ### What the operations write -/

/-- `s'` has the table and the current process of `s`, and the states, slots and channels of the
processes. The operations of the run queue write none of these. -/
structure Keeps (s s' : SchedState) : Prop where
  processes : s'.processes = s.processes
  processCount : s'.processCount = s.processCount
  processMinIndex : s'.processMinIndex = s.processMinIndex
  curr : s'.rq.curr = s.rq.curr
  state : ∀ x, (s'.procs x).state = (s.procs x).state
  index : ∀ x, (s'.procs x).i = (s.procs x).i
  channel : ∀ x, (s'.procs x).waitingChannel = (s.procs x).waitingChannel

/-- A write to the run queue that leaves the current process. -/
theorem keeps_queue {rq : Runqueue} (h : rq.curr = s.rq.curr) : Keeps s { s with rq := rq } :=
  ⟨rfl, rfl, rfl, h, fun _ => rfl, fun _ => rfl, fun _ => rfl⟩

theorem Keeps.refl (s : SchedState) : Keeps s s := keeps_queue rfl

theorem Keeps.trans {s'' : SchedState} (h : Keeps s s') (h' : Keeps s' s'') :
    Keeps s s'' where
  processes := h'.processes.trans h.processes
  processCount := h'.processCount.trans h.processCount
  processMinIndex := h'.processMinIndex.trans h.processMinIndex
  curr := h'.curr.trans h.curr
  state x := (h'.state x).trans (h.state x)
  index x := (h'.index x).trans (h.index x)
  channel x := (h'.channel x).trans (h.channel x)

theorem Keeps.live (h : Keeps s s') (x : ProcPtr) : Live s' x ↔ Live s x := by
  simp only [Live, h.processes, h.processCount]

theorem keeps_setSe (s : SchedState) (p : ProcPtr) (f : SchedEntity → SchedEntity) :
    Keeps s (s.setSe p f) := by
  refine ⟨rfl, rfl, rfl, rfl, (setSe_state s p · f), (setSe_i s p · f), fun x => ?_⟩
  simp only [SchedState.setSe, setProc_procs]
  split <;> rfl

section
variable (s : SchedState) (k : Nat) (p x : ProcPtr)

theorem keeps_linkTail : Keeps s (linkTail s k p) := by
  unfold linkTail
  split
  · exact keeps_setSe ..
  · exact keeps_queue rfl

theorem keeps_unlinkLeft : Keeps s (unlinkLeft s k p) := by
  unfold unlinkLeft
  split
  · exact keeps_setSe ..
  · exact keeps_queue rfl

theorem keeps_unlinkRight : Keeps s (unlinkRight s k p) := by
  unfold unlinkRight
  split
  · exact keeps_setSe ..
  · exact keeps_queue rfl

theorem keeps_schedEnqueue : Keeps s (schedEnqueue s p) :=
  (keeps_setSe ..).trans <| (keeps_linkTail ..).trans (keeps_queue rfl)

theorem keeps_schedDequeue : Keeps s (schedDequeue s p) := by
  unfold schedDequeue
  simp only
  split
  · exact Keeps.refl s
  · exact (keeps_unlinkLeft ..).trans <| (keeps_unlinkRight ..).trans <|
      (keeps_setSe ..).trans (keeps_queue rfl)

theorem keeps_schedFork : Keeps s (schedFork s p) := by
  unfold schedFork
  exact keeps_setSe ..

theorem keeps_requeueIfQueued : Keeps s (requeueIfQueued s p) := by
  unfold requeueIfQueued
  split
  · exact (keeps_schedDequeue s p).trans (keeps_schedEnqueue _ p)
  · exact Keeps.refl s

theorem keeps_schedSetPriority (prio : UInt8) : Keeps s (schedSetPriority s p prio) := by
  unfold schedSetPriority
  split
  · exact Keeps.refl s
  · exact (keeps_setSe ..).trans (keeps_requeueIfQueued _ p)

theorem keeps_schedNice (nice : Int8) : Keeps s (schedNice s p nice) := by
  unfold schedNice
  exact (keeps_setSe ..).trans (keeps_requeueIfQueued _ p)

theorem keeps_schedUpdateVruntime (delta : UInt64) : Keeps s (schedUpdateVruntime s p delta) := by
  unfold schedUpdateVruntime
  simp only
  split
  · exact (keeps_setSe ..).trans (keeps_queue rfl)
  · exact keeps_setSe ..

theorem keeps_accountRun (now : UInt64) : Keeps s (accountRun s p now) :=
  (keeps_schedUpdateVruntime ..).trans (keeps_setSe ..)

theorem keeps_rebuild : Keeps s (rebuild s) := by
  unfold rebuild
  generalize List.range s.processCount = slots
  induction slots generalizing s with
  | nil => exact Keeps.refl s
  | cons i slots ih =>
    refine Keeps.trans ?_ (ih (rebuildSlot s i))
    unfold rebuildSlot
    split
    · exact Keeps.refl s
    · split
      · exact (keeps_setSe ..).trans (keeps_schedEnqueue ..)
      · exact Keeps.refl s

/-- The timer interrupt may account for the time of the current process, and may preempt it then. -/
theorem schedulerTick_induct {P : SchedState → Prop} {s : SchedState} {now : UInt64} (h : P s)
    (hrun : ∀ p, P ((schedUpdateVruntime s p (now - (s.se p).execStart)).setSe p fun se =>
      { se with execStart := now })) (hpreempt : ∀ t, P t → P (schedulerPreempt t)) :
    P (schedulerTick s now) := by
  unfold schedulerTick
  split
  · exact h
  · rename_i p _
    split
    · exact h
    dsimp only
    split <;> split
    · exact hpreempt _ (hrun p)
    · exact hrun p
    · exact hpreempt _ h
    · exact h

/-- The loop that reclaims processes removes one exited process after the other. -/
theorem reclaimFrom_induct
    (hreap : ∀ s i p, P s → i < s.processCount → s.processes i = some p →
      (s.procs p).state = .EXITED → P (reapProcess s p i))
    {s : SchedState} (h : P s) (turns i : Nat) : P (reclaimFrom s turns i) := by
  induction turns generalizing s i with
  | zero => exact h
  | succ turns ih =>
    unfold reclaimFrom
    split
    · rename_i hi
      cases hp : s.processes i with
      | none => exact ih h (i + 1)
      | some p =>
        dsimp only
        split
        · rename_i hst
          exact ih (hreap s i p h hi hp hst) i
        · exact ih h (i + 1)
    · exact h

@[simp] theorem linkTail_se : (linkTail s k p).se x =
    if s.rq.queueTails k = some x then { s.se x with next := some p } else s.se x := by
  unfold linkTail
  cases s.rq.queueTails k with
  | none => simp
  | some t => simp [eq_comm]

@[simp] theorem linkTail_tails : (linkTail s k p).rq.queueTails = s.rq.queueTails := by
  unfold linkTail
  split <;> rfl

@[simp] theorem linkTail_heads : (linkTail s k p).rq.queueHeads =
    Function.update s.rq.queueHeads k
      (if (s.rq.queueTails k).isSome then s.rq.queueHeads k else some p) := by
  unfold linkTail
  cases s.rq.queueTails k with
  | none => rfl
  | some t => simp

@[simp] theorem linkTail_sizes : (linkTail s k p).rq.queueSizes = s.rq.queueSizes := by
  unfold linkTail
  split <;> rfl

@[simp] theorem linkTail_total : (linkTail s k p).rq.totalRunnable = s.rq.totalRunnable := by
  unfold linkTail
  split <;> rfl

@[simp] theorem unlinkLeft_se : (unlinkLeft s k p).se x =
    if (s.se p).prev = some x then { s.se x with next := (s.se p).next } else s.se x := by
  unfold unlinkLeft
  cases (s.se p).prev with
  | none => simp
  | some b => simp [eq_comm]

@[simp] theorem unlinkLeft_heads : (unlinkLeft s k p).rq.queueHeads =
    Function.update s.rq.queueHeads k
      (if (s.se p).prev.isSome then s.rq.queueHeads k else (s.se p).next) := by
  unfold unlinkLeft
  cases (s.se p).prev with
  | none => rfl
  | some b => simp

@[simp] theorem unlinkLeft_tails : (unlinkLeft s k p).rq.queueTails = s.rq.queueTails := by
  unfold unlinkLeft
  split <;> rfl

@[simp] theorem unlinkLeft_sizes : (unlinkLeft s k p).rq.queueSizes = s.rq.queueSizes := by
  unfold unlinkLeft
  split <;> rfl

@[simp] theorem unlinkLeft_total :
    (unlinkLeft s k p).rq.totalRunnable = s.rq.totalRunnable := by
  unfold unlinkLeft
  split <;> rfl

@[simp] theorem unlinkRight_se : (unlinkRight s k p).se x =
    if (s.se p).next = some x then { s.se x with prev := (s.se p).prev } else s.se x := by
  unfold unlinkRight
  cases (s.se p).next with
  | none => simp
  | some a => simp [eq_comm]

@[simp] theorem unlinkRight_tails : (unlinkRight s k p).rq.queueTails =
    Function.update s.rq.queueTails k
      (if (s.se p).next.isSome then s.rq.queueTails k else (s.se p).prev) := by
  unfold unlinkRight
  cases (s.se p).next with
  | none => rfl
  | some b => simp

@[simp] theorem unlinkRight_heads : (unlinkRight s k p).rq.queueHeads = s.rq.queueHeads := by
  unfold unlinkRight
  split <;> rfl

@[simp] theorem unlinkRight_sizes : (unlinkRight s k p).rq.queueSizes = s.rq.queueSizes := by
  unfold unlinkRight
  split <;> rfl

@[simp] theorem unlinkRight_total :
    (unlinkRight s k p).rq.totalRunnable = s.rq.totalRunnable := by
  unfold unlinkRight
  split <;> rfl

end

theorem enqueuePrio_lt (se : SchedEntity) : enqueuePrio se < 8 := by
  unfold enqueuePrio
  split
  · decide
  · rename_i h
    simpa [SCHED_PRIORITY_LEVELS, UInt8.lt_iff_toNat_lt] using h

/-- The entities after `schedEnqueue`. -/
theorem schedEnqueue_se (s : SchedState) (p x : ProcPtr) :
    (schedEnqueue s p).se x = { s.se x with
      next := if s.rq.queueTails (enqueuePrio (s.se p)) = some x then some p
        else if x = p then none else (s.se x).next
      prev := if x = p then s.rq.queueTails (enqueuePrio (s.se p)) else (s.se x).prev
      runqueuePrio := if x = p then UInt8.ofNat (enqueuePrio (s.se p))
        else (s.se x).runqueuePrio
      inRunqueue := if x = p then 1 else (s.se x).inRunqueue } := by
  simp only [schedEnqueue, countIn_se, setTail_se, linkTail_se, setSe_se, setSe_rq]
  by_cases hx : x = p
  · subst hx
    by_cases ht : s.rq.queueTails (enqueuePrio (s.se x)) = some x <;> simp [ht]
  · by_cases ht : s.rq.queueTails (enqueuePrio (s.se p)) = some x <;> simp [hx, ht]

/-- The links and the flag of an entity that `schedDequeue` unlinks, and of its
neighbours. -/
theorem schedDequeue_se (hp : (s.se p).runqueuePrio.toNat < 8) (x : ProcPtr) :
    (schedDequeue s p).se x = { s.se x with
      next := if x = p then none
        else if (s.se p).prev = some x then (s.se p).next else (s.se x).next
      prev := if x = p then none
        else if (s.se p).next = some x then (s.se p).prev else (s.se x).prev
      inRunqueue := if x = p then 0 else (s.se x).inRunqueue } := by
  have hlt : ¬ (s.se p).runqueuePrio ≥ SCHED_PRIORITY_LEVELS := by
    simpa [SCHED_PRIORITY_LEVELS, UInt8.lt_iff_toNat_lt] using hp
  simp only [schedDequeue, if_neg hlt, countOut_se, setSe_se, unlinkRight_se, unlinkLeft_se]
  by_cases hx : x = p
  · subst hx
    by_cases hb : (s.se x).prev = some x <;> by_cases ha : (s.se x).next = some x <;>
      simp [hb, ha]
  · have hpx : ¬ p = x := fun h => hx h.symm
    by_cases hb : (s.se p).prev = some x <;> by_cases ha : (s.se p).next = some x <;>
      by_cases hpp : (s.se p).prev = some p <;> simp [hx, hpx, hb, ha, hpp]

/-- The run queue after `schedEnqueue`. -/
theorem schedEnqueue_rq (hk : enqueuePrio (s.se p) = k) :
    (schedEnqueue s p).rq.queueHeads = Function.update s.rq.queueHeads k
        (if (s.rq.queueTails k).isSome then s.rq.queueHeads k else some p) ∧
      (schedEnqueue s p).rq.queueTails = Function.update s.rq.queueTails k (some p) ∧
      (schedEnqueue s p).rq.queueSizes =
        Function.update s.rq.queueSizes k (s.rq.queueSizes k + 1) ∧
      (schedEnqueue s p).rq.totalRunnable = s.rq.totalRunnable + 1 := by
  subst hk
  refine ⟨linkTail_heads _ _ p, ?_, ?_, ?_⟩ <;>
    simp only [schedEnqueue, countIn, SchedState.setTail, linkTail_tails, linkTail_sizes,
      linkTail_total, setSe_rq]

/-- The run queue after `schedDequeue`. -/
theorem schedDequeue_rq (hk : (s.se p).runqueuePrio.toNat = k) (hlt : k < 8) :
    (schedDequeue s p).rq.queueHeads = Function.update s.rq.queueHeads k
        (if (s.se p).prev.isSome then s.rq.queueHeads k else (s.se p).next) ∧
      (schedDequeue s p).rq.queueTails = Function.update s.rq.queueTails k
        (if (s.se p).next.isSome then s.rq.queueTails k else (s.se p).prev) ∧
      (schedDequeue s p).rq.queueSizes =
        Function.update s.rq.queueSizes k (s.rq.queueSizes k - 1) ∧
      (schedDequeue s p).rq.totalRunnable = s.rq.totalRunnable - 1 := by
  subst hk
  have hge : ¬ (s.se p).runqueuePrio ≥ SCHED_PRIORITY_LEVELS := by
    simpa [SCHED_PRIORITY_LEVELS, UInt8.lt_iff_toNat_lt] using hlt
  simp only [schedDequeue, if_neg hge, countOut, setSe_rq, unlinkRight_heads,
    unlinkRight_tails, unlinkRight_sizes, unlinkRight_total, unlinkLeft_heads,
    unlinkLeft_tails, unlinkLeft_sizes, unlinkLeft_total, unlinkLeft_se, true_and, and_true]
  split <;> simp

/-! ### The process table -/

/-- The process table has no gap, and each process knows its slot. -/
structure Table (s : SchedState) : Prop where
  compact : ∀ i, (s.processes i).isSome ↔ i < s.processCount
  index : ∀ i p, s.processes i = some p → (s.procs p).i = i
  le : s.processCount ≤ MAX_PROCESSES

theorem Table.congr (h : Table s) (hk : Keeps s s') : Table s' where
  compact i := by rw [hk.processes, hk.processCount]; exact h.compact i
  index i p hp := by rw [hk.processes] at hp; rw [hk.index]; exact h.index i p hp
  le := by rw [hk.processCount]; exact h.le

/-- Each slot of the table in use holds a live process. -/
theorem Table.live_iff (h : Table s) (p : ProcPtr) :
    Live s p ↔ s.processes (s.procs p).i = some p := by
  constructor
  · rintro ⟨i, -, hi⟩
    rw [h.index i p hi]
    exact hi
  · intro hp
    exact ⟨_, (h.compact _).mp (by simp [hp]), hp⟩

/-! ### The queues -/

/-- The run queue of `s` holds the queues `q`, by priority:

- `dlist`: the links chain each queue between its head and its tail;
- `nodup`, `prio`: a process occurs once at most, in the queue that it records;
- `live`, `flag`: the queued processes are in the process table, and they are the processes
  of the table that are marked as queued;
- `size`, `total`: the counters are the lengths. -/
structure Linked (s : SchedState) (q : Nat → List ProcPtr) : Prop where
  dlist : ∀ k, IsDList (fun p => (s.se p).next) (fun p => (s.se p).prev)
    (s.rq.queueHeads k) (s.rq.queueTails k) (q k)
  nodup : ∀ k, (q k).Nodup
  prio : ∀ k, ∀ p ∈ q k, (s.se p).runqueuePrio.toNat = k ∧ k < 8
  live : ∀ k, ∀ p ∈ q k, Live s p
  flag : ∀ p, Live s p → ((s.se p).inRunqueue ≠ 0 ↔ ∃ k, p ∈ q k)
  size : ∀ k, (s.rq.queueSizes k).toNat = (q k).length
  total : s.rq.totalRunnable.toNat = ∑ k ∈ Finset.range 8, (q k).length

section
variable {s s' : SchedState} {q : Nat → List ProcPtr} {p x : ProcPtr} {j k : Nat}

/-- A process is in one queue at most. -/
theorem Linked.eq_of_mem (h : Linked s q) (hj : x ∈ q j) (hk : x ∈ q k) : j = k :=
  (h.prio j x hj).1.symm.trans (h.prio k x hk).1

/-- The queues hold at most as many processes as the process table. -/
theorem Linked.sum_length_le (h : Linked s q) :
    ∑ k ∈ Finset.range 8, (q k).length ≤ s.processCount := by
  have hdisj : ∀ j ∈ Finset.range 8, ∀ k ∈ Finset.range 8, j ≠ k →
      Disjoint (q j).toFinset (q k).toFinset := by
    intro j _ k _ hne
    rw [Finset.disjoint_left]
    intro x hj hk
    exact hne (h.eq_of_mem (List.mem_toFinset.mp hj) (List.mem_toFinset.mp hk))
  calc ∑ k ∈ Finset.range 8, (q k).length
      = ((Finset.range 8).biUnion fun k => (q k).toFinset).card := by
        rw [Finset.card_biUnion hdisj]
        exact Finset.sum_congr rfl fun k _ => (List.toFinset_card_of_nodup (h.nodup k)).symm
    _ ≤ ((Finset.range s.processCount).image fun i => (s.processes i).getD 0).card := by
        refine Finset.card_le_card fun x hx => ?_
        simp only [Finset.mem_biUnion, List.mem_toFinset] at hx
        obtain ⟨k, -, hk⟩ := hx
        obtain ⟨i, hi, hix⟩ := h.live k x hk
        exact Finset.mem_image.mpr ⟨i, Finset.mem_range.mpr hi, by simp [hix]⟩
    _ ≤ s.processCount := by
        simpa using Finset.card_image_le (s := Finset.range s.processCount)

/-- The queues depend on the links of the queued processes, the flags of the live ones and
the counters. -/
theorem Linked.congr (h : Linked s q)
    (hse : ∀ k, ∀ x ∈ q k, (s'.se x).next = (s.se x).next ∧ (s'.se x).prev = (s.se x).prev ∧
      (s'.se x).runqueuePrio = (s.se x).runqueuePrio)
    (hflag : ∀ x, Live s' x → (s'.se x).inRunqueue = (s.se x).inRunqueue)
    (hrq : s'.rq.queueHeads = s.rq.queueHeads ∧ s'.rq.queueTails = s.rq.queueTails ∧
      s'.rq.queueSizes = s.rq.queueSizes ∧ s'.rq.totalRunnable = s.rq.totalRunnable)
    (hlive : ∀ x, Live s' x → Live s x) (hmem : ∀ k, ∀ x ∈ q k, Live s' x) :
    Linked s' q where
  dlist k := by
    rw [hrq.1, hrq.2.1]
    exact (h.dlist k).congr (fun x hx => (hse k x hx).1) (fun x hx => (hse k x hx).2.1)
  nodup := h.nodup
  prio k x hx := by rw [(hse k x hx).2.2]; exact h.prio k x hx
  live := hmem
  flag x hx := by rw [hflag x hx]; exact h.flag x (hlive x hx)
  size k := by rw [hrq.2.2.1]; exact h.size k
  total := by rw [hrq.2.2.2]; exact h.total

/-- The sum of the lengths after one queue is replaced. -/
theorem sum_length_update (q : Nat → List ProcPtr) (l : List ProcPtr) (hk : k < 8) :
    ∑ j ∈ Finset.range 8, (Function.update q k l j).length + (q k).length
      = ∑ j ∈ Finset.range 8, (q j).length + l.length := by
  have hmem : k ∈ Finset.range 8 := Finset.mem_range.mpr hk
  rw [← Finset.add_sum_erase _ _ hmem,
    ← Finset.add_sum_erase (Finset.range 8) (fun j => (q j).length) hmem]
  have hrest : ∑ j ∈ (Finset.range 8).erase k, (Function.update q k l j).length
      = ∑ j ∈ (Finset.range 8).erase k, (q j).length := by
    refine Finset.sum_congr rfl fun j hj => ?_
    rw [Function.update_of_ne (Finset.ne_of_mem_erase hj)]
  rw [hrest, Function.update_self]
  omega

theorem Linked.flag_eq_zero (h : Linked s q) (hlive : Live s p) (hp : ∀ k, p ∉ q k) :
    (s.se p).inRunqueue = 0 := by
  by_contra hne
  obtain ⟨k, hk⟩ := (h.flag p hlive).mp hne
  exact hp k hk

/-- The members of the queues after `p` is added to the queue `k`. -/
theorem mem_enqueued : x ∈ Function.update q k (q k ++ [p]) j ↔ x ∈ q j ∨ j = k ∧ x = p := by
  by_cases hj : j = k
  · subst hj
    simp
  · simp [hj]

section

variable (h : Linked s q)

include h

/-- The members of the queues after `p` is taken out of its queue `k`. -/
theorem Linked.mem_dequeued (hp : p ∈ q k) :
    x ∈ Function.update q k ((q k).erase p) j ↔ x ∈ q j ∧ x ≠ p := by
  by_cases hj : j = k
  · subst hj
    rw [Function.update_self, (h.nodup j).mem_erase_iff]
    exact and_comm
  · rw [Function.update_of_ne hj]
    refine ⟨fun hx => ⟨hx, ?_⟩, And.left⟩
    rintro rfl
    exact hj (h.eq_of_mem hx hp)

/-- The neighbours of a queued process are other processes of its queue. -/
theorem Linked.neighbours (hp : p ∈ q k) :
    (∀ z, (s.se p).prev = some z → z ∈ q k ∧ z ≠ p) ∧
      ∀ z, (s.se p).next = some z → z ∈ q k ∧ z ≠ p := by
  obtain ⟨u, v, huv⟩ := List.append_of_mem hp
  have hnd := h.nodup k
  have hlist := h.dlist k
  rw [huv] at hnd hlist
  obtain ⟨-, hndv, hdisj⟩ := List.nodup_append.mp hnd
  obtain ⟨hprev, hnext⟩ := hlist.links
  refine ⟨fun z hz => ?_, fun z hz => ?_⟩
  · have hzu : z ∈ u := List.mem_of_getLast? (hprev.symm.trans hz)
    exact ⟨by simp [huv, hzu], hdisj z hzu p (by simp)⟩
  · have hzv : z ∈ v := List.mem_of_mem_head? (hnext.symm.trans hz)
    refine ⟨by simp [huv, hzv], ?_⟩
    rintro rfl
    exact (List.nodup_cons.mp hndv).1 hzv

theorem Linked.tail_mem (ht : s.rq.queueTails k = some x) : x ∈ q k :=
  List.mem_of_getLast? ((h.dlist k).tail_eq.symm.trans ht)

/-- The links after `schedEnqueue` on a process that is in no queue. -/
theorem schedEnqueue_dlist (hp : ∀ k, p ∉ q k) (hk : enqueuePrio (s.se p) = k) (j : Nat) :
    IsDList (fun x => ((schedEnqueue s p).se x).next) (fun x => ((schedEnqueue s p).se x).prev)
      ((schedEnqueue s p).rq.queueHeads j) ((schedEnqueue s p).rq.queueTails j)
      (Function.update q k (q k ++ [p]) j) := by
  obtain ⟨hheads, htails, -, -⟩ := schedEnqueue_rq hk
  -- `p` is not the tail that the new link leaves from.
  have hptail : s.rq.queueTails k ≠ some p := fun heq => hp k (h.tail_mem heq)
  rw [hheads, htails]
  simp only [schedEnqueue_se, hk]
  by_cases hj : j = k
  · subst hj
    have hne : ∀ x ∈ q j, x ≠ p := fun x hx heq => hp j (heq ▸ hx)
    have hhead : (if (s.rq.queueTails j).isSome then s.rq.queueHeads j else some p)
        = (s.rq.queueHeads j).or (some p) := by
      rw [(h.dlist j).head_eq, (h.dlist j).tail_eq]
      cases q j <;> simp
    rw [Function.update_self, Function.update_self, Function.update_self, hhead]
    refine (h.dlist j).append (h.nodup j) ?_ ?_ ?_ ?_ ?_
    · simp [hptail]
    · simp
    · intro z hz
      simp [hz]
    · intro x hx hx'
      simp [hx', hne x hx]
    · intro x hx
      simp [hne x hx]
  · rw [Function.update_of_ne hj, Function.update_of_ne hj, Function.update_of_ne hj]
    refine (h.dlist j).congr (fun x hx => ?_) (fun x hx => ?_)
    · have hxp : x ≠ p := fun heq => hp j (heq ▸ hx)
      have hxt : s.rq.queueTails k ≠ some x := fun heq =>
        hj (h.eq_of_mem hx (h.tail_mem heq))
      simp [hxp, hxt]
    · have hxp : x ≠ p := fun heq => hp j (heq ▸ hx)
      simp [hxp]

/-- `schedEnqueue` on a process that is in no queue adds it to the end of the queue of its
priority. -/
theorem schedEnqueue_linked (ht : Table s) (hlive : Live s p) (hp : ∀ k, p ∉ q k)
    (hk : enqueuePrio (s.se p) = k) :
    Linked (schedEnqueue s p) (Function.update q k (q k ++ [p])) := by
  have hk8 : k < 8 := hk ▸ enqueuePrio_lt (s.se p)
  have hkeeps := keeps_schedEnqueue s p
  obtain ⟨-, -, hsizes, htotal⟩ := schedEnqueue_rq hk
  -- The table bounds the lengths, so the counters do not wrap.
  have hcount : ∑ j ∈ Finset.range 8, (q j).length ≤ 64 := h.sum_length_le.trans ht.le
  have hlen : (q k).length ≤ 64 := le_trans
    (Finset.single_le_sum (f := fun j => (q j).length) (fun _ _ => Nat.zero_le _)
      (Finset.mem_range.mpr hk8)) hcount
  refine ⟨schedEnqueue_dlist h hp hk, ?_, ?_, ?_, ?_, ?_, ?_⟩
  · intro j
    by_cases hj : j = k
    · subst hj
      rw [Function.update_self]
      refine List.nodup_append.mpr ⟨h.nodup j, List.nodup_singleton p, ?_⟩
      rintro x hx y hy rfl
      exact hp j (List.mem_singleton.mp hy ▸ hx)
    · rw [Function.update_of_ne hj]
      exact h.nodup j
  · intro j x hx
    rw [schedEnqueue_se]
    rcases mem_enqueued.mp hx with hx | ⟨rfl, rfl⟩
    · have hxp : x ≠ p := fun heq => hp j (heq ▸ hx)
      simpa [hxp] using h.prio j x hx
    · simp only [if_true, hk]
      exact ⟨by simp; omega, hk8⟩
  · intro j x hx
    rw [hkeeps.live]
    rcases mem_enqueued.mp hx with hx | ⟨-, rfl⟩
    · exact h.live j x hx
    · exact hlive
  · intro x hx
    rw [hkeeps.live] at hx
    rw [schedEnqueue_se]
    by_cases hxp : x = p
    · simp [hxp, mem_enqueued]
    · simpa [hxp, mem_enqueued] using h.flag x hx
  · intro j
    rw [hsizes]
    by_cases hj : j = k
    · subst hj
      have hsize := h.size j
      rw [Function.update_self, Function.update_self, UInt32.toNat_add]
      simp only [List.length_append, List.length_singleton]
      have h1 : (1 : UInt32).toNat = 1 := rfl
      omega
    · rw [Function.update_of_ne hj, Function.update_of_ne hj]
      exact h.size j
  · rw [htotal, UInt32.toNat_add, h.total]
    have hsum := sum_length_update q (q k ++ [p]) hk8
    simp only [List.length_append, List.length_singleton] at hsum
    have h1 : (1 : UInt32).toNat = 1 := rfl
    omega

/-- The links after `schedDequeue` on a queued process. -/
theorem schedDequeue_dlist (hp : p ∈ q k) (j : Nat) :
    IsDList (fun x => ((schedDequeue s p).se x).next) (fun x => ((schedDequeue s p).se x).prev)
      ((schedDequeue s p).rq.queueHeads j) ((schedDequeue s p).rq.queueTails j)
      (Function.update q k ((q k).erase p) j) := by
  obtain ⟨hk, hk8⟩ := h.prio k p hp
  obtain ⟨hheads, htails, -, -⟩ := schedDequeue_rq hk hk8
  obtain ⟨u, v, hpu, huv, herase⟩ := List.exists_erase_eq hp
  have hnd := h.nodup k
  have hlist := h.dlist k
  rw [huv] at hnd hlist
  have hpv : p ∉ v := (List.nodup_cons.mp (List.nodup_append.mp hnd).2.1).1
  obtain ⟨hb, ha⟩ := h.neighbours hp
  rw [hheads, htails]
  simp only [schedDequeue_se (hk ▸ hk8)]
  by_cases hj : j = k
  · subst hj
    rw [Function.update_self, Function.update_self, Function.update_self, herase]
    have hne : ∀ x ∈ u ++ v, x ≠ p := by
      rintro x hx rfl
      rcases List.mem_append.mp hx with hx | hx
      · exact hpu hx
      · exact hpv hx
    refine hlist.unlink hnd ?_ ?_ ?_ ?_
    · intro z hz
      simp [hz, (hb z hz).2]
    · intro z hz
      simp [hz, (ha z hz).2]
    · intro x hx hx'
      simp [hne x hx, hx']
    · intro x hx hx'
      simp [hne x hx, hx']
  · rw [Function.update_of_ne hj, Function.update_of_ne hj, Function.update_of_ne hj]
    have hother : ∀ x ∈ q j, x ∉ q k := fun x hx hx' => hj (h.eq_of_mem hx hx')
    refine (h.dlist j).congr (fun x hx => ?_) (fun x hx => ?_)
    · have hxp : x ≠ p := fun heq => hother x hx (heq ▸ hp)
      have hxb : (s.se p).prev ≠ some x := fun heq => hother x hx (hb x heq).1
      simp [hxp, hxb]
    · have hxp : x ≠ p := fun heq => hother x hx (heq ▸ hp)
      have hxa : (s.se p).next ≠ some x := fun heq => hother x hx (ha x heq).1
      simp [hxp, hxa]

/-- `schedDequeue` on a queued process takes it out of its queue. -/
theorem schedDequeue_linked (hp : p ∈ q k) :
    Linked (schedDequeue s p) (Function.update q k ((q k).erase p)) := by
  obtain ⟨hk, hk8⟩ := h.prio k p hp
  have hkeeps := keeps_schedDequeue s p
  obtain ⟨-, -, hsizes, htotal⟩ := schedDequeue_rq hk hk8
  have hpos : 0 < (q k).length := List.length_pos_of_mem hp
  have hlen : ((q k).erase p).length = (q k).length - 1 := List.length_erase_of_mem hp
  have hle : (q k).length ≤ ∑ j ∈ Finset.range 8, (q j).length :=
    Finset.single_le_sum (f := fun j => (q j).length) (fun _ _ => Nat.zero_le _)
      (Finset.mem_range.mpr hk8)
  have h1 : (1 : UInt32).toNat = 1 := rfl
  refine ⟨schedDequeue_dlist h hp, ?_, ?_, ?_, ?_, ?_, ?_⟩
  · intro j
    by_cases hj : j = k
    · subst hj
      rw [Function.update_self]
      exact (h.nodup j).erase p
    · rw [Function.update_of_ne hj]
      exact h.nodup j
  · intro j x hx
    rw [schedDequeue_se (hk ▸ hk8)]
    exact h.prio j x ((h.mem_dequeued hp).mp hx).1
  · intro j x hx
    rw [hkeeps.live]
    exact h.live j x ((h.mem_dequeued hp).mp hx).1
  · intro x hx
    rw [hkeeps.live] at hx
    rw [schedDequeue_se (hk ▸ hk8)]
    by_cases hxp : x = p
    · simp [hxp, h.mem_dequeued hp]
    · simpa [hxp, h.mem_dequeued hp] using h.flag x hx
  · intro j
    rw [hsizes]
    by_cases hj : j = k
    · subst hj
      have hsize := h.size j
      rw [Function.update_self, Function.update_self, UInt32.toNat_sub_of_le, hlen]
      · omega
      · rw [UInt32.le_iff_toNat_le]
        omega
    · rw [Function.update_of_ne hj, Function.update_of_ne hj]
      exact h.size j
  · have htot := h.total
    have hsum := sum_length_update q ((q k).erase p) hk8
    rw [htotal, UInt32.toNat_sub_of_le]
    · omega
    · rw [UInt32.le_iff_toNat_le]
      omega

end

/-! ### The next process -/

namespace PickNext

section
variable {α κ : Type} [LinearOrder κ] {key : α → κ} {l : List α} {x y r : α}

/-- `r` is in `l` and has the least key, and those in front of it have greater keys. -/
def FirstMin (key : α → κ) (l : List α) (r : α) : Prop :=
  ∃ u v, l = u ++ r :: v ∧ (∀ x ∈ u, key r < key x) ∧ ∀ x ∈ v, key r ≤ key x

theorem FirstMin.mem (h : FirstMin key l r) : r ∈ l := by
  obtain ⟨u, v, rfl, -, -⟩ := h
  exact List.mem_append_right u List.mem_cons_self

theorem FirstMin.le (h : FirstMin key l r) (hx : x ∈ l) : key r ≤ key x := by
  obtain ⟨u, v, rfl, hu, hv⟩ := h
  rcases List.mem_append.mp hx with hx | hx
  · exact (hu x hx).le
  · rcases List.mem_cons.mp hx with rfl | hx
    · exact le_refl _
    · exact hv x hx

/-- A relation that holds between any two in the order of the list holds between the first one
with the least key and another one with that key. -/
theorem FirstMin.before {R : α → α → Prop} (h : FirstMin key l r) (hR : l.Pairwise R) (hx : x ∈ l)
    (hne : x ≠ r) (hkey : key x = key r) : R r x := by
  obtain ⟨u, v, rfl, hu, hv⟩ := h
  rcases List.mem_append.mp hx with hx | hx
  · exact absurd (hu x hx) (by rw [hkey]; exact lt_irrefl _)
  · rcases List.mem_cons.mp hx with rfl | hx
    · exact absurd rfl hne
    · exact (List.pairwise_cons.mp (List.pairwise_append.mp hR).2.1).1 x hx

theorem firstMin_singleton (x : α) : FirstMin key [x] x :=
  ⟨[], [], rfl, fun _ hx => absurd hx List.not_mem_nil, fun _ hx => absurd hx List.not_mem_nil⟩

/-- A second one with a smaller key makes the first one irrelevant. -/
theorem FirstMin.cons_lt (h : FirstMin key (y :: l) r) (hlt : key y < key x) :
    FirstMin key (x :: y :: l) r := by
  have hle : key r ≤ key y := h.le List.mem_cons_self
  obtain ⟨u, v, heq, hu, hv⟩ := h
  refine ⟨x :: u, v, by rw [heq]; rfl, fun z hz => ?_, hv⟩
  rcases List.mem_cons.mp hz with rfl | hz
  · exact hle.trans_lt hlt
  · exact hu z hz

/-- A second one with no smaller key is irrelevant. -/
theorem FirstMin.cons_le (h : FirstMin key (x :: l) r) (hle : key x ≤ key y) :
    FirstMin key (x :: y :: l) r := by
  obtain ⟨u, v, heq, hu, hv⟩ := h
  cases u with
  | nil =>
    obtain ⟨rfl, rfl⟩ := List.cons.inj heq
    refine ⟨[], y :: l, rfl, fun z hz => absurd hz List.not_mem_nil, fun z hz => ?_⟩
    rcases List.mem_cons.mp hz with rfl | hz
    · exact hle
    · exact hv z hz
  | cons x' u =>
    obtain ⟨rfl, rfl⟩ := List.cons.inj heq
    refine ⟨x :: y :: u, v, rfl, fun z hz => ?_, hv⟩
    have hx : key r < key x := hu x List.mem_cons_self
    rcases List.mem_cons.mp hz with rfl | hz
    · exact hx
    · rcases List.mem_cons.mp hz with rfl | hz
      · exact hx.trans_le hle
      · exact hu z (List.mem_cons_of_mem x hz)

end

/-- The walk along the rest `l` of a queue returns the first node with the least run time. -/
theorem pickWalk_firstMin {before : Option ProcPtr} (fuel : Nat)
    (hseg : Seg (fun x => (s.se x).next) (fun x => (s.se x).prev) before l none)
    (hlen : l.length ≤ fuel) (best : ProcPtr) :
    ∃ r, pickWalk s fuel l.head? best (s.se best).vruntime = some r ∧
      FirstMin (fun x => (s.se x).vruntime.toNat) (best :: l) r := by
  induction l generalizing fuel before best with
  | nil =>
    refine ⟨best, ?_, firstMin_singleton best⟩
    cases fuel <;> rfl
  | cons x l ih =>
    obtain ⟨-, hnext, hl⟩ := hseg
    rw [headOr_none] at hnext
    cases fuel with
    | zero => cases hlen
    | succ fuel =>
      have hlen' : l.length ≤ fuel := Nat.le_of_succ_le_succ hlen
      simp only [List.head?_cons, pickWalk, hnext]
      split
      · rename_i hlt
        obtain ⟨r, hr, hmin⟩ := ih fuel hl hlen' x
        exact ⟨r, hr, hmin.cons_lt (UInt64.lt_iff_toNat_lt.mp hlt)⟩
      · rename_i hge
        obtain ⟨r, hr, hmin⟩ := ih fuel hl hlen' best
        exact ⟨r, hr, hmin.cons_le (UInt64.le_iff_toNat_le.mp (UInt64.not_lt.mp hge))⟩

/-- The choice from the queue `l` with the priority `k`. -/
def Chosen (s : SchedState) (k : Nat) (l : List ProcPtr) (p : ProcPtr) : Prop :=
  if k ≤ PRIO_RT_MAX.toNat then l.head? = some p
  else FirstMin (fun x => (s.se x).vruntime.toNat) l p

theorem Chosen.mem (h : Chosen s k l p) : p ∈ l := by
  unfold Chosen at h
  split at h
  · exact List.mem_of_mem_head? h
  · exact h.mem

/-- The loop over the priorities chooses from the first queue that is not empty. -/
theorem pickFrom_spec (h : Linked s q) (ht : Table s) (levels : Nat) (hk : k + levels = 8) :
    ∃ r, pickFrom s levels k = some r ∧
      (r = none → ∀ j, k ≤ j → j < 8 → q j = []) ∧
      ∀ p, r = some p → ∃ j, k ≤ j ∧ (∀ i, k ≤ i → i < j → q i = []) ∧ Chosen s j (q j) p := by
  induction levels generalizing k with
  | zero =>
    refine ⟨none, rfl, fun _ j hkj hj => by omega, fun p hp => ?_⟩
    cases hp
  | succ levels ih =>
    have hhead := (h.dlist k).head_eq
    have hseg := (h.dlist k).seg
    have hlen : (q k).length ≤ MAX_PROCESSES :=
      (Finset.single_le_sum (f := fun j => (q j).length) (fun _ _ => Nat.zero_le _)
        (Finset.mem_range.mpr (show k < 8 by omega))).trans (h.sum_length_le.trans ht.le)
    unfold pickFrom
    cases hq : q k with
    | nil =>
      rw [hq, List.head?_nil] at hhead
      rw [hhead]
      obtain ⟨r, hr, hnone, hsome⟩ := ih (k := k + 1) (by omega)
      refine ⟨r, hr, fun hrn j hkj hj => ?_, fun p hp => ?_⟩
      · rcases Nat.eq_or_lt_of_le hkj with rfl | hlt
        · exact hq
        · exact hnone hrn j hlt hj
      · obtain ⟨j, hkj, hempty, hchosen⟩ := hsome p hp
        refine ⟨j, by omega, fun i hki hij => ?_, hchosen⟩
        rcases Nat.eq_or_lt_of_le hki with rfl | hlt
        · exact hq
        · exact hempty i hlt hij
    | cons x l =>
      rw [hq, List.head?_cons] at hhead
      rw [hq] at hseg hlen
      rw [hhead]
      simp only
      have hfirst : ∀ i, k ≤ i → i < k → q i = [] := fun i hki hik => by omega
      split
      · rename_i hrt
        refine ⟨some x, rfl, fun hnone => absurd hnone (Option.some_ne_none x), fun p hp => ?_⟩
        refine ⟨k, le_refl k, hfirst, ?_⟩
        rw [Chosen, if_pos hrt, hq, List.head?_cons]
        exact hp
      · rename_i hrt
        obtain ⟨-, hnext, hl⟩ := hseg
        have hnext' : (s.se x).next = l.head? := hnext.trans (headOr_none l)
        have hlen' : l.length ≤ MAX_PROCESSES := (Nat.le_succ _).trans hlen
        obtain ⟨r, hr, hmin⟩ := pickWalk_firstMin MAX_PROCESSES hl hlen' x
        rw [hnext', hr]
        refine ⟨some r, rfl, fun hnone => absurd hnone (Option.some_ne_none r), fun p hp => ?_⟩
        refine ⟨k, le_refl k, hfirst, ?_⟩
        rw [Chosen, if_neg hrt, hq, ← Option.some.inj hp]
        exact hmin

/-- `schedPickNext` chooses from the first queue that is not empty, or returns `NULL`. -/
theorem schedPickNext_spec (h : Linked s q) (ht : Table s) :
    ∃ r, schedPickNext s = some r ∧ (r = none → ∀ j, q j = []) ∧
      ∀ p, r = some p → ∃ j, (∀ i < j, q i = []) ∧ Chosen s j (q j) p := by
  obtain ⟨r, hr, hnone, hsome⟩ := pickFrom_spec h ht (k := 0) 8 rfl
  refine ⟨r, hr, fun hrn j => ?_, fun p hp => ?_⟩
  · by_cases hj : j < 8
    · exact hnone hrn j (Nat.zero_le j) hj
    · exact List.eq_nil_iff_forall_not_mem.mpr fun x hx => hj (h.prio j x hx).2
  · obtain ⟨j, -, hempty, hchosen⟩ := hsome p hp
    exact ⟨j, fun i hij => hempty i (Nat.zero_le i) hij, hchosen⟩

end PickNext

/-- `schedPickNext` returns: a queued process, or `NULL` when no process is queued. -/
theorem schedPickNext_linked (h : Linked s q) (ht : Table s) :
    ∃ r, schedPickNext s = some r ∧ (∀ p, r = some p → ∃ j, p ∈ q j) ∧
      (r = none → ∀ j, q j = []) := by
  obtain ⟨r, hr, hnone, hsome⟩ := PickNext.schedPickNext_spec h ht
  refine ⟨r, hr, fun p hp => ?_, hnone⟩
  obtain ⟨j, -, hchosen⟩ := hsome p hp
  exact ⟨j, hchosen.mem⟩

/-! ### The removal of a process from the table -/

/-- The process table has a gap at the slot `j` and no other gap. -/
structure TableGap (s : SchedState) (j : Nat) : Prop where
  compact : ∀ i, (s.processes i).isSome ↔ i < s.processCount ∧ i ≠ j
  index : ∀ i p, s.processes i = some p → (s.procs p).i = i
  le : s.processCount ≤ MAX_PROCESSES

theorem shiftDown_procs (s : SchedState) (j : Nat) (p x : ProcPtr) :
    (shiftDown s j p).procs x = if x = p then { s.procs x with i := j - 1 } else s.procs x := by
  simp only [shiftDown, setProc_procs]

/-- One turn of `coelesceFrom` moves the gap one slot up. It keeps the set of live processes
and writes nothing of a process but its slot. -/
theorem shiftDown_gap (h : TableGap s j) (hp : s.processes (j + 1) = some p) :
    TableGap (shiftDown s (j + 1) p) (j + 1) ∧
      (∀ x, Live (shiftDown s (j + 1) p) x ↔ Live s x) := by
  have hj1 : j + 1 < s.processCount := ((h.compact (j + 1)).mp (by simp [hp])).1
  have hjnone : s.processes j = none := by
    have hempty := (h.compact j).not.mpr (by simp)
    simpa using hempty
  have hslot : ∀ i, (shiftDown s (j + 1) p).processes i
      = if i = j + 1 then none else if i = j then some p else s.processes i := by
    intro i
    simp [shiftDown, Function.update_apply]
  have hother : ∀ i, i ≠ j + 1 → s.processes i ≠ some p := by
    intro i hi heq
    exact hi ((h.index i p heq).symm.trans (h.index _ p hp))
  refine ⟨⟨?_, ?_, h.le⟩, ?_⟩
  · intro i
    rw [hslot]
    show _ ↔ i < s.processCount ∧ i ≠ j + 1
    by_cases hi : i = j + 1
    · simp [hi]
    · by_cases hij : i = j
      · simp [hij]
        omega
      · simpa [hi, hij] using h.compact i
  · intro i x hx
    rw [hslot] at hx
    rw [shiftDown_procs]
    by_cases hi : i = j + 1
    · simp [hi] at hx
    · by_cases hij : i = j
      · obtain rfl : p = x := by simpa [hi, hij] using hx
        simp [hij]
      · have hx' : s.processes i = some x := by simpa [hi, hij] using hx
        have hxp : x ≠ p := fun heq => hother i hi (heq ▸ hx')
        simpa [hxp] using h.index i x hx'
  · intro x
    show (∃ i < s.processCount, _ = some x) ↔ ∃ i < s.processCount, s.processes i = some x
    constructor
    · rintro ⟨i, hi, hx⟩
      rw [hslot] at hx
      split at hx
      · cases hx
      · split at hx
        · exact ⟨j + 1, hj1, hp.trans hx⟩
        · exact ⟨i, hi, hx⟩
    · rintro ⟨i, hi, hx⟩
      by_cases hi1 : i = j + 1
      · subst hi1
        refine ⟨j, by omega, ?_⟩
        rw [hslot]
        simp [← hp, hx]
      · refine ⟨i, hi, ?_⟩
        have hij : i ≠ j := by
          rintro rfl
          simp [hjnone] at hx
        rw [hslot]
        simp [hi1, hij, hx]

/-- `s'` is `s` up to the table: the run queue, the entities and the process states are
those of `s`. -/
structure TableOnly (s s' : SchedState) : Prop where
  rq : s'.rq = s.rq
  se : ∀ x, s'.se x = s.se x
  state : ∀ x, (s'.procs x).state = (s.procs x).state

/-- The loop of `coelesce_processes` moves the gap to the last slot. -/
theorem coelesceFrom_gap (h : TableGap s j) (left : Nat)
    (hleft : j + 1 + left = s.processCount) :
    TableGap (coelesceFrom s left (j + 1)) (s.processCount - 1) ∧
      (coelesceFrom s left (j + 1)).processCount = s.processCount ∧
      (∀ x, Live (coelesceFrom s left (j + 1)) x ↔ Live s x) ∧
      TableOnly s (coelesceFrom s left (j + 1)) := by
  induction left generalizing s j with
  | zero =>
    have hj : s.processCount - 1 = j := by omega
    exact ⟨hj ▸ h, rfl, fun _ => Iff.rfl, rfl, fun _ => rfl, fun _ => rfl⟩
  | succ left ih =>
    obtain ⟨p, hp⟩ := Option.isSome_iff_exists.mp
      ((h.compact (j + 1)).mpr ⟨by omega, by omega⟩)
    obtain ⟨hgap, hlive⟩ := shiftDown_gap h hp
    have hcount : (shiftDown s (j + 1) p).processCount = s.processCount := rfl
    obtain ⟨hgap', hcount', hlive', honly⟩ := ih hgap (by rw [hcount]; omega)
    simp only [coelesceFrom, hp]
    refine ⟨hgap', hcount', fun x => (hlive' x).trans (hlive x), honly.rq, fun x => ?_,
      fun x => ?_⟩
    · rw [honly.se, SchedState.se, shiftDown_procs]
      split <;> rfl
    · rw [honly.state, shiftDown_procs]
      split <;> rfl

theorem clearSlot_procs (s : SchedState) (p x : ProcPtr) (j : Nat) :
    (clearSlot s p j).procs x =
      if x = p then { s.procs x with state := .UNUSED, pid := 0 } else s.procs x := by
  simp only [clearSlot, setProc_procs]

theorem clearSlot_processes (s : SchedState) (p : ProcPtr) (i j : Nat) :
    (clearSlot s p j).processes i = if i = j then none else s.processes i := by
  simp only [clearSlot, setProc_processes, Function.update_apply]

/-- `clearSlot` makes the gap. The other processes stay live. -/
theorem clearSlot_gap (h : Table s) (hp : s.processes j = some p) :
    TableGap (clearSlot s p j) j ∧ (∀ x, Live (clearSlot s p j) x ↔ Live s x ∧ x ≠ p) := by
  have hcount : (clearSlot s p j).processCount = s.processCount := rfl
  refine ⟨⟨fun i => ?_, fun i x hx => ?_, h.le⟩, fun x => ⟨?_, ?_⟩⟩
  · rw [clearSlot_processes, hcount]
    by_cases hi : i = j
    · simp [hi]
    · simpa [hi] using h.compact i
  · rw [clearSlot_processes] at hx
    split at hx
    · cases hx
    · rw [clearSlot_procs]
      split <;> exact h.index i x hx
  · rintro ⟨i, hi, hx⟩
    rw [clearSlot_processes] at hx
    split at hx
    · cases hx
    · rename_i hij
      refine ⟨⟨i, hi, hx⟩, ?_⟩
      rintro rfl
      exact hij ((h.index i x hx).symm.trans (h.index j x hp))
  · rintro ⟨⟨i, hi, hx⟩, hxp⟩
    refine ⟨i, hi, ?_⟩
    have hij : i ≠ j := by
      rintro rfl
      exact hxp (by simpa [hp] using hx.symm)
    rw [clearSlot_processes]
    simpa [hij] using hx

/-- `reapProcess` takes the process out of the table and closes the gap. -/
theorem reapProcess_table (h : Table s) (hp : s.processes j = some p) :
    Table (reapProcess s p j) ∧ (∀ x, Live (reapProcess s p j) x ↔ Live s x ∧ x ≠ p) ∧
      (reapProcess s p j).rq = s.rq ∧ (∀ x, (reapProcess s p j).se x = s.se x) ∧
      ∀ x, x ≠ p → ((reapProcess s p j).procs x).state = (s.procs x).state := by
  have hj : j < s.processCount := (h.compact j).mp (by simp [hp])
  have hcount : (clearSlot s p j).processCount = s.processCount := rfl
  obtain ⟨hgap, hlive⟩ := clearSlot_gap h hp
  obtain ⟨hgap', hcount', hlive', honly⟩ :=
    coelesceFrom_gap hgap ((clearSlot s p j).processCount - (j + 1)) (by rw [hcount]; omega)
  rw [hcount] at hgap' hcount'
  have hcount'' : (reapProcess s p j).processCount = s.processCount - 1 :=
    congrArg (· - 1) hcount'
  -- The gap is the last slot now, and the table ends in front of it.
  have hcompact : ∀ i, ((reapProcess s p j).processes i).isSome ↔
      i < (reapProcess s p j).processCount := by
    intro i
    have hi := hgap'.compact i
    rw [hcount'] at hi
    rw [hcount'']
    exact hi.trans (by omega)
  refine ⟨⟨hcompact, hgap'.index, ?_⟩, ?_, honly.rq, ?_, ?_⟩
  · have hle := h.le
    omega
  · intro x
    rw [← hlive, ← hlive']
    constructor
    · rintro ⟨i, hi, hx⟩
      have hi' : i < s.processCount := by omega
      exact ⟨i, hcount'.symm ▸ hi', hx⟩
    · rintro ⟨i, -, hx⟩
      exact ⟨i, (hcompact i).mp (Option.isSome_iff_exists.mpr ⟨x, hx⟩), hx⟩
  · intro x
    refine (honly.se x).trans ?_
    rw [SchedState.se, clearSlot_procs]
    split <;> rfl
  · intro x hx
    refine (honly.state x).trans ?_
    rw [clearSlot_procs, if_neg hx]

/-- The counters after `coelesce_processes` has moved the processes. -/
theorem coelesceFrom_counters (s : SchedState) (left j : Nat) :
    (coelesceFrom s left j).processCount = s.processCount ∧
      (coelesceFrom s left j).processMinIndex = s.processMinIndex := by
  induction left generalizing s j with
  | zero => exact ⟨rfl, rfl⟩
  | succ left ih =>
    unfold coelesceFrom
    split
    · exact ⟨rfl, rfl⟩
    · exact ih _ _

/-- The search for a slot still starts inside the table or right behind it. -/
theorem reapProcess_minIndex (hmin : s.processMinIndex ≤ s.processCount)
    (hj : j < s.processCount) :
    (reapProcess s p j).processMinIndex ≤ (reapProcess s p j).processCount := by
  obtain ⟨hcount, hindex⟩ := coelesceFrom_counters (clearSlot s p j)
    ((clearSlot s p j).processCount - (j + 1)) (j + 1)
  simp only [reapProcess, coelesceProcesses, hcount, hindex]
  have hc : (clearSlot s p j).processCount = s.processCount := rfl
  have hm : (clearSlot s p j).processMinIndex = s.processMinIndex := rfl
  rw [hc, hm]
  split <;> omega

theorem coelesceFrom_pid (s : SchedState) (left j : Nat) (x : ProcPtr) :
    ((coelesceFrom s left j).procs x).pid = (s.procs x).pid := by
  induction left generalizing s j with
  | zero => rfl
  | succ left ih =>
    rw [coelesceFrom]
    split
    · rfl
    · rw [ih, shiftDown_procs]
      split <;> rfl

/-- The other processes keep their pids. -/
theorem reapProcess_pid (s : SchedState) (p : ProcPtr) (j : Nat) (hx : x ≠ p) :
    ((reapProcess s p j).procs x).pid = (s.procs x).pid := by
  refine (coelesceFrom_pid (clearSlot s p j) _ _ x).trans ?_
  rw [clearSlot_procs, if_neg hx]

end

end DzOS.Proofs.Sched
