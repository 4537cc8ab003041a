import DzOS.Proofs.Sched.Queue

/-!
# `DzOS.Proofs.Sched.RunQueue`: no process is lost or duplicated

`RunQueueOk` states what a good run queue is: each queue is a doubly linked list, a process
other than the running one is `RUNNABLE` exactly when it occurs once in the queues, a process
is marked as queued exactly when it occurs, and the counters are the lengths.

Every step but one keeps this, from any boot state. `Inv` is the invariant: the queues as in
`Linked`, the table, and the part of each process state in it. The step lemmas are about one
operation each. `step_cases` lists the steps with what each needs, and `step_inv` collects the
lemmas.

The step that breaks it is `sched_sleep` on the running process. The scheduler took that
process out of its queue when it switched to it. `sched_sleep` dequeues it again, and since
its links are `NULL` by then, `sched_dequeue` takes it for the only node of the queue: it
empties the queue and counts one process too few. `schedSleep_not_ok` proves that no such
call leaves a good run queue. `runQueue_ok_iff` is the statement for runs: every state of a
run is good if and only if the run has no sleep step.
-/

set_option autoImplicit false

namespace DzOS.Proofs.Sched

open DzOS.Lib DzOS.Sched

variable {a : Act} {acts : List Act} {now : UInt64}

/-! ### The property -/

/-- How often `p` occurs in the queues. -/
def occurrences (q : Nat → List ProcPtr) (p : ProcPtr) : Nat :=
  ∑ k ∈ Finset.range 8, (q k).count p

/-- The run queue of `s` is a good run queue with the queues `q`. -/
structure RunQueueOf (s : SchedState) (q : Nat → List ProcPtr) : Prop where
  dlist : ∀ k < 8, IsDList (fun p => (s.se p).next) (fun p => (s.se p).prev)
    (s.rq.queueHeads k) (s.rq.queueTails k) (q k)
  runnable : ∀ p, Live s p → s.rq.curr ≠ some p →
    ((s.procs p).state = .RUNNABLE ↔ occurrences q p = 1)
  flag : ∀ p, Live s p → ((s.se p).inRunqueue ≠ 0 ↔ 0 < occurrences q p)
  size : ∀ k < 8, (s.rq.queueSizes k).toNat = (q k).length
  total : s.rq.totalRunnable.toNat = ∑ k ∈ Finset.range 8, (q k).length

/-- The run queue of `s` is good. -/
def RunQueueOk (s : SchedState) : Prop := ∃ q, RunQueueOf s q

/-- A state before the first wake: the run queue is empty, and no process of the table is
marked as queued or as runnable. -/
structure Boot (s : SchedState) : Prop where
  table : Table s
  empty : ∀ k, s.rq.queueHeads k = none ∧ s.rq.queueTails k = none ∧ s.rq.queueSizes k = 0
  total : s.rq.totalRunnable = 0
  curr : s.rq.curr = none
  new : ∀ p, Live s p → (s.procs p).state ≠ .RUNNABLE ∧ (s.se p).inRunqueue = 0

/-! ### The invariant -/

/-- The invariant of the runs without sleep steps. The current process is in no queue, it has
the links and the queue number that its last `sched_dequeue` left, and it is not waiting. -/
structure Inv (s : SchedState) (q : Nat → List ProcPtr) : Prop where
  linked : Linked s q
  table : Table s
  runnable : ∀ p, Live s p → s.rq.curr ≠ some p →
    ((s.procs p).state = .RUNNABLE ↔ ∃ k, p ∈ q k)
  curr : ∀ c, s.rq.curr = some c → Live s c ∧ (∀ k, c ∉ q k) ∧
    ((s.se c).next = none ∧ (s.se c).prev = none ∧ (s.se c).runqueuePrio.toNat < 8) ∧
    (s.procs c).state ≠ .USED ∧ (s.procs c).state ≠ .SLEEPING

section
variable {s s' : SchedState} {q : Nat → List ProcPtr} {p x : ProcPtr} {j k : Nat}

theorem Linked.occurrences_of_mem (h : Linked s q) (hp : p ∈ q k) : occurrences q p = 1 := by
  unfold occurrences
  rw [Finset.sum_eq_single k]
  · exact List.count_eq_one_of_mem (h.nodup k) hp
  · intro j _ hj
    exact List.count_eq_zero_of_not_mem fun hmem => hj (h.eq_of_mem hmem hp)
  · intro hk8
    exact absurd (Finset.mem_range.mpr (h.prio k p hp).2) hk8

/-- A process that occurs in the queues is in one of them. -/
theorem mem_of_occurrences_pos (hp : 0 < occurrences q p) : ∃ k < 8, p ∈ q k := by
  obtain ⟨k, hk, hpos⟩ := Finset.exists_ne_zero_of_sum_ne_zero hp.ne'
  exact ⟨k, Finset.mem_range.mp hk, List.count_pos_iff.mp (Nat.pos_of_ne_zero hpos)⟩

/-- The invariant gives a good run queue. -/
theorem Inv.ok (h : Inv s q) : RunQueueOk s := by
  have hmem : ∀ p, 0 < occurrences q p → ∃ k, p ∈ q k := fun p hp =>
    (mem_of_occurrences_pos hp).imp fun _ => And.right
  refine ⟨q, fun k _ => h.linked.dlist k, ?_, ?_, fun k _ => h.linked.size k, h.linked.total⟩
  · intro p hp hc
    rw [h.runnable p hp hc]
    refine ⟨fun ⟨k, hk⟩ => h.linked.occurrences_of_mem hk, fun h1 => hmem p (by omega)⟩
  · intro p hp
    rw [h.linked.flag p hp]
    refine ⟨fun ⟨k, hk⟩ => ?_, hmem p⟩
    rw [h.linked.occurrences_of_mem hk]
    exact Nat.one_pos

/-- A boot state satisfies the invariant, with empty queues. -/
theorem Boot.inv (h : Boot s) : Inv s fun _ => [] where
  linked :=
    { dlist := fun k => by
        rw [(h.empty k).1, (h.empty k).2.1]
        exact IsDList.nil
      nodup := fun _ => List.nodup_nil
      prio := by simp
      live := by simp
      flag := fun p hp => by simp [(h.new p hp).2]
      size := fun k => by simp [(h.empty k).2.2]
      total := by simp [h.total] }
  table := h.table
  runnable p hp _ := by simp [(h.new p hp).1]
  curr c hc := by simp [h.curr] at hc

/-! ### Writes that keep the queues -/

/-- The fields of an entity that the run queue uses. -/
def queueFields (se : SchedEntity) : Option ProcPtr × Option ProcPtr × UInt8 × UInt8 :=
  (se.next, se.prev, se.runqueuePrio, se.inRunqueue)

theorem queueFields_schedCheckInteractive (se : SchedEntity) :
    queueFields (schedCheckInteractive se) = queueFields se := by
  simp only [schedCheckInteractive]
  split_ifs <;> rfl

theorem queueFields_schedUpdatePriority (se : SchedEntity) :
    queueFields (schedUpdatePriority se) = queueFields se := by
  simp only [schedUpdatePriority]
  split <;> rfl

theorem queueFields_accountSleep (now : UInt64) (se : SchedEntity) :
    queueFields (accountSleep now se) = queueFields se := by
  simp only [accountSleep]
  split <;> rfl

/-- The invariant depends on the queue fields, the counters, the table and the process
states. -/
theorem Inv.congr (h : Inv s q) (hk : Keeps s s')
    (hse : ∀ x, queueFields (s'.se x) = queueFields (s.se x))
    (hrq : s'.rq.queueHeads = s.rq.queueHeads ∧ s'.rq.queueTails = s.rq.queueTails ∧
      s'.rq.queueSizes = s.rq.queueSizes ∧ s'.rq.totalRunnable = s.rq.totalRunnable) :
    Inv s' q := by
  simp only [queueFields, Prod.mk.injEq] at hse
  refine ⟨h.linked.congr ?_ ?_ hrq ?_ ?_, h.table.congr hk, ?_, ?_⟩
  · exact fun _ x _ => ⟨(hse x).1, (hse x).2.1, (hse x).2.2.1⟩
  · exact fun x _ => (hse x).2.2.2
  · exact fun x => (hk.live x).mp
  · exact fun k x hx => (hk.live x).mpr (h.linked.live k x hx)
  · intro p hp hc
    rw [hk.state]
    exact h.runnable p ((hk.live p).mp hp) (hk.curr ▸ hc)
  · intro c hc
    rw [hk.live, hk.state, (hse c).1, (hse c).2.1, (hse c).2.2.1]
    exact h.curr c (hk.curr ▸ hc)

/-- A write to an entity that leaves its queue fields alone keeps the invariant. -/
theorem Inv.setSe (h : Inv s q) (p : ProcPtr) {f : SchedEntity → SchedEntity}
    (hf : queueFields (f (s.se p)) = queueFields (s.se p)) : Inv (s.setSe p f) q := by
  refine h.congr (keeps_setSe s p f) (fun x => ?_) ⟨rfl, rfl, rfl, rfl⟩
  rw [setSe_se]
  split
  · rename_i hx
    exact hx ▸ hf
  · rfl

theorem Inv.schedUpdateVruntime (h : Inv s q) (p : ProcPtr) (delta : UInt64) :
    Inv (schedUpdateVruntime s p delta) q := by
  have h' : Inv (s.setSe p (advanceVruntime delta)) q := h.setSe p rfl
  unfold DzOS.Sched.schedUpdateVruntime
  simp only
  split
  · exact h'.congr (keeps_queue rfl) (fun _ => rfl)
      ⟨rfl, rfl, rfl, rfl⟩
  · exact h'

/-! ### One process in transit -/

/-- The invariant, but for the process `p`. Between its state and its place in the queues a
process is in transit. -/
structure InvBut (s : SchedState) (q : Nat → List ProcPtr) (p : ProcPtr) : Prop where
  linked : Linked s q
  table : Table s
  runnable : ∀ x ≠ p, Live s x → s.rq.curr ≠ some x →
    ((s.procs x).state = .RUNNABLE ↔ ∃ k, x ∈ q k)
  curr : ∀ c ≠ p, s.rq.curr = some c → Live s c ∧ (∀ k, c ∉ q k) ∧
    ((s.se c).next = none ∧ (s.se c).prev = none ∧ (s.se c).runqueuePrio.toNat < 8) ∧
    (s.procs c).state ≠ .USED ∧ (s.procs c).state ≠ .SLEEPING

theorem Inv.but (h : Inv s q) (p : ProcPtr) : InvBut s q p :=
  ⟨h.linked, h.table, fun x _ => h.runnable x, fun c _ => h.curr c⟩

/-- A process that is not the current one arrives when its state agrees with the queues. -/
theorem InvBut.arrive (h : InvBut s q p) (hc : s.rq.curr ≠ some p)
    (hp : (s.procs p).state = .RUNNABLE ↔ ∃ k, p ∈ q k) : Inv s q := by
  refine ⟨h.linked, h.table, fun x hx hcx => ?_, fun c hcc => h.curr c ?_ hcc⟩
  · by_cases hxp : x = p
    · exact hxp ▸ hp
    · exact h.runnable x hxp hx hcx
  · rintro rfl
    exact hc hcc

/-- A process in transit outside of the queues may be written, up to its slot and its
flag. -/
theorem InvBut.setProc (h : InvBut s q p) (hp : ∀ k, p ∉ q k) {f : Process → Process}
    (hi : (f (s.procs p)).i = (s.procs p).i)
    (hflag : (f (s.procs p)).sched.inRunqueue = 0) : InvBut (s.setProc p f) q p := by
  have hother : ∀ x ≠ p, (s.setProc p f).procs x = s.procs x := fun x hx => by simp [hx]
  have hse : ∀ x ≠ p, (s.setProc p f).se x = s.se x := fun x hx => by
    rw [SchedState.se, hother x hx, SchedState.se]
  have hne : ∀ k, ∀ x ∈ q k, x ≠ p := fun k x hx heq => hp k (heq ▸ hx)
  refine ⟨h.linked.congr ?_ ?_ ⟨rfl, rfl, rfl, rfl⟩ (fun x => id) ?_, ⟨?_, ?_, ?_⟩, ?_, ?_⟩
  · intro k x hx
    rw [hse x (hne k x hx)]
    exact ⟨rfl, rfl, rfl⟩
  · intro x hx
    by_cases hxp : x = p
    · subst hxp
      rw [SchedState.se, setProc_procs, if_pos rfl, hflag]
      exact (h.linked.flag_eq_zero hx hp).symm
    · rw [hse x hxp]
  · exact h.linked.live
  · exact h.table.compact
  · intro i x hx
    rw [setProc_procs]
    split
    · rename_i hxp
      subst hxp
      exact hi.trans (h.table.index i x hx)
    · exact h.table.index i x hx
  · exact h.table.le
  · intro x hxp
    rw [hother x hxp]
    exact h.runnable x hxp
  · intro c hcp
    rw [hother c hcp, hse c hcp]
    exact h.curr c hcp

/-- A process in transit may be queued. -/
theorem InvBut.schedEnqueue (h : InvBut s q p) (hlive : Live s p) (hp : ∀ k, p ∉ q k) :
    ∃ q', InvBut (schedEnqueue s p) q' p ∧ ∃ k, p ∈ q' k := by
  have hkeeps := keeps_schedEnqueue s p
  refine ⟨_, ⟨schedEnqueue_linked h.linked h.table hlive hp rfl, h.table.congr hkeeps,
    ?_, ?_⟩, enqueuePrio (s.se p), by simp⟩
  · intro x hxp hx hc
    rw [hkeeps.state, h.runnable x hxp ((hkeeps.live x).mp hx) (hkeeps.curr ▸ hc)]
    simp [mem_enqueued, hxp]
  · intro c hcp hc
    obtain ⟨hcl, hcq, hlinks, hst⟩ := h.curr c hcp (hkeeps.curr ▸ hc)
    have htail : s.rq.queueTails (enqueuePrio (s.se p)) ≠ some c := fun heq =>
      hcq _ (h.linked.tail_mem heq)
    rw [hkeeps.live, hkeeps.state, schedEnqueue_se]
    simp only [htail, if_neg hcp, if_false]
    refine ⟨hcl, fun k hk => ?_, hlinks, hst⟩
    rcases mem_enqueued.mp hk with hk | ⟨-, heq⟩
    · exact hcq k hk
    · exact hcp heq

/-- A queued process may be taken out. It is in transit then, with no links. -/
theorem Inv.schedDequeue (h : Inv s q) (hp : p ∈ q k) :
    ∃ q', InvBut (schedDequeue s p) q' p ∧ (∀ j, p ∉ q' j) ∧
      ((schedDequeue s p).se p).next = none ∧ ((schedDequeue s p).se p).prev = none ∧
      ((schedDequeue s p).se p).runqueuePrio.toNat < 8 ∧
      ((schedDequeue s p).se p).inRunqueue = 0 := by
  obtain ⟨hk, hk8⟩ := h.linked.prio k p hp
  have hlt : (s.se p).runqueuePrio.toNat < 8 := hk ▸ hk8
  have hkeeps := keeps_schedDequeue s p
  obtain ⟨hb, ha⟩ := h.linked.neighbours hp
  refine ⟨_, ⟨schedDequeue_linked h.linked hp, h.table.congr hkeeps, ?_, ?_⟩, ?_, ?_⟩
  · intro x hxp hx hc
    rw [hkeeps.state, h.runnable x ((hkeeps.live x).mp hx) (hkeeps.curr ▸ hc)]
    simp [h.linked.mem_dequeued hp, hxp]
  · intro c hcp hc
    obtain ⟨hcl, hcq, hlinks, hst⟩ := h.curr c (hkeeps.curr ▸ hc)
    have hcb : (s.se p).prev ≠ some c := fun heq => hcq k (hb c heq).1
    have hca : (s.se p).next ≠ some c := fun heq => hcq k (ha c heq).1
    rw [hkeeps.live, hkeeps.state, schedDequeue_se hlt]
    simp only [if_neg hcp, hcb, hca, if_false]
    exact ⟨hcl, fun j hj => hcq j ((h.linked.mem_dequeued hp).mp hj).1, hlinks, hst⟩
  · exact fun j hj => ((h.linked.mem_dequeued hp).mp hj).2 rfl
  · simp [schedDequeue_se hlt, hlt]

/-! ### The steps -/

section

variable (h : Inv s q)

include h

section

variable (hlive : Live s p)

include hlive

/-- A live process that is neither runnable nor current is in no queue. -/
theorem Inv.not_queued (hc : s.rq.curr ≠ some p) (hst : (s.procs p).state ≠ .RUNNABLE) (k : Nat) :
    p ∉ q k :=
  fun hk => hst ((h.runnable p hlive hc).mpr ⟨k, hk⟩)

theorem schedFork_inv (hst : (s.procs p).state = .USED) : ∃ q', Inv (schedFork s p) q' := by
  have hc : s.rq.curr ≠ some p := fun heq => (h.curr p heq).2.2.2.1 hst
  have hp := h.not_queued hlive hc (by rw [hst]; decide)
  have hbut : InvBut (schedFork s p) q p := by
    unfold schedFork SchedState.setSe
    exact (h.but p).setProc hp rfl rfl
  refine ⟨q, hbut.arrive hc ?_⟩
  simp [schedFork, hst, hp]

/-- A process that can be woken is not the current one, and in no queue. Its new entity is not
marked. -/
theorem Inv.waiting (hst : ¬ ((s.procs p).state ≠ .SLEEPING ∧ (s.procs p).state ≠ .USED)) :
    s.rq.curr ≠ some p ∧ (∀ k, p ∉ q k) ∧ (wakeProcess (s.procs p)).sched.inRunqueue = 0 := by
  have hst' : (s.procs p).state = .SLEEPING ∨ (s.procs p).state = .USED := by tauto
  -- The current process does not wait.
  have hc : s.rq.curr ≠ some p := by
    intro heq
    obtain ⟨-, -, -, hused, hsleep⟩ := h.curr p heq
    exact hst'.elim hsleep hused
  have hp := h.not_queued hlive hc (by rcases hst' with hst | hst <;> rw [hst] <;> decide)
  refine ⟨hc, hp, ?_⟩
  have hfields := queueFields_schedUpdatePriority
    { (s.procs p).sched with next := none, prev := none }
  simp only [queueFields, Prod.mk.injEq] at hfields
  rw [wakeProcess, hfields.2.2.2]
  exact h.linked.flag_eq_zero hlive hp

theorem schedWakeup_inv : ∃ q', Inv (schedWakeup s p) q' := by
  unfold schedWakeup
  split
  · exact ⟨q, h⟩
  · rename_i hst
    obtain ⟨hc, hp, hflag⟩ := h.waiting hlive hst
    obtain ⟨q', hbut, hmem⟩ := ((h.but p).setProc hp rfl hflag).schedEnqueue hlive hp
    refine ⟨q', hbut.arrive ?_ ?_⟩
    · rwa [(keeps_schedEnqueue _ p).curr]
    · rw [(keeps_schedEnqueue _ p).state]
      simpa [wakeProcess] using hmem

/-- Moving a queued process to the queue of its priority keeps the invariant. -/
theorem requeueIfQueued_inv : ∃ q', Inv (requeueIfQueued s p) q' := by
  unfold requeueIfQueued
  split
  · rename_i hcond
    obtain ⟨hst, hne⟩ := hcond
    obtain ⟨k, hk⟩ := (h.linked.flag p hlive).mp hne
    have hc : s.rq.curr ≠ some p := fun heq => (h.curr p heq).2.1 k hk
    have hdeq := keeps_schedDequeue s p
    have henq := keeps_schedEnqueue (schedDequeue s p) p
    obtain ⟨q₁, hbut, hp, -⟩ := h.schedDequeue hk
    obtain ⟨q₂, hbut₂, hmem⟩ := hbut.schedEnqueue ((hdeq.live p).mpr hlive) hp
    refine ⟨q₂, hbut₂.arrive ?_ ?_⟩
    · rwa [henq.curr, hdeq.curr]
    · rw [henq.state, hdeq.state, hst]
      simpa using hmem
  · exact ⟨q, h⟩

theorem schedSetPriority_inv (prio : UInt8) : ∃ q', Inv (schedSetPriority s p prio) q' := by
  unfold schedSetPriority
  split
  · exact ⟨q, h⟩
  · exact requeueIfQueued_inv (h.setSe p rfl) hlive

theorem schedNice_inv (n : Int8) : ∃ q', Inv (schedNice s p n) q' :=
  requeueIfQueued_inv (h.setSe p (queueFields_schedUpdatePriority _)) hlive

end

/-- The current process may change its state, unless it starts to wait. -/
theorem setState_inv (hc : s.rq.curr = some p) {st : ProcessState} (hused : st ≠ .USED)
    (hsleep : st ≠ .SLEEPING) : Inv (s.setState p st) q := by
  obtain ⟨hlive, hp, hlinks, -⟩ := h.curr p hc
  have hbut : InvBut (s.setState p st) q p :=
    (h.but p).setProc hp rfl (h.linked.flag_eq_zero hlive hp)
  refine ⟨hbut.linked, hbut.table, fun x hx hcx => ?_, fun c hcc => ?_⟩
  · refine hbut.runnable x ?_ hx hcx
    rintro rfl
    exact hcx hc
  · obtain rfl : p = c := by simpa [hc] using hcc
    rw [setState_se, setState_state, if_pos rfl]
    exact ⟨hlive, hp, hlinks, hused, hsleep⟩

theorem schedulerPreempt_inv : Inv (schedulerPreempt s) q := by
  unfold schedulerPreempt
  cases hc : s.rq.curr with
  | none => exact h
  | some p =>
    simp only
    split
    · exact setState_inv h hc (by decide) (by decide)
    · exact h

theorem schedulerTick_inv (now : UInt64) : Inv (schedulerTick s now) q :=
  schedulerTick_induct (P := (Inv · q)) h (fun p => (h.schedUpdateVruntime p _).setSe p rfl)
    fun _ => schedulerPreempt_inv

/-- While no process runs, every runnable process is queued, so there is nothing to
rebuild. -/
theorem rebuild_eq (hc : s.rq.curr = none) : rebuild s = s := by
  have hslot : ∀ i, rebuildSlot s i = s := by
    intro i
    unfold rebuildSlot
    cases hp : s.processes i with
    | none => rfl
    | some p =>
      have hlive : Live s p := ⟨i, (h.table.compact i).mp (by simp [hp]), hp⟩
      refine if_neg ?_
      rintro ⟨hst, hflag⟩
      exact (h.linked.flag p hlive).mpr ((h.runnable p hlive (by simp [hc])).mp hst) hflag
  exact List.foldl_fixed' hslot _

end

/-- The removal of a process that is in no queue keeps the rest of the invariant. -/
theorem InvBut.reap (h : InvBut s q p) (hp : ∀ k, p ∉ q k) (hj : s.processes j = some p) :
    InvBut (reapProcess s p j) q p ∧ ¬ Live (reapProcess s p j) p := by
  obtain ⟨htable, hlive, hrq, hse, hst⟩ := reapProcess_table h.table hj
  have hne : ∀ k, ∀ x ∈ q k, x ≠ p := fun k x hx heq => hp k (heq ▸ hx)
  refine ⟨⟨h.linked.congr ?_ ?_ ?_ ?_ ?_, htable, ?_, ?_⟩, fun hl => ((hlive p).mp hl).2 rfl⟩
  · exact fun k x _ => by simp [hse]
  · exact fun x _ => by rw [hse]
  · simp [hrq]
  · exact fun x hx => ((hlive x).mp hx).1
  · exact fun k x hx => (hlive x).mpr ⟨h.linked.live k x hx, hne k x hx⟩
  · intro x hxp hx hc
    rw [hst x hxp]
    rw [hrq] at hc
    exact h.runnable x hxp ((hlive x).mp hx).1 hc
  · intro c hcp hc
    rw [hrq] at hc
    obtain ⟨hcl, hcq, hlinks, hstate⟩ := h.curr c hcp hc
    rw [hse, hst c hcp]
    exact ⟨(hlive c).mpr ⟨hcl, hcp⟩, hcq, hlinks, hstate⟩

/-- The removal of an exited process while the CPU is free. -/
theorem Inv.reap (h : Inv s q) (hc : s.rq.curr = none) (hp : ∀ k, p ∉ q k)
    (hj : s.processes j = some p) :
    Inv (reapProcess s p j) q ∧ (reapProcess s p j).rq.curr = none := by
  obtain ⟨hbut, hdead⟩ := (h.but p).reap hp hj
  have hrq : (reapProcess s p j).rq = s.rq := (reapProcess_table h.table hj).2.2.1
  refine ⟨⟨hbut.linked, hbut.table, fun x hx hcx => ?_, fun c hcc => ?_⟩, by rw [hrq, hc]⟩
  · refine hbut.runnable x ?_ hx hcx
    rintro rfl
    exact hdead hx
  · rw [hrq, hc] at hcc
    cases hcc

/-- An exited process is in no queue while the CPU is free. -/
theorem Inv.exited_not_queued (h : Inv s q) (hc : s.rq.curr = none)
    (hj : s.processes j = some p) (hst : (s.procs p).state = .EXITED) :
    Live s p ∧ ∀ k, p ∉ q k := by
  have hlive : Live s p := ⟨j, (h.table.compact j).mp (by simp [hj]), hj⟩
  exact ⟨hlive, h.not_queued hlive (by simp [hc]) (by rw [hst]; decide)⟩

/-- The reclaim loop keeps the invariant, and the CPU stays free. -/
theorem reclaimFrom_inv (h : Inv s q) (hc : s.rq.curr = none) (turns i : Nat) :
    Inv (reclaimFrom s turns i) q := by
  have hreap : ∀ t i p, Inv t q ∧ t.rq.curr = none → i < t.processCount → t.processes i = some p →
      (t.procs p).state = .EXITED →
        Inv (reapProcess t p i) q ∧ (reapProcess t p i).rq.curr = none :=
    fun t i p ht _ hp hst => ht.1.reap ht.2 (ht.1.exited_not_queued ht.2 hp hst).2 hp
  exact (reclaimFrom_induct hreap ⟨h, hc⟩ turns i).1

/-- The switch to a queued process keeps the invariant. -/
theorem switchTo_inv (h : Inv s q) (hc : s.rq.curr = none) (hp : p ∈ q k) (now : UInt64) :
    ∃ q', Inv (switchTo s p now) q' := by
  have hkeeps := keeps_schedDequeue s p
  have hlive : Live (schedDequeue s p) p := (hkeeps.live p).mpr (h.linked.live k p hp)
  obtain ⟨q', hbut, hnq, hnext, hprev, hprio, hflag⟩ := h.schedDequeue hp
  have hinv : Inv (((schedDequeue s p).setCurr (some p)).setState p .RUNNING) q' := by
    have hbut' : InvBut ((schedDequeue s p).setState p .RUNNING) q' p :=
      hbut.setProc hnq rfl hflag
    refine ⟨hbut'.linked.congr (fun _ _ _ => ⟨rfl, rfl, rfl⟩) (fun _ _ => rfl)
        ⟨rfl, rfl, rfl, rfl⟩ (fun _ => id) hbut'.linked.live,
      ⟨hbut'.table.compact, hbut'.table.index, hbut'.table.le⟩, fun x hx hcx => ?_,
      fun c hcc => ?_⟩
    · have hxp : x ≠ p := by
        rintro rfl
        exact hcx rfl
      refine hbut'.runnable x hxp hx ?_
      show (schedDequeue s p).rq.curr ≠ some x
      rw [hkeeps.curr, hc]
      simp
    · obtain rfl : p = c := Option.some.inj hcc
      rw [setState_se, setState_state, if_pos rfl]
      exact ⟨hlive, hnq, ⟨hnext, hprev, hprio⟩, by decide, by decide⟩
  refine ⟨q', ?_⟩
  unfold switchTo
  exact hinv.setSe p rfl

/-- A turn of the main loop while the CPU is free: nothing happens, or exited processes are
reclaimed, or a queued process gets the CPU. -/
theorem schedulerLoop_cases (h : Inv s q) (hc : s.rq.curr = none)
    (hs : schedulerLoop s now = some s') :
    s' = s ∨ s' = reclaimFrom s s.processCount 0 ∨ ∃ p k, p ∈ q k ∧ s' = switchTo s p now := by
  unfold schedulerLoop at hs
  split at hs
  · simp only [rebuild_eq h hc] at hs
    split at hs
    · exact Or.inl (Option.some.inj hs).symm
    · exact Or.inr (Or.inl (Option.some.inj hs).symm)
  · obtain ⟨r, hr, hmem, -⟩ := schedPickNext_linked h.linked h.table
    rw [hr] at hs
    cases r with
    | none => exact Or.inl (Option.some.inj hs).symm
    | some p =>
      obtain ⟨k, hk⟩ := hmem p rfl
      exact Or.inr (Or.inr ⟨p, k, hk, (Option.some.inj hs).symm⟩)

theorem schedulerLoop_inv (h : Inv s q) (hc : s.rq.curr = none)
    (hs : schedulerLoop s now = some s') :
    ∃ q', Inv s' q' := by
  rcases schedulerLoop_cases h hc hs with rfl | rfl | ⟨p, k, hk, rfl⟩
  · exact ⟨q, h⟩
  · exact ⟨q, reclaimFrom_inv h hc _ _⟩
  · exact switchTo_inv h hc hk now

theorem accountRun_inv (h : Inv s q) (p : ProcPtr) (now : UInt64) :
    Inv (accountRun s p now) q := by
  refine (h.schedUpdateVruntime p _).setSe p ?_
  rw [queueFields_schedUpdatePriority, queueFields_schedCheckInteractive]

/-- When the process in transit is the current one, the CPU can be marked as free. -/
theorem InvBut.setCurr_none (h : InvBut s q p) (hc : s.rq.curr = some p) :
    InvBut (s.setCurr none) q p where
  linked := h.linked.congr (fun _ _ _ => ⟨rfl, rfl, rfl⟩) (fun _ _ => rfl)
    ⟨rfl, rfl, rfl, rfl⟩ (fun _ => id) h.linked.live
  table := ⟨h.table.compact, h.table.index, h.table.le⟩
  runnable x hxp hx _ := by
    refine h.runnable x hxp hx ?_
    rw [hc]
    exact fun heq => hxp (Option.some.inj heq).symm
  curr c _ hcc := by cases hcc

/-- The current process goes back to the queues. -/
theorem schedEnqueue_curr_inv (h : InvBut s q p) (hc : s.rq.curr = some p)
    (hlive : Live s p) (hp : ∀ k, p ∉ q k) (hst : (s.procs p).state = .RUNNABLE) :
    ∃ q', Inv ((schedEnqueue s p).setCurr none) q' := by
  have hkeeps := keeps_schedEnqueue s p
  obtain ⟨q', hbut, hmem⟩ := h.schedEnqueue hlive hp
  refine ⟨q',
    (hbut.setCurr_none (by rw [hkeeps.curr, hc])).arrive (by simp [SchedState.setCurr]) ?_⟩
  show ((schedEnqueue s p).procs p).state = .RUNNABLE ↔ _
  rw [hkeeps.state, hst]
  simpa using hmem

/-- The process that gave up the CPU is enqueued again, parked or reaped. -/
theorem handleReturn_inv (h : Inv s q) (hc : s.rq.curr = some p)
    (hrun : (s.procs p).state ≠ .RUNNING) :
    ∃ q', Inv ((handleReturn s p).setCurr none) q' := by
  obtain ⟨hlive, hp, -, hused, hsleep⟩ := h.curr p hc
  unfold handleReturn
  cases hst : (s.procs p).state with
  | RUNNABLE => exact schedEnqueue_curr_inv (h.but p) hc hlive hp hst
  | SLEEPING => exact absurd hst hsleep
  | USED => exact absurd hst hused
  | RUNNING => exact absurd hst hrun
  | UNUSED =>
    have hbut : InvBut (s.setState p .RUNNABLE) q p :=
      (h.but p).setProc hp rfl (h.linked.flag_eq_zero hlive hp)
    exact schedEnqueue_curr_inv hbut hc hlive hp (by simp)
  | EXITED =>
    have hslot := (h.table.live_iff p).mp hlive
    obtain ⟨hbut, hdead⟩ := (h.but p).reap hp hslot
    have hrq := (reapProcess_table h.table hslot).2.2.1
    have hbut' := hbut.setCurr_none (by rw [hrq, hc])
    refine ⟨q, hbut'.linked, hbut'.table, fun x hx hcx => ?_, fun c hcc => by cases hcc⟩
    refine hbut'.runnable x ?_ hx hcx
    rintro rfl
    exact hdead hx

theorem resumeScheduler_inv (h : Inv s q) (hc : s.rq.curr = some p)
    (hrun : (s.procs p).state ≠ .RUNNING) (now : UInt64) :
    ∃ q', Inv (resumeScheduler s p now) q' := by
  have hkeeps := keeps_accountRun s p now
  refine handleReturn_inv (accountRun_inv h p now) ?_ ?_
  · rw [hkeeps.curr, hc]
  · rwa [hkeeps.state]

/-- The sleep steps. -/
def isSleep : Act → Bool
  | .sleep _ _ => true
  | _ => false

theorem executing_eq_some (hp : executing s = some p) :
    s.rq.curr = some p ∧ (s.procs p).state = .RUNNING := by
  simpa [executing, Option.filter_eq_some_iff] using hp

/-- What a step does, and what it needs for that. -/
inductive Stepped (s : SchedState) : Act → SchedState → Prop
  | fork {p : ProcPtr} (live : Live s p) (used : (s.procs p).state = .USED) :
      Stepped s (.fork p) (schedFork s p)
  | wakeup {p : ProcPtr} (live : Live s p) : Stepped s (.wakeup p) (schedWakeup s p)
  | sleep {p : ProcPtr} {wchan now : UInt64} (running : executing s = some p) :
      Stepped s (.sleep wchan now) (schedSleep s p wchan now)
  | setPriority {p : ProcPtr} {prio : UInt8} (live : Live s p) :
      Stepped s (.setPriority p prio) (schedSetPriority s p prio)
  | nice {p : ProcPtr} {n : Int8} (live : Live s p) : Stepped s (.nice p n) (schedNice s p n)
  | tick {now : UInt64} : Stepped s (.tick now) (schedulerTick s now)
  | yield {p : ProcPtr} (running : executing s = some p) :
      Stepped s .yield (s.setState p .RUNNABLE)
  | exit {p : ProcPtr} (running : executing s = some p) : Stepped s .exit (s.setState p .EXITED)
  | schedule {now : UInt64} {s' : SchedState} (idle : s.rq.curr = none)
      (loop : schedulerLoop s now = some s') : Stepped s (.schedule now) s'
  | resume {p : ProcPtr} {now : UInt64} (curr : s.rq.curr = some p)
      (back : (s.procs p).state ≠ .RUNNING) : Stepped s (.resume now) (resumeScheduler s p now)

/-- Every step is one of the listed ones. -/
theorem step_cases (h : step s a = some s') : Stepped s a s' := by
  cases a with
  | fork p =>
    obtain ⟨⟨hlive, hst⟩, ⟨⟩⟩ := Option.ite_none_right_eq_some.mp h
    exact .fork hlive hst
  | wakeup p =>
    obtain ⟨hlive, ⟨⟩⟩ := Option.ite_none_right_eq_some.mp h
    exact .wakeup hlive
  | sleep wchan now =>
    obtain ⟨p, hp, rfl⟩ := Option.map_eq_some_iff.mp h
    exact .sleep hp
  | setPriority p prio =>
    obtain ⟨hlive, ⟨⟩⟩ := Option.ite_none_right_eq_some.mp h
    exact .setPriority hlive
  | nice p n =>
    obtain ⟨hlive, ⟨⟩⟩ := Option.ite_none_right_eq_some.mp h
    exact .nice hlive
  | tick now =>
    cases h
    exact .tick
  | yield =>
    obtain ⟨p, hp, rfl⟩ := Option.map_eq_some_iff.mp h
    exact .yield hp
  | exit =>
    obtain ⟨p, hp, rfl⟩ := Option.map_eq_some_iff.mp h
    exact .exit hp
  | schedule now =>
    unfold step at h
    cases hc : s.rq.curr with
    | none =>
      simp only [hc] at h
      exact .schedule hc h
    | some p => simp [hc] at h
  | resume now =>
    unfold step at h
    cases hc : s.rq.curr with
    | none => simp [hc] at h
    | some p =>
      simp only [hc] at h
      split at h
      · cases h
      · rename_i hrun
        cases h
        exact .resume hc hrun

/-- Every step but a sleep step keeps the invariant. -/
theorem step_inv (h : Inv s q) (ha : isSleep a = false) (hs : step s a = some s') :
    ∃ q', Inv s' q' := by
  cases step_cases hs with
  | sleep => cases ha
  | fork hlive hst => exact schedFork_inv h hlive hst
  | wakeup hlive => exact schedWakeup_inv h hlive
  | setPriority hlive => exact schedSetPriority_inv h hlive _
  | nice hlive => exact schedNice_inv h hlive _
  | tick => exact ⟨q, schedulerTick_inv h _⟩
  | yield hp => exact ⟨q, setState_inv h (executing_eq_some hp).1 (by decide) (by decide)⟩
  | exit hp => exact ⟨q, setState_inv h (executing_eq_some hp).1 (by decide) (by decide)⟩
  | schedule hc hloop => exact schedulerLoop_inv h hc hloop
  | resume hc hrun => exact resumeScheduler_inv h hc hrun _

/-! ### The sleep step -/

/-- The writes of `schedSleep` after `schedDequeue` are not to the queue fields. -/
theorem schedSleep_queueFields (s : SchedState) (p : ProcPtr) (wchan now : UInt64)
    (x : ProcPtr) :
    queueFields ((schedSleep s p wchan now).se x)
      = queueFields ((schedDequeue (s.setSe p (accountSleep now)) p).se x) := by
  simp only [schedSleep, setSe_se]
  by_cases hx : x = p
  · rw [if_pos hx, queueFields_schedCheckInteractive, SchedState.se, setProc_procs, if_pos hx]
    rfl
  · rw [if_neg hx, SchedState.se, setProc_procs, if_neg hx]
    rfl

/-- What `schedSleep` does to the run queue when the process has no links. The queue that the
process records loses its head and its tail, and the links stay as they are. -/
theorem schedSleep_unlinked (hnext : (s.se p).next = none) (hprev : (s.se p).prev = none)
    (hk : (s.se p).runqueuePrio.toNat = k) (hk8 : k < 8) (wchan now : UInt64) :
    (∀ x, ((schedSleep s p wchan now).se x).next = (s.se x).next ∧
        ((schedSleep s p wchan now).se x).prev = (s.se x).prev ∧
        (x ≠ p → ((schedSleep s p wchan now).se x).inRunqueue = (s.se x).inRunqueue)) ∧
      (schedSleep s p wchan now).rq.queueHeads = Function.update s.rq.queueHeads k none ∧
      (schedSleep s p wchan now).rq.queueSizes =
        Function.update s.rq.queueSizes k (s.rq.queueSizes k - 1) := by
  have hfields : ∀ x, queueFields ((s.setSe p (accountSleep now)).se x)
      = queueFields (s.se x) := by
    intro x
    rw [setSe_se]
    split
    · exact queueFields_accountSleep now _
    · rfl
  have hsleep := schedSleep_queueFields s p wchan now
  simp only [queueFields, Prod.mk.injEq] at hfields hsleep
  have hk' : ((s.setSe p (accountSleep now)).se p).runqueuePrio.toNat = k := by
    rw [(hfields p).2.2.1, hk]
  obtain ⟨hheads, -, hsizes, -⟩ := schedDequeue_rq hk' hk8
  refine ⟨fun x => ?_, ?_, hsizes⟩
  · rw [(hsleep x).1, (hsleep x).2.1, (hsleep x).2.2.2, schedDequeue_se (hk'.symm ▸ hk8)]
    simp only [(hfields p).1, (hfields p).2.1, hnext, hprev]
    by_cases hx : x = p
    · subst hx
      simp [hnext, hprev]
    · simp [hx]
  · refine hheads.trans ?_
    rw [(hfields p).1, (hfields p).2.1, hnext, hprev]
    rfl

theorem live_schedSleep (s : SchedState) (p : ProcPtr) (wchan now : UInt64) (x : ProcPtr) :
    Live (schedSleep s p wchan now) x ↔ Live s x :=
  (keeps_schedDequeue (s.setSe p (accountSleep now)) p).live x

/-- A sleep of the current process leaves no good run queue. If its old queue was empty, the
counter of the queue wraps. If the queue had one process, that process is lost, and if it had
more, the counter is not 0 although the queue is empty. -/
theorem schedSleep_not_ok (h : Inv s q) (hc : s.rq.curr = some p) (wchan now : UInt64) :
    ¬ RunQueueOk (schedSleep s p wchan now) := by
  rintro ⟨q', hq'⟩
  obtain ⟨-, hp, ⟨hnext, hprev, hprio⟩, -⟩ := h.curr p hc
  obtain ⟨hse, hheads, hsizes⟩ := schedSleep_unlinked hnext hprev rfl hprio wchan now
  -- The old queue of `p` is empty now, so its counter must be 0.
  have hnil : q' (s.se p).runqueuePrio.toNat = [] := by
    have hhead := (hq'.dlist _ hprio).head_eq
    rw [hheads, Function.update_self] at hhead
    exact List.head?_eq_none_iff.mp hhead.symm
  have hsize := hq'.size _ hprio
  rw [hsizes, Function.update_self, hnil, List.length_nil] at hsize
  have hone : s.rq.queueSizes (s.se p).runqueuePrio.toNat = 1 :=
    sub_eq_zero.mp (UInt32.toNat_inj.mp hsize)
  -- So one process `x` was in that queue. It is still marked as queued.
  obtain ⟨x, hx⟩ : ∃ x, q (s.se p).runqueuePrio.toNat = [x] := by
    have hlen := h.linked.size (s.se p).runqueuePrio.toNat
    rw [hone] at hlen
    exact List.length_eq_one_iff.mp hlen.symm
  have hmem : x ∈ q (s.se p).runqueuePrio.toNat := by simp [hx]
  have hxp : x ≠ p := fun heq => hp _ (heq ▸ hmem)
  have hlive := h.linked.live _ x hmem
  have hflag : ((schedSleep s p wchan now).se x).inRunqueue ≠ 0 := by
    rw [(hse x).2.2 hxp]
    exact (h.linked.flag x hlive).mpr ⟨_, hmem⟩
  have hlive' : Live (schedSleep s p wchan now) x := 
    (live_schedSleep s p wchan now x).mpr hlive
  -- The other queues are what they were, so `x` is in none of them.
  obtain ⟨j, hj8, hj⟩ := mem_of_occurrences_pos ((hq'.flag x hlive').mp hflag)
  have hjk : j ≠ (s.se p).runqueuePrio.toNat := by
    rintro rfl
    simp [hnil] at hj
  have hsame : q' j = q j := by
    have hlist := hq'.dlist j hj8
    rw [hheads, Function.update_of_ne hjk] at hlist
    exact (hlist.congr (fun y _ => ((hse y).1).symm) (fun y _ => ((hse y).2.1).symm)).unique
      (h.linked.dlist j)
  exact hjk (h.linked.eq_of_mem (hsame ▸ hj) hmem)

/-! ### Runs -/

theorem run_append (s : SchedState) (acts acts' : List Act) :
    run s (acts ++ acts') = (run s acts).bind fun s' => run s' acts' := by
  induction acts generalizing s with
  | nil => rfl
  | cons a acts ih => simp [run, ih, Option.bind_assoc]

/-- A run without sleep steps keeps the invariant. -/
theorem run_inv (h : Inv s q) (ha : ∀ a ∈ acts, isSleep a = false) (hs : run s acts = some s') :
    ∃ q', Inv s' q' := by
  induction acts generalizing s q with
  | nil =>
    obtain rfl := Option.some.inj hs
    exact ⟨q, h⟩
  | cons a acts ih =>
    obtain ⟨s₁, hstep, hrun⟩ := Option.bind_eq_some_iff.mp hs
    obtain ⟨q₁, h₁⟩ := step_inv h (ha a (by simp)) hstep
    exact ih h₁ (fun b hb => ha b (by simp [hb])) hrun

end

/-- The first sleep step of a run, if it has one: the run up to it, and the state there. -/
theorem exists_first_sleep {s₀ s : SchedState} (hrun : run s₀ acts = some s)
    (hsleep : ¬ ∀ a ∈ acts, isSleep a = false) :
    ∃ pre wchan now s₁, (∀ a ∈ pre, isSleep a = false) ∧ pre ++ [.sleep wchan now] <+: acts ∧
      run s₀ pre = some s₁ ∧ (step s₁ (.sleep wchan now)).isSome := by
  obtain ⟨a, hfind⟩ : ∃ a, acts.find? isSleep = some a := by
    rw [← Option.isSome_iff_exists, List.find?_isSome]
    simpa using hsleep
  obtain ⟨ha, pre, post, rfl, hpre⟩ := List.find?_eq_some_iff_append.mp hfind
  rw [run_append] at hrun
  obtain ⟨s₁, hs₁, hrun'⟩ := Option.bind_eq_some_iff.mp hrun
  obtain ⟨s₂, hs₂, -⟩ := Option.bind_eq_some_iff.mp hrun'
  cases a with
  | sleep wchan now =>
    refine ⟨pre, wchan, now, s₁, by simpa using hpre, ⟨post, by simp⟩, hs₁, ?_⟩
    simp [hs₂]
  | _ => cases ha

/-- From a boot state, every state that a run reaches has a good run queue if and only if the
run has no sleep step. -/
theorem runQueue_ok_iff (s₀ s : SchedState) (acts : List Act) (hboot : Boot s₀)
    (hrun : run s₀ acts = some s) :
    (∀ pre s', pre <+: acts → run s₀ pre = some s' → RunQueueOk s') ↔
      ∀ a ∈ acts, isSleep a = false := by
  constructor
  · intro hok
    by_contra hsleep
    obtain ⟨pre, wchan, now, s₁, hpre, hprefix, hs₁, hstep⟩ := exists_first_sleep hrun hsleep
    obtain ⟨s₂, hs₂⟩ := Option.isSome_iff_exists.mp hstep
    have hrun₂ : run s₀ (pre ++ [.sleep wchan now]) = some s₂ := by
      simp [run_append, hs₁, run, hs₂]
    obtain ⟨q, hq⟩ := run_inv hboot.inv hpre hs₁
    obtain ⟨p, hp, rfl⟩ := Option.map_eq_some_iff.mp hs₂
    exact schedSleep_not_ok hq (executing_eq_some hp).1 wchan now (hok _ _ hprefix hrun₂)
  · intro ha pre s' hpre hs'
    obtain ⟨q, hq⟩ := run_inv hboot.inv (fun a hmem => ha a (hpre.subset hmem)) hs'
    exact hq.ok

/-- Two new processes, at the addresses 1 and 2. -/
def twoProcesses : SchedState where
  procs p :=
    { pid := UInt64.ofNat p
      i := p - 1
      state := .USED
      waitingChannel := none
      sched := { SchedEntity.zero with
        staticPriority := PRIO_NORMAL_MIN, dynamicPriority := PRIO_NORMAL_MIN } }
  processes i := if i < 2 then some (i + 1) else none
  processCount := 2
  processMinIndex := 2
  rq :=
    { queueHeads := fun _ => none
      queueTails := fun _ => none
      queueSizes := fun _ => 0
      totalRunnable := 0
      curr := none
      totalWeight := 0
      minVruntime := 0 }

theorem twoProcesses_boot : Boot twoProcesses where
  table := by
    refine ⟨fun i => ?_, fun i p hp => ?_, by decide⟩
    · by_cases hi : i < 2 <;> simp [twoProcesses, hi] <;> omega
    · simp only [twoProcesses] at hp ⊢
      split at hp
      · obtain rfl := Option.some.inj hp
        rfl
      · cases hp
  empty _ := ⟨rfl, rfl, rfl⟩
  total := rfl
  curr := rfl
  new _ _ := ⟨by simp [twoProcesses], rfl⟩

/-- The equivalence on a run in which both processes are woken and the first one runs. -/
theorem runQueue_ok_iff_twoProcesses :
    ∃ s, run twoProcesses [.wakeup 1, .wakeup 2, .schedule 10, .yield, .resume 20] = some s ∧
      ∀ pre s', pre <+: [.wakeup 1, .wakeup 2, .schedule 10, .yield, .resume 20] →
        run twoProcesses pre = some s' → RunQueueOk s' := by
  obtain ⟨s, hs⟩ := Option.isSome_iff_exists.mp (by decide +kernel :
    (run twoProcesses [.wakeup 1, .wakeup 2, .schedule 10, .yield, .resume 20]).isSome)
  exact ⟨s, hs, (runQueue_ok_iff twoProcesses s _ twoProcesses_boot hs).mpr (by decide)⟩

/-- Both processes are woken, the first one runs and goes to sleep. The second one stays
`RUNNABLE` and marked as queued, but its queue is empty: it is lost. -/
theorem sleep_loses_process : Boot twoProcesses ∧
    ∃ s, run twoProcesses [.wakeup 1, .wakeup 2, .schedule 10, .sleep 7 20] = some s ∧
      (s.procs 2).state = .RUNNABLE ∧ (s.se 2).inRunqueue = 1 ∧
      (∀ k < 8, s.rq.queueHeads k = none) ∧ ¬ RunQueueOk s := by
  obtain ⟨s, hs⟩ := Option.isSome_iff_exists.mp (by decide +kernel :
    (run twoProcesses [.wakeup 1, .wakeup 2, .schedule 10, .sleep 7 20]).isSome)
  have hobs : (run twoProcesses [.wakeup 1, .wakeup 2, .schedule 10, .sleep 7 20]).all
      fun s => (s.procs 2).state = .RUNNABLE ∧ (s.se 2).inRunqueue = 1 ∧
        s.processes 1 = some 2 ∧ s.processCount = 2 ∧ s.rq.curr = some 1 ∧
        ∀ k < 8, s.rq.queueHeads k = none := by
    decide +kernel
  rw [hs] at hobs
  simp only [Option.all_some, decide_eq_true_eq] at hobs
  obtain ⟨hst, hflag, hslot, hcount, hcurr, hheads⟩ := hobs
  refine ⟨twoProcesses_boot, s, hs, hst, hflag, hheads, ?_⟩
  rintro ⟨q, hq⟩
  -- The second process should occur in a queue, but every queue has no head.
  have hlive : Live s 2 := ⟨1, by omega, hslot⟩
  have hocc := (hq.runnable 2 hlive (by rw [hcurr]; decide)).mp hst
  obtain ⟨k, hk8, hk⟩ := mem_of_occurrences_pos (hocc ▸ Nat.one_pos)
  have hnil := List.head?_eq_none_iff.mp ((hq.dlist k hk8).head_eq.symm.trans (hheads k hk8))
  simp [hnil] at hk

end DzOS.Proofs.Sched
