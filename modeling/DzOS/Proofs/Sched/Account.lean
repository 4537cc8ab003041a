import DzOS.Proofs.Sched.Machine

/-!
# `DzOS.Proofs.Sched.Account`: the account of the run queue

`total_weight` is kept by adding the weight of a process when it is enqueued, and subtracting it
when it is dequeued. `WeightOk` says that the account is right: the total is the sum over the
processes in the run queue, and each of them is in the queue of its priority.

The step lemmas of `Weighed` are about one operation each. An operation may enqueue a process,
dequeue one, write a priority outside of the run queue (`Weighed.writeOut`) or other fields
(`Weighed.congr`). The two calls that write the priority of an enqueued process are not among
them.
-/

set_option autoImplicit false

namespace DzOS.Proofs.Sched.Account

open DzOS.Lib DzOS.Sched DzOS.Proofs.Sched.Machine DzOS.Proofs.Sched.ProcessTable
  DzOS.Proofs.Sched.StackSlots

variable {se' se : SchedEntity}

/-! ### The account -/

/-- The processes of the table. -/
def liveSet (s : SchedState) : Finset ProcPtr :=
  (Finset.range s.processCount).biUnion fun i => (s.processes i).toFinset

/-- The processes in the run queue. -/
def enqueuedSet (s : SchedState) : Finset ProcPtr :=
  (liveSet s).filter fun p => (s.se p).inRunqueue ≠ 0

/-- The account of the run queue: `total_weight` is the sum of the weights of the processes in
it, as a natural number, and each of them is in the queue of its dynamic priority. -/
structure WeightOk (s : SchedState) : Prop where
  total : s.rq.totalWeight.toNat = ∑ p ∈ enqueuedSet s, (schedEntityWeight (s.se p)).toNat
  prio : ∀ p, Enqueued s p → (s.se p).runqueuePrio = (s.se p).dynamicPriority

/-- The account, with the priorities of all processes in range. -/
structure Weighed (s : SchedState) : Prop where
  ok : WeightOk s
  prioLt : ∀ p, Live s p → (s.se p).dynamicPriority < 8

/-- What an entity adds to the total. -/
def load (se : SchedEntity) : ℕ :=
  if se.inRunqueue ≠ 0 then (schedEntityWeight se).toNat else 0

/-- The fields that the account depends on. -/
def weightFields (se : SchedEntity) : UInt8 × UInt8 × UInt8 :=
  (se.inRunqueue, se.dynamicPriority, se.runqueuePrio)

variable {s s' : SchedState} {p x : ProcPtr}

theorem mem_liveSet : p ∈ liveSet s ↔ Live s p := by
  simp [liveSet, Live]

theorem liveSet_congr (h : ∀ x, Live s' x ↔ Live s x) : liveSet s' = liveSet s := by
  ext x
  rw [mem_liveSet, mem_liveSet, h]

theorem sum_enqueuedSet (s : SchedState) :
    ∑ p ∈ enqueuedSet s, (schedEntityWeight (s.se p)).toNat = ∑ p ∈ liveSet s, load (s.se p) :=
  Finset.sum_filter _ _

theorem load_congr (h : weightFields se' = weightFields se) : load se' = load se := by
  simp only [weightFields, Prod.mk.injEq] at h
  rw [load, load, schedEntityWeight, schedEntityWeight, h.1, h.2.1]

theorem load_of_flag (h : se.inRunqueue ≠ 0) :
    load se = (schedEntityWeight se).toNat := if_pos h

theorem load_of_no_flag (h : se.inRunqueue = 0) : load se = 0 :=
  if_neg (not_not.mpr h)

/-- A weight is at most that of the first priority. -/
theorem schedEntityWeight_le (se : SchedEntity) : (schedEntityWeight se).toNat ≤ 88761 := by
  have hall : ∀ w ∈ weights, w.toNat ≤ 88761 := by simp [weights]
  rw [schedEntityWeight, List.getD_eq_getElem?_getD]
  cases h : weights[se.dynamicPriority.toNat]? with
  | none => exact Nat.zero_le _
  | some w => exact hall w (List.mem_of_getElem? h)

/-- The sum of all loads is far from a wrap. -/
theorem sum_load_lt (htable : Table s) : ∑ p ∈ liveSet s, load (s.se p) < 2 ^ 63 := by
  have hcard : (liveSet s).card ≤ MAX_PROCESSES := by
    refine (Finset.card_biUnion_le).trans ?_
    calc ∑ i ∈ Finset.range s.processCount, ((s.processes i).toFinset).card
        ≤ ∑ _i ∈ Finset.range s.processCount, 1 := by
          refine Finset.sum_le_sum fun i _ => ?_
          cases s.processes i <;> simp
      _ = s.processCount := by simp
      _ ≤ MAX_PROCESSES := htable.le
  have hload : ∀ p ∈ liveSet s, load (s.se p) ≤ 88761 := by
    intro p _
    rw [load]
    split_ifs
    · exact schedEntityWeight_le _
    · exact Nat.zero_le _
  calc ∑ p ∈ liveSet s, load (s.se p)
      ≤ (liveSet s).card • 88761 := Finset.sum_le_card_nsmul _ _ _ hload
    _ ≤ MAX_PROCESSES * 88761 := Nat.mul_le_mul_right _ hcard
    _ < 2 ^ 63 := by norm_num [MAX_PROCESSES]

/-- The sum of the loads after the entity of one process changes. -/
theorem sum_load_update (hlive : ∀ x, Live s' x ↔ Live s x) (hp : Live s p)
    (hother : ∀ x ≠ p, weightFields (s'.se x) = weightFields (s.se x)) :
    ∑ x ∈ liveSet s', load (s'.se x) + load (s.se p) =
      ∑ x ∈ liveSet s, load (s.se x) + load (s'.se p) := by
  have hmem : p ∈ liveSet s := mem_liveSet.mpr hp
  rw [liveSet_congr hlive, ← Finset.add_sum_erase _ _ hmem,
    ← Finset.add_sum_erase (liveSet s) (fun x => load (s.se x)) hmem]
  have hrest : ∑ x ∈ (liveSet s).erase p, load (s'.se x) =
      ∑ x ∈ (liveSet s).erase p, load (s.se x) :=
    Finset.sum_congr rfl fun x hx => load_congr (hother x (Finset.ne_of_mem_erase hx))
  rw [hrest]
  omega

/-! ### Writes outside of the account -/

theorem Weighed.total (h : Weighed s) :
    s.rq.totalWeight.toNat = ∑ p ∈ liveSet s, load (s.se p) :=
  h.ok.total.trans (sum_enqueuedSet s)

/-- The account does not see writes to other fields. -/
theorem Weighed.congr (h : Weighed s) (hlive : ∀ x, Live s' x ↔ Live s x)
    (htotal : s'.rq.totalWeight = s.rq.totalWeight)
    (hse : ∀ x, weightFields (s'.se x) = weightFields (s.se x)) : Weighed s' := by
  have hfields := hse
  simp only [weightFields, Prod.mk.injEq] at hfields
  refine ⟨⟨?_, fun p hp => ?_⟩, fun p hp => ?_⟩
  · rw [htotal, h.total, sum_enqueuedSet, liveSet_congr hlive]
    exact Finset.sum_congr rfl fun x _ => (load_congr (hse x)).symm
  · rw [(hfields p).2.1, (hfields p).2.2]
    exact h.ok.prio p ⟨(hlive p).mp hp.1, by rw [← (hfields p).1]; exact hp.2⟩
  · rw [(hfields p).2.1]
    exact h.prioLt p ((hlive p).mp hp)

/-- A process outside of the run queue may get any priority in range. -/
theorem Weighed.writeOut (h : Weighed s) (hlive : ∀ x, Live s' x ↔ Live s x)
    (htotal : s'.rq.totalWeight = s.rq.totalWeight)
    (hother : ∀ x ≠ p, weightFields (s'.se x) = weightFields (s.se x))
    (hout : Live s p → (s.se p).inRunqueue = 0) (hout' : (s'.se p).inRunqueue = 0)
    (hprio : (s'.se p).dynamicPriority < 8) : Weighed s' := by
  have hfields : ∀ x ≠ p, (s'.se x).inRunqueue = (s.se x).inRunqueue ∧
      (s'.se x).dynamicPriority = (s.se x).dynamicPriority ∧
      (s'.se x).runqueuePrio = (s.se x).runqueuePrio := by
    intro x hx
    have hsame := hother x hx
    simpa only [weightFields, Prod.mk.injEq] using hsame
  refine ⟨⟨?_, fun x hx => ?_⟩, fun x hx => ?_⟩
  · rw [htotal, h.total, sum_enqueuedSet, liveSet_congr hlive]
    refine Finset.sum_congr rfl fun x hx => ?_
    by_cases hxp : x = p
    · subst hxp
      rw [load_of_no_flag (hout (mem_liveSet.mp hx)), load_of_no_flag hout']
    · exact (load_congr (hother x hxp)).symm
  · have hxp : x ≠ p := by
      rintro rfl
      exact hx.2 hout'
    rw [(hfields x hxp).2.1, (hfields x hxp).2.2]
    exact h.ok.prio x ⟨(hlive x).mp hx.1, by rw [← (hfields x hxp).1]; exact hx.2⟩
  · by_cases hxp : x = p
    · rw [hxp]
      exact hprio
    · rw [(hfields x hxp).2.1]
      exact h.prioLt x ((hlive x).mp hx)

theorem Weighed.newState (h : Weighed s) (p : ProcPtr) (st : ProcessState) :
    Weighed (s.setState p st) :=
  h.congr (fun _ => Iff.rfl) rfl fun x => by rw [setState_se]

/-- A write to an entity that leaves its account fields alone. -/
theorem Weighed.writeSe (h : Weighed s) (p : ProcPtr) {f : SchedEntity → SchedEntity}
    (hf : weightFields (f (s.se p)) = weightFields (s.se p)) : Weighed (s.setSe p f) := by
  refine h.congr (fun _ => Iff.rfl) rfl fun x => ?_
  rw [setSe_se]
  split
  · rename_i hx
    rw [hx]
    exact hf
  · rfl

/-! ### Enqueueing and dequeueing -/

theorem totalWeight_linkTail (s : SchedState) (k : Nat) (p : ProcPtr) :
    (linkTail s k p).rq.totalWeight = s.rq.totalWeight := by
  unfold linkTail
  split <;> rfl

theorem totalWeight_unlinkLeft (s : SchedState) (k : Nat) (p : ProcPtr) :
    (unlinkLeft s k p).rq.totalWeight = s.rq.totalWeight := by
  unfold unlinkLeft
  split <;> rfl

theorem totalWeight_unlinkRight (s : SchedState) (k : Nat) (p : ProcPtr) :
    (unlinkRight s k p).rq.totalWeight = s.rq.totalWeight := by
  unfold unlinkRight
  split <;> rfl

/-- The weight depends on the priority alone. -/
theorem schedEntityWeight_congr (h : se'.dynamicPriority = se.dynamicPriority) :
    schedEntityWeight se' = schedEntityWeight se := by
  rw [schedEntityWeight, schedEntityWeight, h]

theorem totalWeight_schedEnqueue (s : SchedState) (p : ProcPtr) :
    (schedEnqueue s p).rq.totalWeight = s.rq.totalWeight + schedEntityWeight (s.se p) := by
  have hweight : schedEntityWeight ((schedEnqueue s p).se p) = schedEntityWeight (s.se p) :=
    schedEntityWeight_congr (by rw [schedEnqueue_se])
  rw [← hweight]
  simp only [schedEnqueue, countIn, SchedState.setTail, totalWeight_linkTail, setSe_rq]
  rfl

theorem totalWeight_schedDequeue (hp : (s.se p).runqueuePrio.toNat < 8) :
    (schedDequeue s p).rq.totalWeight = s.rq.totalWeight - schedEntityWeight (s.se p) := by
  have hweight : schedEntityWeight ((schedDequeue s p).se p) = schedEntityWeight (s.se p) :=
    schedEntityWeight_congr (by rw [schedDequeue_se hp])
  have hge : ¬ (s.se p).runqueuePrio ≥ SCHED_PRIORITY_LEVELS := by
    simpa [SCHED_PRIORITY_LEVELS, UInt8.lt_iff_toNat_lt] using hp
  rw [← hweight]
  simp only [schedDequeue, if_neg hge, countOut, setSe_rq, totalWeight_unlinkRight,
    totalWeight_unlinkLeft]
  rfl

/-- A priority in range is the queue of its entity. -/
theorem enqueuePrio_eq (h : se.dynamicPriority < 8) :
    UInt8.ofNat (enqueuePrio se) = se.dynamicPriority := by
  have hge : ¬ se.dynamicPriority ≥ SCHED_PRIORITY_LEVELS := UInt8.not_le.mpr h
  rw [enqueuePrio, if_neg hge]
  exact UInt8.ofNat_toNat

/-- The entities after `schedEnqueue`, as far as the account sees them. -/
theorem weightFields_schedEnqueue (s : SchedState) (p x : ProcPtr) :
    weightFields ((schedEnqueue s p).se x) =
      if x = p then (1, (s.se p).dynamicPriority, UInt8.ofNat (enqueuePrio (s.se p)))
      else weightFields (s.se x) := by
  rw [schedEnqueue_se]
  by_cases hx : x = p
  · subst hx
    simp [weightFields]
  · simp [weightFields, hx]

theorem weightFields_schedDequeue (hp : (s.se p).runqueuePrio.toNat < 8) (x : ProcPtr) :
    weightFields ((schedDequeue s p).se x) =
      if x = p then (0, (s.se p).dynamicPriority, (s.se p).runqueuePrio)
      else weightFields (s.se x) := by
  rw [schedDequeue_se hp]
  by_cases hx : x = p
  · subst hx
    simp [weightFields]
  · simp [weightFields, hx]

/-- A process outside of the run queue is added to the account. -/
theorem Weighed.enqueue (h : Weighed s) (htable : Table s) (hlive : Live s p)
    (hout : (s.se p).inRunqueue = 0) : Weighed (schedEnqueue s p) := by
  have hkeeps := keeps_schedEnqueue s p
  have hother : ∀ x ≠ p, weightFields ((schedEnqueue s p).se x) =
      weightFields (s.se x) := fun x hx => by rw [weightFields_schedEnqueue, if_neg hx]
  have hself := weightFields_schedEnqueue s p p
  rw [if_pos rfl] at hself
  simp only [weightFields, Prod.mk.injEq] at hself
  obtain ⟨hflag, hdynamic, hprio⟩ := hself
  have hflag' : ((schedEnqueue s p).se p).inRunqueue ≠ 0 := by
    rw [hflag]
    decide
  refine ⟨⟨?_, fun x hx => ?_⟩, fun x hx => ?_⟩
  · have hsum := sum_load_update hkeeps.live hlive hother
    rw [load_of_no_flag hout, load_of_flag hflag', schedEntityWeight_congr hdynamic] at hsum
    have hbound := sum_load_lt (htable.congr hkeeps)
    rw [sum_enqueuedSet, totalWeight_schedEnqueue, UInt64.toNat_add, h.total, ← hsum,
      Nat.add_zero]
    exact Nat.mod_eq_of_lt (by omega)
  · by_cases hxp : x = p
    · subst hxp
      rw [hprio, hdynamic]
      exact enqueuePrio_eq (h.prioLt x hlive)
    · have hsame := hother x hxp
      simp only [weightFields, Prod.mk.injEq] at hsame
      rw [hsame.2.1, hsame.2.2]
      exact h.ok.prio x ⟨(hkeeps.live x).mp hx.1, by rw [← hsame.1]; exact hx.2⟩
  · have hold := h.prioLt x ((hkeeps.live x).mp hx)
    rw [schedEnqueue_se]
    exact hold

/-- A process in the run queue is taken out of the account. -/
theorem Weighed.dequeue (h : Weighed s) (hlive : Live s p)
    (hin : (s.se p).inRunqueue ≠ 0) : Weighed (schedDequeue s p) := by
  have hkeeps := keeps_schedDequeue s p
  have hlt : (s.se p).runqueuePrio.toNat < 8 := by
    rw [h.ok.prio p ⟨hlive, hin⟩]
    exact UInt8.lt_iff_toNat_lt.mp (h.prioLt p hlive)
  have hother : ∀ x ≠ p, weightFields ((schedDequeue s p).se x) =
      weightFields (s.se x) := fun x hx => by rw [weightFields_schedDequeue hlt, if_neg hx]
  have hself := weightFields_schedDequeue hlt p
  rw [if_pos rfl] at hself
  simp only [weightFields, Prod.mk.injEq] at hself
  obtain ⟨hflag, -, -⟩ := hself
  refine ⟨⟨?_, fun x hx => ?_⟩, fun x hx => ?_⟩
  · have hsum := sum_load_update hkeeps.live hlive hother
    rw [load_of_no_flag hflag, load_of_flag hin, Nat.add_zero, ← h.total] at hsum
    have hle : schedEntityWeight (s.se p) ≤ s.rq.totalWeight := by
      rw [UInt64.le_iff_toNat_le]
      omega
    rw [sum_enqueuedSet, totalWeight_schedDequeue hlt, UInt64.toNat_sub_of_le _ _ hle]
    omega
  · have hxp : x ≠ p := by
      rintro rfl
      exact hx.2 hflag
    have hsame := hother x hxp
    simp only [weightFields, Prod.mk.injEq] at hsame
    rw [hsame.2.1, hsame.2.2]
    exact h.ok.prio x ⟨(hkeeps.live x).mp hx.1, by rw [← hsame.1]; exact hx.2⟩
  · have hold := h.prioLt x ((hkeeps.live x).mp hx)
    rw [schedDequeue_se hlt]
    exact hold

/-! ### The other operations -/

/-- A new process is outside of the run queue. -/
theorem Weighed.allocated {s s' : ProcState} (h : Weighed s.sched) (hp : ¬ Live s.sched p)
    (ha : Allocated s s' p) : Weighed s'.sched := by
  have hnew : s'.sched.se p = SchedEntity.zero := by
    rw [SchedState.se, ha.new]
    rfl
  have hold : ∀ x ∈ liveSet s.sched, s'.sched.se x = s.sched.se x := by
    intro x hx
    have hxp : x ≠ p := by
      rintro rfl
      exact hp (mem_liveSet.mp hx)
    rw [SchedState.se, ha.old x hxp, SchedState.se]
  have hset : liveSet s'.sched = insert p (liveSet s.sched) := by
    ext x
    rw [mem_liveSet, ha.live, Finset.mem_insert, mem_liveSet]
  refine ⟨⟨?_, fun x hx => ?_⟩, fun x hx => ?_⟩
  · rw [ha.rq, h.total, sum_enqueuedSet, hset,
      Finset.sum_insert fun hmem => hp (mem_liveSet.mp hmem), hnew]
    have hzero : load SchedEntity.zero = 0 := rfl
    rw [hzero, Nat.zero_add]
    exact Finset.sum_congr rfl fun x hx => by rw [hold x hx]
  · rcases (ha.live x).mp hx.1 with rfl | hlive
    · exact absurd (by rw [hnew]; rfl) hx.2
    · have hsame := hold x (mem_liveSet.mpr hlive)
      rw [hsame]
      exact h.ok.prio x ⟨hlive, by rw [← hsame]; exact hx.2⟩
  · rcases (ha.live x).mp hx with rfl | hlive
    · rw [hnew]
      decide
    · rw [hold x (mem_liveSet.mpr hlive)]
      exact h.prioLt x hlive

/-- The removal of a process outside of the run queue. -/
theorem Weighed.reap {j : Nat} (h : Weighed s) (htable : Table s) (hj : s.processes j = some p)
    (hout : (s.se p).inRunqueue = 0) : Weighed (reapProcess s p j) := by
  obtain ⟨-, hlive, hrq, hse, -⟩ := reapProcess_table htable hj
  have hmem : p ∈ liveSet s :=
    mem_liveSet.mpr ⟨j, (htable.compact j).mp (by rw [hj]; rfl), hj⟩
  have hset : liveSet (reapProcess s p j) = (liveSet s).erase p := by
    ext x
    rw [mem_liveSet, hlive, Finset.mem_erase, mem_liveSet, and_comm]
  refine ⟨⟨?_, fun x hx => ?_⟩, fun x hx => ?_⟩
  · rw [hrq, h.total, sum_enqueuedSet, hset, ← Finset.add_sum_erase _ _ hmem,
      load_of_no_flag hout, Nat.zero_add]
    exact Finset.sum_congr rfl fun x _ => by rw [hse]
  · rw [hse]
    exact h.ok.prio x ⟨((hlive x).mp hx.1).1, by rw [← hse]; exact hx.2⟩
  · rw [hse]
    exact h.prioLt x ((hlive x).mp hx).1

/-- The new priority is at most the last one. -/
theorem ofNat_clamp_lt (n : ℤ) :
    UInt8.ofNat (if n > PRIO_IDLE_MAX.toNat then (PRIO_IDLE_MAX.toNat : ℤ) else n).toNat < 8 := by
  have hmax : PRIO_IDLE_MAX.toNat = 7 := rfl
  have hle : (if n > PRIO_IDLE_MAX.toNat then (PRIO_IDLE_MAX.toNat : ℤ) else n).toNat ≤ 7 := by
    rw [hmax]
    split <;> omega
  rw [UInt8.lt_iff_toNat_lt, UInt8.toNat_ofNat', Nat.mod_eq_of_lt (by omega)]
  show _ < 8
  omega

theorem schedUpdatePriority_lt (h : se.dynamicPriority < 8) :
    (schedUpdatePriority se).dynamicPriority < 8 := by
  unfold schedUpdatePriority
  split
  · exact h
  · exact ofNat_clamp_lt _

theorem dynamicPriority_schedCheckInteractive (se : SchedEntity) :
    (schedCheckInteractive se).dynamicPriority = se.dynamicPriority := by
  unfold schedCheckInteractive
  dsimp only
  split_ifs <;> rfl

section

variable (s : SchedState) (p : ProcPtr) (delta : UInt64)

theorem weightFields_schedUpdateVruntime (x : ProcPtr) :
    weightFields ((schedUpdateVruntime s p delta).se x) = weightFields (s.se x) := by
  have hset : weightFields ((s.setSe p (advanceVruntime delta)).se x) =
      weightFields (s.se x) := by
    rw [setSe_se]
    split <;> rfl
  unfold schedUpdateVruntime
  dsimp only
  split <;> exact hset

theorem totalWeight_schedUpdateVruntime :
    (schedUpdateVruntime s p delta).rq.totalWeight = s.rq.totalWeight := by
  unfold schedUpdateVruntime
  dsimp only
  split <;> rfl

theorem live_schedUpdateVruntime (x : ProcPtr) :
    Live (schedUpdateVruntime s p delta) x ↔ Live s x := by
  unfold schedUpdateVruntime
  dsimp only
  split <;> exact Iff.rfl

end

theorem Weighed.updateVruntime (h : Weighed s) (p : ProcPtr) (delta : UInt64) :
    Weighed (schedUpdateVruntime s p delta) :=
  h.congr (live_schedUpdateVruntime s p delta) (totalWeight_schedUpdateVruntime s p delta)
    (weightFields_schedUpdateVruntime s p delta)

variable {q : Nat → List ProcPtr} {k : Nat}

theorem Weighed.fork (h : Weighed s) (hinv : Inv s q) (hlive : Live s p)
    (hst : (s.procs p).state = .USED) : Weighed (schedFork s p) := by
  have hc : s.rq.curr ≠ some p := fun heq => (hinv.curr p heq).2.2.2.1 hst
  have hp := hinv.not_queued hlive hc (by rw [hst]; decide)
  have hself : (schedFork s p).se p = { SchedEntity.zero with
      staticPriority := PRIO_NORMAL_MIN
      dynamicPriority := PRIO_NORMAL_MIN
      vruntime := s.rq.minVruntime
      lastTimeslice := ((schedFork s p).se p).lastTimeslice } := by
    rw [schedFork, setSe_se, if_pos rfl]
  refine h.writeOut (fun _ => Iff.rfl) rfl (fun x hx => ?_)
    (fun _ => hinv.linked.flag_eq_zero hlive hp) ?_ ?_
  · rw [schedFork, setSe_se, if_neg hx]
  · rw [hself]
    rfl
  · rw [hself]
    show PRIO_NORMAL_MIN < 8
    decide

section

variable (h : Weighed s)

include h

theorem Weighed.wakeup (hinv : Inv s q) (hlive : Live s p) : Weighed (schedWakeup s p) := by
  unfold schedWakeup
  split
  · exact h
  · rename_i hst
    obtain ⟨-, hp, hflag⟩ := hinv.waiting hlive hst
    have hself : (s.setProc p wakeProcess).se p = (wakeProcess (s.procs p)).sched := by
      rw [SchedState.se, setProc_procs, if_pos rfl]
    have hwoken : Weighed (s.setProc p wakeProcess) := by
      refine h.writeOut (fun _ => Iff.rfl) rfl (fun x hx => ?_)
        (fun _ => hinv.linked.flag_eq_zero hlive hp) ?_ ?_
      · rw [SchedState.se, setProc_procs, if_neg hx, SchedState.se]
      · rw [hself]
        exact hflag
      · rw [hself]
        exact schedUpdatePriority_lt (h.prioLt p hlive)
    exact hwoken.enqueue ((hinv.but p).setProc hp rfl hflag).table hlive
      (by rw [hself]; exact hflag)

theorem Weighed.preempt : Weighed (schedulerPreempt s) := by
  unfold schedulerPreempt
  split
  · exact h
  · split
    · exact h.newState _ _
    · exact h

theorem Weighed.tick (now : UInt64) : Weighed (schedulerTick s now) :=
  schedulerTick_induct (P := Weighed) h (fun p => (h.updateVruntime p _).writeSe p rfl)
    fun _ ht => ht.preempt

theorem Weighed.reclaim (hinv : Inv s q) (hc : s.rq.curr = none) (turns i : Nat) :
    Weighed (reclaimFrom s turns i) := by
  refine (reclaimFrom_induct (P := fun t => Weighed t ∧ Inv t q ∧ t.rq.curr = none) ?_
    ⟨h, hinv, hc⟩ turns i).1
  rintro t i p ⟨h, hinv, hc⟩ - hp hst
  obtain ⟨hlive, hnq⟩ := hinv.exited_not_queued hc hp hst
  exact ⟨h.reap hinv.table hp (hinv.linked.flag_eq_zero hlive hnq), hinv.reap hc hnq hp⟩

theorem Weighed.switch (hinv : Inv s q) (hp : p ∈ q k) (now : UInt64) :
    Weighed (switchTo s p now) := by
  have hlive := hinv.linked.live k p hp
  have hin : (s.se p).inRunqueue ≠ 0 := (hinv.linked.flag p hlive).mpr ⟨k, hp⟩
  have hdequeued := h.dequeue hlive hin
  have hcurr : Weighed ((schedDequeue s p).setCurr (some p)) :=
    hdequeued.congr (fun _ => Iff.rfl) rfl fun _ => rfl
  unfold switchTo
  refine (hcurr.newState p .RUNNING).writeSe p ?_
  rfl

theorem Weighed.loop (hinv : Inv s q) (hc : s.rq.curr = none) {now : UInt64}
    (hs : schedulerLoop s now = some s') : Weighed s' := by
  rcases schedulerLoop_cases hinv hc hs with rfl | rfl | ⟨p, k, hk, rfl⟩
  · exact h
  · exact h.reclaim hinv hc _ _
  · exact h.switch hinv hk now

theorem Weighed.account (hlive : Live s p) (hout : (s.se p).inRunqueue = 0) (now : UInt64) :
    Weighed (accountRun s p now) ∧ ((accountRun s p now).se p).inRunqueue = 0 := by
  have hrun := h.updateVruntime p (now - (s.se p).execStart)
  have hlive' := (live_schedUpdateVruntime s p (now - (s.se p).execStart) p).mpr hlive
  have hout' : ((schedUpdateVruntime s p (now - (s.se p).execStart)).se p).inRunqueue = 0 := by
    have hfields := weightFields_schedUpdateVruntime s p (now - (s.se p).execStart) p
    simp only [weightFields, Prod.mk.injEq] at hfields
    rw [hfields.1]
    exact hout
  unfold accountRun
  generalize schedUpdateVruntime s p (now - (s.se p).execStart) = t at hrun hlive' hout'
  have hself : ((t.setSe p fun se => schedUpdatePriority (schedCheckInteractive se)).se p) =
      schedUpdatePriority (schedCheckInteractive (t.se p)) := by
    rw [setSe_se, if_pos rfl]
  have hflag : ((t.setSe p fun se => schedUpdatePriority (schedCheckInteractive se)).se
      p).inRunqueue = 0 := by
    have hupdate := queueFields_schedUpdatePriority (schedCheckInteractive (t.se p))
    have hcheck := queueFields_schedCheckInteractive (t.se p)
    simp only [queueFields, Prod.mk.injEq] at hupdate hcheck
    rw [hself, hupdate.2.2.2, hcheck.2.2.2]
    exact hout'
  refine ⟨hrun.writeOut (fun _ => Iff.rfl) rfl (fun x hx => ?_) (fun _ => hout') hflag ?_, hflag⟩
  · rw [setSe_se, if_neg hx]
  · rw [hself]
    refine schedUpdatePriority_lt ?_
    rw [dynamicPriority_schedCheckInteractive]
    exact hrun.prioLt p hlive'

end

/-- The process that comes back is outside of the run queue. -/
theorem Weighed.resume (h : Weighed s) (hinv : Inv s q) (hc : s.rq.curr = some p)
    (now : UInt64) : Weighed (resumeScheduler s p now) := by
  obtain ⟨hlive, hp, -⟩ := hinv.curr p hc
  obtain ⟨hrun, hout⟩ := h.account hlive (hinv.linked.flag_eq_zero hlive hp) now
  have hkeeps := keeps_accountRun s p now
  have htable := hinv.table.congr hkeeps
  have hlive' := (hkeeps.live p).mpr hlive
  have hreturn : Weighed (handleReturn (accountRun s p now) p) := by
    generalize accountRun s p now = t at hrun hout htable hlive'
    have hstate : Weighed (schedEnqueue (t.setState p .RUNNABLE) p) := by
      refine (hrun.newState p .RUNNABLE).enqueue ⟨htable.compact, fun i x hx => ?_, htable.le⟩
        hlive' ?_
      · rw [setState_i]
        exact htable.index i x hx
      · rw [setState_se]
        exact hout
    unfold handleReturn
    split
    · exact hrun.enqueue htable hlive' hout
    · exact hrun
    · exact hrun.reap htable ((htable.live_iff p).mp hlive') hout
    · exact hrun
    · exact hstate
    · exact hstate
  exact hreturn.congr (fun _ => Iff.rfl) rfl fun _ => rfl

/-- The steps that enqueue or dequeue a process but write no other priority. -/
theorem Weighed.act (h : Weighed s) (hinv : Inv s q) {a : Act} (ha : isSleep a = false)
    (hprio : ∀ p prio, a ≠ .setPriority p prio) (hnice : ∀ p n, a ≠ .nice p n)
    (hs : step s a = some s') : Weighed s' := by
  cases step_cases hs with
  | sleep => cases ha
  | setPriority => exact absurd rfl (hprio _ _)
  | nice => exact absurd rfl (hnice _ _)
  | fork hlive hst => exact h.fork hinv hlive hst
  | wakeup hlive => exact h.wakeup hinv hlive
  | tick => exact h.tick _
  | yield => exact h.newState _ _
  | exit => exact h.newState _ _
  | schedule hc hloop => exact h.loop hinv hc hloop
  | resume hc => exact h.resume hinv hc _

end DzOS.Proofs.Sched.Account
