import DzOS.Lib.Run
import DzOS.Sched.Scheduler

/-!
# `DzOS.Proofs.Sched.Interactive`: the two classes of a process

`sched_check_interactive` sets `SCHED_FLAG_INTERACTIVE` or `SCHED_FLAG_CPU_BOUND` after the ratio of
the sleep time to the run time. A history is a list of entities, as they are when the function is
called: between two calls everything may change but these two flags.

The branch for a low ratio clears the other flag. The branch for a high ratio does not, so a process
that was CPU-bound once stays so, and `sched_update_priority` then gives it the lower priority.
`classes_current_iff` says for which histories this does not show.
-/

set_option autoImplicit false

namespace DzOS.Proofs.Sched

open DzOS.Lib DzOS.Sched

/-- A flag is set. -/
def HasFlag (se : SchedEntity) (flag : UInt32) : Prop := se.flags &&& flag ≠ 0

instance (se : SchedEntity) (flag : UInt32) : Decidable (HasFlag se flag) :=
  inferInstanceAs (Decidable (_ ≠ _))

/-- The flags of the two classes. -/
def CLASS_FLAGS : UInt32 := SCHED_FLAG_INTERACTIVE ||| SCHED_FLAG_CPU_BOUND

/-- The entity `c` at a call, with the class that the entity had after the call before. -/
def inherit (se c : SchedEntity) : SchedEntity :=
  { c with flags := (c.flags &&& ~~~CLASS_FLAGS) ||| (se.flags &&& CLASS_FLAGS) }

/-- A call of `sched_check_interactive`. -/
def checkStep (se c : SchedEntity) : Option SchedEntity :=
  some (schedCheckInteractive (inherit se c))

/-- The ratio that the function computes, in percent. -/
def sleepRatio (c : SchedEntity) : UInt64 := c.sleepTime * 100 / c.sumExecRuntime

/-- The ratio exceeds 150. -/
def SleepsMuch (c : SchedEntity) : Prop :=
  (0 < c.sleepTime ∧ 0 < c.sumExecRuntime) ∧ 150 < sleepRatio c

/-- The ratio is below 50. -/
def SleepsLittle (c : SchedEntity) : Prop :=
  (0 < c.sleepTime ∧ 0 < c.sumExecRuntime) ∧ sleepRatio c < 50

instance (c : SchedEntity) : Decidable (SleepsMuch c) := inferInstanceAs (Decidable (_ ∧ _))

instance (c : SchedEntity) : Decidable (SleepsLittle c) := inferInstanceAs (Decidable (_ ∧ _))

/-- The classes are exclusive. -/
def Exclusive (se : SchedEntity) : Prop :=
  ¬ (HasFlag se SCHED_FLAG_INTERACTIVE ∧ HasFlag se SCHED_FLAG_CPU_BOUND)

/-- A process that sleeps much gets no worse priority than its static one, if it is no real-time
process and its nice value is zero. -/
def Boosted (se c : SchedEntity) : Prop :=
  SleepsMuch c → ∀ se', checkStep se c = some se' → ¬ HasFlag se' SCHED_FLAG_RT → se'.nice = 0 →
    (schedUpdatePriority se').dynamicPriority.toNat
      ≤ max se'.staticPriority.toNat PRIO_NORMAL_MIN.toNat

/-! ### The flags -/

section Flags

variable {f g m : UInt32}

theorem or_and_flags (f g m : UInt32) : (f ||| g) &&& m = f &&& m ||| g &&& m := by
  apply UInt32.eq_of_toBitVec_eq
  simp only [UInt32.toBitVec_and, UInt32.toBitVec_or]
  exact BitVec.and_or_distrib_right

theorem or_flag_ne_zero (hg : g ≠ 0) : f ||| g ≠ 0 := by
  intro h
  have hnat : f.toNat ||| g.toNat = 0 := by
    rw [← UInt32.toNat_or, h]
    rfl
  have hle : g.toNat ≤ f.toNat ||| g.toNat := Nat.right_le_or
  exact hg (UInt32.toNat_inj.mp (show g.toNat = 0 by omega))

/-- The class flags come from the call before. -/
theorem flags_inherit (se c : SchedEntity) (hm : ~~~CLASS_FLAGS &&& m = 0)
    (hclass : CLASS_FLAGS &&& m = m) : (inherit se c).flags &&& m = se.flags &&& m := by
  show ((c.flags &&& ~~~CLASS_FLAGS) ||| (se.flags &&& CLASS_FLAGS)) &&& m = _
  rw [or_and_flags, UInt32.and_assoc, hm, UInt32.and_zero, UInt32.zero_or, UInt32.and_assoc, hclass]

variable {se se' c : SchedEntity}

/-- A call with a high ratio. -/
theorem checkStep_much (h : SleepsMuch c) (hstep : checkStep se c = some se') :
    HasFlag se' SCHED_FLAG_INTERACTIVE ∧
      se'.flags &&& SCHED_FLAG_CPU_BOUND = se.flags &&& SCHED_FLAG_CPU_BOUND := by
  have heq : se'.flags = (inherit se c).flags ||| SCHED_FLAG_INTERACTIVE := by
    have hcall : schedCheckInteractive (inherit se c) =
        { inherit se c with flags := (inherit se c).flags ||| SCHED_FLAG_INTERACTIVE } :=
      (if_pos h.1).trans (if_pos h.2)
    rw [← Option.some.inj hstep, hcall]
  unfold HasFlag
  rw [heq, or_and_flags, or_and_flags, flags_inherit se c (by decide) (by decide),
    flags_inherit se c (by decide) (by decide)]
  exact ⟨or_flag_ne_zero (by decide), by
    rw [show SCHED_FLAG_INTERACTIVE &&& SCHED_FLAG_CPU_BOUND = 0
    from rfl, UInt32.or_zero]⟩

/-- A call with a low ratio. -/
theorem checkStep_little (h : SleepsLittle c) (hstep : checkStep se c = some se') :
    ¬ HasFlag se' SCHED_FLAG_INTERACTIVE ∧ HasFlag se' SCHED_FLAG_CPU_BOUND := by
  have hnot : ¬ 150 < sleepRatio c := by
    intro hmuch
    have hlittle := h.2
    rw [UInt64.lt_iff_toNat_lt] at hmuch hlittle
    exact absurd (hmuch.trans hlittle) (by decide)
  have heq : se'.flags =
      ((inherit se c).flags ||| SCHED_FLAG_CPU_BOUND) &&& ~~~SCHED_FLAG_INTERACTIVE := by
    have hcall : schedCheckInteractive (inherit se c) =
        { inherit se c with
          flags := ((inherit se c).flags ||| SCHED_FLAG_CPU_BOUND) &&&
            ~~~SCHED_FLAG_INTERACTIVE } :=
      (if_pos h.1).trans ((if_neg hnot).trans (if_pos h.2))
    rw [← Option.some.inj hstep, hcall]
  unfold HasFlag
  rw [heq, UInt32.and_assoc, UInt32.and_assoc]
  constructor
  · rw [show ~~~SCHED_FLAG_INTERACTIVE &&& SCHED_FLAG_INTERACTIVE = 0 by decide, UInt32.and_zero]
    exact fun hne => hne rfl
  · rw [show ~~~SCHED_FLAG_INTERACTIVE &&& SCHED_FLAG_CPU_BOUND = SCHED_FLAG_CPU_BOUND by decide,
      or_and_flags]
    exact or_flag_ne_zero (by decide)

/-- A call with a ratio in between, or without a ratio. -/
theorem checkStep_neither (hmuch : ¬ SleepsMuch c) (hlittle : ¬ SleepsLittle c)
    (hstep : checkStep se c = some se') :
    se'.flags &&& SCHED_FLAG_INTERACTIVE = se.flags &&& SCHED_FLAG_INTERACTIVE ∧
      se'.flags &&& SCHED_FLAG_CPU_BOUND = se.flags &&& SCHED_FLAG_CPU_BOUND := by
  have heq : se'.flags = (inherit se c).flags := by
    rw [← Option.some.inj hstep]
    by_cases hboth : 0 < c.sleepTime ∧ 0 < c.sumExecRuntime
    · have hcall : schedCheckInteractive (inherit se c) = inherit se c :=
        (if_pos hboth).trans ((if_neg fun h => hmuch ⟨hboth, h⟩).trans
          (if_neg fun h => hlittle ⟨hboth, h⟩))
      rw [hcall]
    · have hcall : schedCheckInteractive (inherit se c) = inherit se c := if_neg hboth
      rw [hcall]
  rw [heq]
  exact ⟨flags_inherit se c (by decide) (by decide), flags_inherit se c (by decide) (by decide)⟩

/-- The class of a CPU-bound process is never taken back. -/
theorem cpuBound_iff (hstep : checkStep se c = some se') :
    HasFlag se' SCHED_FLAG_CPU_BOUND ↔ HasFlag se SCHED_FLAG_CPU_BOUND ∨ SleepsLittle c := by
  by_cases hlittle : SleepsLittle c
  · exact iff_of_true (checkStep_little hlittle hstep).2 (Or.inr hlittle)
  · rw [or_iff_left hlittle]
    unfold HasFlag
    by_cases hmuch : SleepsMuch c
    · rw [(checkStep_much hmuch hstep).2]
    · rw [(checkStep_neither hmuch hlittle hstep).2]

end Flags

/-! ### The run -/

section Run

variable {se se' c : SchedEntity}

/-- The classes stay exclusive, unless a CPU-bound process sleeps much. -/
theorem Exclusive.step_iff (h : Exclusive se) (hstep : checkStep se c = some se') :
    Exclusive se' ↔ ¬ (HasFlag se SCHED_FLAG_CPU_BOUND ∧ SleepsMuch c) := by
  unfold Exclusive
  by_cases hmuch : SleepsMuch c
  · obtain ⟨hinteractive, hcpu⟩ := checkStep_much hmuch hstep
    rw [and_iff_right hinteractive, and_iff_left hmuch]
    unfold HasFlag
    rw [hcpu]
  · refine iff_of_true ?_ fun hboth => hmuch hboth.2
    by_cases hlittle : SleepsLittle c
    · exact fun hboth => (checkStep_little hlittle hstep).1 hboth.1
    · obtain ⟨hinteractive, hcpu⟩ := checkStep_neither hmuch hlittle hstep
      unfold HasFlag
      rw [hinteractive, hcpu]
      exact h

/-- A process that is interactive and not CPU-bound is boosted. -/
theorem dynamicPriority_le (hrt : ¬ HasFlag se SCHED_FLAG_RT) (hnice : se.nice = 0)
    (hcpu : ¬ HasFlag se SCHED_FLAG_CPU_BOUND) :
    (schedUpdatePriority se).dynamicPriority.toNat
      ≤ max se.staticPriority.toNat PRIO_NORMAL_MIN.toNat := by
  have hzero : (0 : Int8).toInt.tdiv 4 = 0 := by decide
  have hlt := se.staticPriority.toNat_lt
  unfold HasFlag at hrt hcpu
  unfold schedUpdatePriority
  rw [if_neg hrt, hnice, hzero]
  simp only [if_neg hcpu]
  show (UInt8.ofNat _).toNat ≤ _
  rw [UInt8.toNat_ofNat']
  have hmin : PRIO_NORMAL_MIN.toNat = 3 := rfl
  have hmax : PRIO_IDLE_MAX.toNat = 7 := rfl
  rw [hmin, hmax]
  split_ifs <;> omega

/-- The calls are right exactly if no call with a high ratio comes after one with a low ratio, nor
after a low ratio in the past. -/
theorem eachCall_iff_pairwise (se : SchedEntity) (calls : List SchedEntity) :
    EachCall checkStep se calls (fun se c => ¬ (HasFlag se SCHED_FLAG_CPU_BOUND ∧ SleepsMuch c)) ↔
      (HasFlag se SCHED_FLAG_CPU_BOUND → ∀ c ∈ calls, ¬ SleepsMuch c) ∧
        calls.Pairwise fun a b => ¬ (SleepsLittle a ∧ SleepsMuch b) := by
  induction calls generalizing se with
  | nil =>
    exact iff_of_true eachCall_nil
      ⟨fun _ c hc => absurd hc List.not_mem_nil, List.Pairwise.nil⟩
  | cons c calls ih =>
    have hstep : checkStep se c = some (schedCheckInteractive (inherit se c)) := rfl
    rw [eachCall_cons hstep, ih, cpuBound_iff hstep, List.pairwise_cons, List.forall_mem_cons]
    constructor
    · rintro ⟨hc, hrest, hpairs⟩
      exact ⟨fun hcpu => ⟨fun hmuch => hc ⟨hcpu, hmuch⟩, hrest (Or.inl hcpu)⟩,
        fun d hd hboth => hrest (Or.inr hboth.1) d hd hboth.2, hpairs⟩
    · rintro ⟨hcpu, hafter, hpairs⟩
      refine ⟨fun hboth => (hcpu hboth.1).1 hboth.2, ?_, hpairs⟩
      rintro (hbefore | hlittle) d hd
      · exact (hcpu hbefore).2 d hd
      · exact fun hmuch => hafter d hd ⟨hlittle, hmuch⟩

/-- In a history of a new process, the classes are exclusive and a process that sleeps much is
boosted, if and only if no call with a ratio above 150 comes after a call with a ratio below 50. -/
theorem classes_current_iff (se : SchedEntity) (calls : List SchedEntity)
    (hnew : se.flags &&& CLASS_FLAGS = 0) :
    (Throughout checkStep se calls Exclusive ∧ EachCall checkStep se calls Boosted) ↔
      calls.Pairwise fun a b => ¬ (SleepsLittle a ∧ SleepsMuch b) := by
  have hclear : ∀ m, CLASS_FLAGS &&& m = m → ¬ HasFlag se m := by
    intro m hm hset
    rw [← hm] at hset
    unfold HasFlag at hset
    rw [← UInt32.and_assoc, hnew, UInt32.zero_and] at hset
    exact hset rfl
  have hcpu := hclear SCHED_FLAG_CPU_BOUND (by decide)
  have htotal : (runSteps checkStep se calls).isSome := runSteps_isSome (fun _ _ => rfl) _ _
  have hiff : (Throughout checkStep se calls Exclusive ∧ EachCall checkStep se calls Boosted) ↔
      EachCall checkStep se calls fun se c =>
        ¬ (HasFlag se SCHED_FLAG_CPU_BOUND ∧ SleepsMuch c) := by
    refine throughout_and_eachCall_iff (V := fun _ _ => True) (fun se h => h) ?_ ?_
      (fun hboth => hcpu hboth.2) (fun _ _ _ _ _ => trivial) (runSteps_getD htotal)
    · intro se c se' h _ hstep hok
      refine ⟨(h.step_iff hstep).mpr hok, ?_⟩
      intro hmuch t ht hrt hnice
      cases ht
      have hsame := (checkStep_much hmuch hstep).2
      refine dynamicPriority_le hrt hnice ?_
      intro hset
      cases hstep
      unfold HasFlag at hset
      rw [hsame] at hset
      exact hok ⟨hset, hmuch⟩
    · intro se c se' h _ hstep hnot h' _
      exact hnot ((h.step_iff hstep).mp h')
  rw [hiff, eachCall_iff_pairwise]
  exact and_iff_right fun hset => absurd hset hcpu

/-- The entity of a new process with these times. -/
def withTimes (sleepTime sumExecRuntime : UInt64) : SchedEntity :=
  { SchedEntity.zero with
    staticPriority := PRIO_NORMAL_MIN
    dynamicPriority := PRIO_NORMAL_MIN
    sleepTime := sleepTime
    sumExecRuntime := sumExecRuntime }

theorem classes_current_interactive :
    Throughout checkStep SchedEntity.zero [withTimes 300 100, withTimes 300 1000] Exclusive ∧
      EachCall checkStep SchedEntity.zero [withTimes 300 100, withTimes 300 1000] Boosted :=
  (classes_current_iff SchedEntity.zero _ rfl).mpr (by decide)

/-- A process that runs long and then sleeps long has both classes. -/
theorem both_classes :
    ¬ Throughout checkStep SchedEntity.zero [withTimes 100 1000, withTimes 3000 1100]
      Exclusive := by
  intro h
  exact h _ _ List.prefix_rfl rfl (by decide)

end Run

end DzOS.Proofs.Sched
