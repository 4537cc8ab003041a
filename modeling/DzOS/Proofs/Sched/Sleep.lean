import DzOS.Drivers.Rtc
import DzOS.Lib.Outcome
import DzOS.Proofs.Sched.Blocking
import DzOS.Proofs.Sched.RunQueue

/-!
# `DzOS.Proofs.Sched.Sleep`: how long `sys_sleep` waits

`ReturnsAt` is a call of `sys_sleep` from its start to its return, as the sleeping process sees it.
Other processes run between two turns of its loop, so the states there are arbitrary. The clock is
any sequence of readings, and `ReturnsAt` gives the number of the reading at which the loop ends.

`returnsAt_iff` finds this reading: it is the first one from `clock 0 + msec` on. The argument
counts milliseconds and the clock microseconds, so the loop may end too early.
`sleep_long_enough_iff` gives the clocks for which it does not, and `sleep_always_long_enough_iff`
the durations for which it never does.
-/

set_option autoImplicit false

namespace DzOS.Proofs.Sched

open DzOS.Lib DzOS.Sched DzOS.Drivers DzOS.Proofs.Sched.Blocking

/-- A duration in milliseconds, in the unit of the clock. -/
def clockTicks (msec : UInt64) : ℕ := RTC_PRECISION.toNat / 1000 * msec.toNat

/-- A call of `sys_sleep` in the process `p` returns at the reading `k` of the clock. Turn `i` of
the loop makes the reading `i`, with the state `s i` before it and `s' i` after it. While other
processes run, `p` stays where it is. -/
def ReturnsAt (c : LockConfig) (p : ProcPtr) (msec : UInt64) (clock : ℕ → UInt64) (k : ℕ) : Prop :=
  1 ≤ k ∧ ∃ s s' : ℕ → BlockState,
    sysSleep c p msec (clock 0) (clock 1) (s 1) = .ok (s' 1) ∧
    (∀ i, 1 ≤ i → i < k → (s' i).resume p ≠ .user ∧ (s (i + 1)).resume p = (s' i).resume p ∧
      continueCall c p (clock (i + 1)) (s (i + 1)) = .ok (s' (i + 1))) ∧
    (s' k).resume p = .user

section Loop

variable {c : LockConfig} {p : ProcPtr} {target now : UInt64} {s s' : BlockState}

/-- The two ends of a turn of the loop. -/
theorem sleepLoop_cases (h : sleepLoop c p target now s = .ok s') :
    (now < target ∧ s'.resume p = .sleep target) ∨ (target ≤ now ∧ s'.resume p = .user) := by
  unfold sleepLoop at h
  split at h
  · rename_i hearly
    refine Or.inl ⟨hearly, ?_⟩
    unfold schedulerSwitchBack at h
    split_ifs at h
    cases h
    exact Function.update_self _ _ _
  · rename_i hlate
    obtain ⟨t, -, hret⟩ := bind_eq_ok.mp h
    cases hret
    exact Or.inr ⟨UInt64.not_lt.mp hlate, Function.update_self _ _ _⟩

/-- With locks, the process holds its own. -/
def HoldsLock (c : LockConfig) (p : ProcPtr) (s : BlockState) : Prop :=
  c.locks = true → s.lock (.proc p) = { locked := 1, holdingCpu := c.cpu }

theorem HoldsLock.held (h : HoldsLock c p s) (hc : c.locks = true) : Held c s (.proc p) := by
  unfold Held thisCpuHoldingLock
  rw [h hc]
  simp

/-- A turn of the loop does not panic. -/
theorem sleepLoop_isOk (hlock : HoldsLock c p s) (target now : UInt64) :
    ∃ s', sleepLoop c p target now s = .ok s' := by
  unfold sleepLoop
  split
  · -- the switch asks for the lock, and for another state than `RUNNING`
    have hstate : ((s.sched.setState p .RUNNABLE).procs p).state ≠ .RUNNING := by
      rw [setState_state, if_pos rfl]
      decide
    refine ⟨(s.mapSched fun sched => sched.setState p .RUNNABLE).stopAt p (.sleep target), ?_⟩
    cases hc : c.locks with
    | false =>
      unfold schedulerSwitchBack spinlockLocked
      rw [hc]
      exact if_neg hstate
    | true => exact schedulerSwitchBack_held (hlock.held hc) hstate
  · cases hc : c.locks with
    | false =>
      refine ⟨s.returnTo p 0, ?_⟩
      unfold spinlockUnlock
      rw [hc]
      rfl
    | true =>
      refine ⟨(setLock s (.proc p) ⟨0, 0⟩).returnTo p 0, ?_⟩
      rw [bind_ok (spinlockUnlock_held hc (hlock.held hc))]
      rfl

/-- `sys_sleep` takes the lock and enters the loop. -/
theorem sysSleep_eq (msec now now' : UInt64)
    (hfree : s.lock (.proc p) = { locked := 0, holdingCpu := 0 }) :
    ∃ s₁, HoldsLock c p s₁ ∧ sysSleep c p msec now now' s = sleepLoop c p (now + msec) now' s₁ := by
  unfold sysSleep
  cases hc : c.locks with
  | false =>
    refine ⟨s, fun hlocks => ?_, ?_⟩
    · rw [hc] at hlocks
      cases hlocks
    · unfold spinlockLock
      rw [hc]
      rfl
  | true =>
    refine ⟨setLock s (.proc p) ⟨1, c.cpu⟩, fun _ => setLock_lock_self _, ?_⟩
    exact bind_ok (spinlockLock_free hc (congrArg Spinlock.locked hfree))

/-- `sys_sleep` ends its first turn like any other. -/
theorem sysSleep_cases {msec now' : UInt64} (h : sysSleep c p msec now now' s = .ok s') :
    (now' < now + msec ∧ s'.resume p = .sleep (now + msec)) ∨
      (now + msec ≤ now' ∧ s'.resume p = .user) := by
  obtain ⟨t, -, hloop⟩ := bind_eq_ok.mp h
  exact sleepLoop_cases hloop

end Loop

section Clock

variable {c : LockConfig} {p : ProcPtr} {msec : UInt64} {clock : ℕ → UInt64} {k : ℕ}

/-- The readings before the last one lie before the target, and the last one does not. -/
theorem ReturnsAt.first (h : ReturnsAt c p msec clock k) :
    (∀ i, 1 ≤ i → i < k → clock i < clock 0 + msec) ∧ clock 0 + msec ≤ clock k := by
  obtain ⟨hk, s, s', hstart, hturn, hend⟩ := h
  -- Each turn ends in the loop or returns, by the reading that it makes.
  have hcases : ∀ i, 1 ≤ i → i ≤ k →
      (clock i < clock 0 + msec ∧ (s' i).resume p = .sleep (clock 0 + msec)) ∨
        (clock 0 + msec ≤ clock i ∧ (s' i).resume p = .user) := by
    intro i hi
    induction i, hi using Nat.le_induction with
    | base =>
      intro _
      exact sysSleep_cases hstart
    | succ i hi ih =>
      intro hle
      obtain ⟨hrunning, hresume, hcall⟩ := hturn i hi (by omega)
      obtain ⟨-, hsleeps⟩ | ⟨-, huser⟩ := ih (by omega)
      · unfold continueCall at hcall
        rw [hresume, hsleeps] at hcall
        exact sleepLoop_cases hcall
      · exact absurd huser hrunning
  constructor
  · intro i hi hlt
    obtain ⟨hearly, -⟩ | ⟨-, huser⟩ := hcases i hi hlt.le
    · exact hearly
    · exact absurd huser (hturn i hi hlt).1
  · obtain ⟨-, hsleeps⟩ | ⟨hlate, -⟩ := hcases k hk le_rfl
    · rw [hsleeps] at hend
      cases hend
    · exact hlate

/-- A state in which every lock is `l` and every process goes on at `r`. -/
def uniformState (l : Spinlock) (r : Resume) : BlockState where
  sched := twoProcesses
  lock := fun _ => l
  exitStatus := fun _ => 0
  resume := fun _ => r
  ret := fun _ => 0
  nextPid := 1
  readIndex := 0
  writeIndex := 0

/-- A call can start at any readings. -/
theorem sysSleep_runs (c : LockConfig) (p : ProcPtr) (msec now now' : UInt64) :
    ∃ s s', sysSleep c p msec now now' s = .ok s' := by
  obtain ⟨s₁, hs₁, heq⟩ :=
    sysSleep_eq (c := c) (p := p) (s := uniformState ⟨0, 0⟩ .user) msec now now' rfl
  obtain ⟨s', hs'⟩ := sleepLoop_isOk hs₁ (now + msec) now'
  exact ⟨_, s', heq.trans hs'⟩

/-- A call in its loop can go on at any reading. -/
theorem sleep_goesOn (c : LockConfig) (p : ProcPtr) (target now : UInt64) :
    ∃ s s', s.resume p = .sleep target ∧ continueCall c p now s = .ok s' := by
  have hlock : HoldsLock c p (uniformState ⟨1, c.cpu⟩ (.sleep target)) := fun _ => rfl
  obtain ⟨s', hs'⟩ := sleepLoop_isOk hlock target now
  exact ⟨uniformState ⟨1, c.cpu⟩ (.sleep target), s', rfl, hs'⟩

/-- A turn of the loop, by the reading that it makes. -/
theorem continueCall_sleep {target now : UInt64} {s s' : BlockState}
    (hresume : s.resume p = .sleep target) (h : continueCall c p now s = .ok s') :
    (now < target ∧ s'.resume p = .sleep target) ∨ (target ≤ now ∧ s'.resume p = .user) := by
  unfold continueCall at h
  rw [hresume] at h
  exact sleepLoop_cases h

/-- The call returns at the first reading that reaches the target, and at no other. -/
theorem returnsAt_iff (c : LockConfig) (p : ProcPtr) (msec : UInt64) (clock : ℕ → UInt64)
    (k : ℕ) : ReturnsAt c p msec clock k ↔
      1 ≤ k ∧ (∀ i, 1 ≤ i → i < k → clock i < clock 0 + msec) ∧ clock 0 + msec ≤ clock k := by
  constructor
  · intro h
    exact ⟨h.1, h.first⟩
  · rintro ⟨hk, hearly, hlate⟩
    obtain ⟨s₁, s₁', hstart⟩ := sysSleep_runs c p msec (clock 0) (clock 1)
    choose s s' hresume hcall using fun i => sleep_goesOn c p (clock 0 + msec) (clock i)
    have hcases : ∀ i, (clock i < clock 0 + msec ∧
          (Function.update s' 1 s₁' i).resume p = .sleep (clock 0 + msec)) ∨
        (clock 0 + msec ≤ clock i ∧ (Function.update s' 1 s₁' i).resume p = .user) := by
      intro i
      by_cases hi : i = 1
      · subst hi
        rw [Function.update_self]
        exact sysSleep_cases hstart
      · rw [Function.update_of_ne hi]
        exact continueCall_sleep (hresume i) (hcall i)
    have hsleeps : ∀ i, 1 ≤ i → i < k →
        (Function.update s' 1 s₁' i).resume p = .sleep (clock 0 + msec) := by
      intro i hi hlt
      obtain ⟨-, hsleep⟩ | ⟨hpast, -⟩ := hcases i
      · exact hsleep
      · exact absurd (hearly i hi hlt) (UInt64.not_lt.mpr hpast)
    refine ⟨hk, Function.update s 1 s₁, Function.update s' 1 s₁', ?_, ?_, ?_⟩
    · rw [Function.update_self, Function.update_self]
      exact hstart
    · intro i hi hlt
      rw [hsleeps i hi hlt, Function.update_of_ne (by omega), Function.update_of_ne (by omega)]
      exact ⟨by simp, hresume (i + 1), hcall (i + 1)⟩
    · obtain ⟨hbefore, -⟩ | ⟨-, huser⟩ := hcases k
      · exact absurd hlate (UInt64.not_le.mpr hbefore)
      · exact huser

/-- `sys_sleep` waits long enough: the reading at which it returns is as late as the duration
asks for. -/
def SleepsLongEnough (c : LockConfig) (p : ProcPtr) (msec : UInt64) (clock : ℕ → UInt64) : Prop :=
  ∀ k, ReturnsAt c p msec clock k → (clock 0).toNat + clockTicks msec ≤ (clock k).toNat

/-- A reading of the loop lies at `msec` microseconds or later, and before the end of `msec`
milliseconds. -/
def ReadsTooEarly (msec : UInt64) (clock : ℕ → UInt64) (i : ℕ) : Prop :=
  1 ≤ i ∧ (clock 0).toNat + msec.toNat ≤ (clock i).toNat ∧
    (clock i).toNat < (clock 0).toNat + clockTicks msec

theorem clockTicks_eq (msec : UInt64) : clockTicks msec = 1000 * msec.toNat := rfl

theorem target_toNat {start : UInt64} (hfit : start.toNat + clockTicks msec < 2 ^ 64) :
    (start + msec).toNat = start.toNat + msec.toNat := by
  rw [clockTicks_eq] at hfit
  rw [UInt64.toNat_add]
  omega

/-- `sys_sleep` waits long enough on a clock if and only if the clock is never read between
`msec` microseconds and `msec` milliseconds after the start. -/
theorem sleep_long_enough_iff (c : LockConfig) (p : ProcPtr) (msec : UInt64)
    (clock : ℕ → UInt64) (hclock : Monotone fun i => (clock i).toNat)
    (hfit : (clock 0).toNat + clockTicks msec < 2 ^ 64) :
    SleepsLongEnough c p msec clock ↔ ∀ i, ¬ ReadsTooEarly msec clock i := by
  have htarget := target_toNat hfit
  constructor
  · intro hlong i hearly
    -- The first such reading is the one at which the call returns.
    classical
    have hexists : ∃ i, ReadsTooEarly msec clock i := ⟨i, hearly⟩
    obtain ⟨h1, hpast, hbefore⟩ := Nat.find_spec hexists
    have hreturns : ReturnsAt c p msec clock (Nat.find hexists) := by
      rw [returnsAt_iff]
      refine ⟨h1, ?_, ?_⟩
      · intro j hj hlt
        have hle : (clock j).toNat ≤ (clock (Nat.find hexists)).toNat := hclock hlt.le
        have hmin : ¬ ReadsTooEarly msec clock j := Nat.find_min hexists hlt
        rw [UInt64.lt_iff_toNat_lt, htarget]
        by_contra hnot
        exact hmin ⟨hj, by omega, by omega⟩
      · rw [UInt64.le_iff_toNat_le, htarget]
        exact hpast
    have hle := hlong _ hreturns
    omega
  · intro hnone k hreturns
    obtain ⟨h1, -, hlate⟩ := (returnsAt_iff c p msec clock k).mp hreturns
    rw [UInt64.le_iff_toNat_le, htarget] at hlate
    by_contra hnot
    exact hnone k ⟨h1, hlate, by omega⟩

/-- The clock of a start, and of one later time. -/
def twoReadings (start later : UInt64) : ℕ → UInt64 := fun i => if i = 0 then start else later

theorem monotone_twoReadings {start later : UInt64} (h : start.toNat ≤ later.toNat) :
    Monotone fun i => (twoReadings start later i).toNat := by
  refine monotone_nat_of_le_succ fun i => ?_
  show (if i = 0 then start else later).toNat ≤ later.toNat
  split_ifs
  · exact h
  · exact le_rfl

/-- One CPU with locks. -/
def oneCpu : LockConfig := ⟨0, fun _ => 0, true⟩

theorem sleep_half_second : SleepsLongEnough oneCpu 1 500 (twoReadings 0 500000) := by
  refine (sleep_long_enough_iff oneCpu 1 500 _ (monotone_twoReadings (by decide)) (by decide)).mpr
    ?_
  rintro i ⟨hi, hpast, hbefore⟩
  have hlater : twoReadings 0 500000 i = 500000 := if_neg (by omega)
  rw [hlater] at hbefore
  exact absurd hbefore (by decide)

/-- A sleep of 500 milliseconds ends after 500 microseconds. -/
theorem sleep_half_millisecond :
    (Monotone fun i => (twoReadings 0 500 i).toNat) ∧
      (twoReadings 0 500 0).toNat + clockTicks 500 < 2 ^ 64 ∧
      ¬ SleepsLongEnough oneCpu 1 500 (twoReadings 0 500) := by
  refine ⟨monotone_twoReadings (by decide), by decide, ?_⟩
  intro hlong
  have hreturns : ReturnsAt oneCpu 1 500 (twoReadings 0 500) 1 := by
    rw [returnsAt_iff]
    exact ⟨le_rfl, fun i hi hlt => absurd hlt (by omega), by decide⟩
  exact absurd (hlong 1 hreturns) (by decide)

/-- The only duration for which `sys_sleep` waits long enough on every clock is zero. -/
theorem sleep_always_long_enough_iff (c : LockConfig) (p : ProcPtr) (msec start : UInt64)
    (hfit : start.toNat + clockTicks msec < 2 ^ 64) :
    (∀ clock : ℕ → UInt64, (Monotone fun i => (clock i).toNat) → clock 0 = start →
      SleepsLongEnough c p msec clock) ↔ msec = 0 := by
  constructor
  · intro hall
    have hsum : (start + msec).toNat = start.toNat + msec.toNat := target_toNat hfit
    have hmono := monotone_twoReadings (show start.toNat ≤ (start + msec).toNat by omega)
    have hnone := (sleep_long_enough_iff c p msec _ hmono hfit).mp (hall _ hmono rfl) 1
    by_contra hne
    have hpos : msec.toNat ≠ 0 := fun h => hne (UInt64.toNat_inj.mp h)
    refine hnone ⟨le_rfl, ?_, ?_⟩
    · show start.toNat + msec.toNat ≤ (start + msec).toNat
      exact hsum.ge
    · show (start + msec).toNat < start.toNat + clockTicks msec
      rw [clockTicks_eq]
      omega
  · rintro rfl clock hclock hstart
    rw [sleep_long_enough_iff c p 0 clock hclock (by rw [hstart]; exact hfit)]
    rintro i ⟨-, hpast, hbefore⟩
    have hticks : clockTicks 0 = 0 := rfl
    omega

end Clock

end DzOS.Proofs.Sched
