import DzOS.Cpu.Spinlock
import DzOS.Lib.Outcome

/-!
# `DzOS.Proofs.Cpu.Spinlock`: spinlocks nest with interrupts

`heldAfter` lists the locks that a sequence of calls has taken and not given back. `LockInv` is the
invariant of the sequences: the locks are those of the list, the depth is its length, and while it
is not empty the flag is clear and the saved flag is the one of the start.

The test whether the CPU holds a lock makes a save and a restore of its own. They happen inside a
critical section, where they change nothing (`thisCpuHoldingLock_inside`), or before a panic.
`spinlocks_nest` puts the calls together. `sched_spinlockLock_eq` and `sched_spinlockUnlock_eq`
connect them with the locks of the scheduler.
-/

set_option autoImplicit false

namespace DzOS.Proofs.Cpu

open DzOS.Cpu
open DzOS.Sched (Spinlock Stop)

variable {L : Type}

/-! ### The test -/

section Test

variable {s : LockState L} {l : L}

/-- The answer of the test. -/
theorem thisCpuHoldingLock_fst (l : L) (s : LockState L) : (thisCpuHoldingLock l s).1 =
    ((s.lock l).locked != 0 && (s.lock l).holdingCpu == s.cpu.cpuid.toUInt32) := rfl

/-- A save and a restore inside a critical section. -/
theorem restore_save (hdepth : s.cpu.depth ≠ 0) (hflag : s.interruptsEnabled = false) :
    restoreInterrupts (saveAndDisableInterrupts s) = s := by
  have hback : s.cpu.depth + 1 - 1 = s.cpu.depth := UInt16.add_sub_cancel _ _
  unfold saveAndDisableInterrupts restoreInterrupts
  simp only [hback, if_neg hdepth]
  rw [if_neg (fun h => hdepth h.1), ← hflag]

/-- The fields after a restore. -/
theorem restoreInterrupts_eq (s : LockState L) : restoreInterrupts s =
    { s with
      cpu := { s.cpu with depth := s.cpu.depth - 1 }
      interruptsEnabled :=
        if s.cpu.depth - 1 = 0 ∧ s.cpu.wasEnabled then true else s.interruptsEnabled } := by
  unfold restoreInterrupts
  simp only
  split <;> rfl

/-- The test changes nothing inside a critical section. -/
theorem thisCpuHoldingLock_inside (hdepth : s.cpu.depth ≠ 0) (hflag : s.interruptsEnabled = false) :
    (thisCpuHoldingLock l s).2 = s := restore_save hdepth hflag

end Test

/-! ### The invariant -/

variable [DecidableEq L]

/-- The locks that are held after the calls, from those held before. -/
def heldAfter : List L → List (LockCall L) → List L
  | held, [] => held
  | held, .lock l :: calls => heldAfter (l :: held) calls
  | held, .unlock l :: calls => heldAfter (held.erase l) calls

/-- A CPU with spinlocks enabled that holds none of them. Its interrupt flag is `b`. -/
structure NothingHeld (b : Bool) (s : LockState L) : Prop where
  enabled : s.spinlocksEnabled = true
  flag : s.interruptsEnabled = b
  depth : s.cpu.depth = 0
  free : ∀ l, (s.lock l).locked = 0

/-- The CPU holds the locks of the list, and its flag was `b` before the first of them. -/
structure LockInv (b : Bool) (held : List L) (s : LockState L) : Prop where
  enabled : s.spinlocksEnabled = true
  nodup : held.Nodup
  depth : s.cpu.depth.toNat = held.length
  taken : ∀ l ∈ held, s.lock l = { locked := 1, holdingCpu := s.cpu.cpuid.toUInt32 }
  free : ∀ l, l ∉ held → (s.lock l).locked = 0
  flag : s.interruptsEnabled = (decide (held = []) && b)
  saved : held ≠ [] → s.cpu.wasEnabled = b

/-- What is expected of a state in which the CPU holds the locks of the list. -/
structure LocksNest (b : Bool) (held : List L) (s : LockState L) : Prop where
  /-- Interrupts are disabled while a lock is held. -/
  disabled : held ≠ [] → s.interruptsEnabled = false
  /-- Without a lock, the flag is the one before the first acquisition. -/
  restored : held = [] → s.interruptsEnabled = b
  depth : s.cpu.depth.toNat = held.length
  deadlock : ∀ l, spinlockLock l s = .error (.panic "deadlock") ↔ l ∈ held
  notHolding : ∀ l, spinlockUnlock l s = .error (.panic "cpu not holding lock") ↔ l ∉ held
  /-- A call goes wrong in these two ways only. -/
  locks : ∀ l, l ∉ held → ∃ s', spinlockLock l s = .ok s'
  unlocks : ∀ l ∈ held, ∃ s', spinlockUnlock l s = .ok s'

/-! ### The calls -/

section Calls

variable {b : Bool} {held : List L} {s s' : LockState L} {l : L}

/-- The answer of the test is right. -/
theorem LockInv.holding (h : LockInv b held s) (l : L) :
    (thisCpuHoldingLock l s).1 = decide (l ∈ held) := by
  rw [thisCpuHoldingLock_fst]
  by_cases hl : l ∈ held
  · rw [h.taken l hl, decide_eq_true hl]
    show ((1 : UInt32) != 0 && s.cpu.cpuid.toUInt32 == s.cpu.cpuid.toUInt32) = true
    rw [beq_self_eq_true]
    rfl
  · rw [h.free l hl, decide_eq_false hl]
    rfl

omit [DecidableEq L] in
theorem LockInv.depth_ne_zero (h : LockInv b held s) (hheld : held ≠ []) : s.cpu.depth ≠ 0 := by
  intro hzero
  have hlength := h.depth
  rw [hzero] at hlength
  exact hheld (List.length_eq_zero_iff.mp hlength.symm)

omit [DecidableEq L] in
theorem LockInv.flag_false (h : LockInv b held s) (hheld : held ≠ []) :
    s.interruptsEnabled = false := by
  rw [h.flag, decide_eq_false hheld]
  rfl

section

variable (h : LockInv b held s)

include h

omit [DecidableEq L] in
/-- The state inside `spinlock_lock`, after the save. -/
theorem LockInv.save (hfew : held.length < 65535) :
    (saveAndDisableInterrupts s).cpu.depth.toNat = held.length + 1 ∧
      (saveAndDisableInterrupts s).cpu.wasEnabled = b := by
  have hdepth := h.depth
  constructor
  · show (s.cpu.depth + 1).toNat = _
    rw [UInt16.toNat_add, hdepth]
    show (held.length + 1) % 2 ^ 16 = _
    omega
  · show (if s.cpu.depth = 0 then s.interruptsEnabled else s.cpu.wasEnabled) = b
    split
    · rename_i hzero
      rw [hzero] at hdepth
      have hheld : held = [] := List.length_eq_zero_iff.mp hdepth.symm
      rw [h.flag, decide_eq_true hheld, Bool.true_and]
    · rename_i hne
      apply h.saved
      rintro rfl
      exact hne (UInt16.toNat_inj.mp hdepth)

/-- A lock that is held: the call panics. -/
theorem LockInv.lock_held (hl : l ∈ held) : spinlockLock l s = .error (.panic "deadlock") := by
  have hholding : (thisCpuHoldingLock l (saveAndDisableInterrupts s)).1 = true := by
    have htest := h.holding l
    rw [decide_eq_true hl] at htest
    exact htest
  unfold spinlockLock
  rw [h.enabled]
  simp only [hholding]
  rfl

/-- A lock that is free: the call takes it. -/
theorem LockInv.lock_free (hfew : held.length < 65535) (hl : l ∉ held) :
    ∃ s', spinlockLock l s = .ok s' ∧ LockInv b (l :: held) s' := by
  obtain ⟨hdepth, hsaved⟩ := h.save hfew
  have hne : (saveAndDisableInterrupts s).cpu.depth ≠ 0 := by
    intro hzero
    rw [hzero] at hdepth
    exact absurd hdepth (by simp)
  have hholding : (thisCpuHoldingLock l (saveAndDisableInterrupts s)).1 = false := by
    have htest := h.holding l
    rw [decide_eq_false hl] at htest
    exact htest
  have hstate :
      (thisCpuHoldingLock l (saveAndDisableInterrupts s)).2 = saveAndDisableInterrupts s :=
    thisCpuHoldingLock_inside hne rfl
  refine ⟨{ saveAndDisableInterrupts s with
    lock := Function.update s.lock l ⟨1, s.cpu.cpuid.toUInt32⟩ }, ?_, ?_⟩
  · unfold spinlockLock
    rw [h.enabled]
    simp only [hholding, hstate]
    show (if (s.lock l).locked ≠ 0 then _ else _) = _
    rw [if_neg (not_not.mpr (h.free l hl))]
    rfl
  · exact {
      enabled := h.enabled
      nodup := List.nodup_cons.mpr ⟨hl, h.nodup⟩
      depth := hdepth
      taken := by
        intro x hx
        show Function.update s.lock l _ x = _
        by_cases heq : x = l
        · rw [heq, Function.update_self]
          rfl
        · rw [Function.update_of_ne heq]
          exact h.taken x (List.mem_of_ne_of_mem heq hx)
      free := by
        intro x hx
        obtain ⟨hne, hnot⟩ := not_or.mp (fun hor => hx (List.mem_cons.mpr hor))
        show (Function.update s.lock l _ x).locked = 0
        rw [Function.update_of_ne hne]
        exact h.free x hnot
      flag := rfl
      saved := fun _ => hsaved }

/-- A lock that is not held: the call panics. -/
theorem LockInv.unlock_free (hl : l ∉ held) :
    spinlockUnlock l s = .error (.panic "cpu not holding lock") := by
  have hholding := h.holding l
  rw [decide_eq_false hl] at hholding
  unfold spinlockUnlock
  rw [h.enabled]
  simp only [hholding]
  rfl

/-- A lock that is held: the call gives it back, wherever it stands in the list. -/
theorem LockInv.unlock_held (hl : l ∈ held) :
    ∃ s', spinlockUnlock l s = .ok s' ∧ LockInv b (held.erase l) s' := by
  have hheld : held ≠ [] := List.ne_nil_of_mem hl
  have hholding := h.holding l
  rw [decide_eq_true hl] at hholding
  have hstate : (thisCpuHoldingLock l s).2 = s :=
    thisCpuHoldingLock_inside (h.depth_ne_zero hheld) (h.flag_false hheld)
  have hlength := List.length_erase_of_mem hl
  have hpos := List.length_pos_of_mem hl
  have hdepth : (s.cpu.depth - 1).toNat = (held.erase l).length := by
    have hnow := h.depth
    rw [UInt16.toNat_sub, hlength, hnow]
    have hlt := s.cpu.depth.toNat_lt
    show (2 ^ 16 - 1 + held.length) % 2 ^ 16 = _
    omega
  have hlast : s.cpu.depth - 1 = 0 ↔ held.erase l = [] := by
    rw [← UInt16.toNat_inj, hdepth]
    exact List.length_eq_zero_iff
  refine ⟨restoreInterrupts { s with lock := Function.update s.lock l ⟨0, 0⟩ }, ?_, ?_⟩
  · unfold spinlockUnlock
    simp only [h.enabled, hholding, hstate]
    rfl
  · rw [restoreInterrupts_eq]
    exact {
      enabled := h.enabled
      nodup := h.nodup.erase l
      depth := hdepth
      taken := by
        intro x hx
        obtain ⟨hne, hmem⟩ := (h.nodup.mem_erase_iff).mp hx
        show Function.update s.lock l _ x = _
        rw [Function.update_of_ne hne]
        exact h.taken x hmem
      free := by
        intro x hx
        show (Function.update s.lock l _ x).locked = 0
        by_cases heq : x = l
        · rw [heq, Function.update_self]
        · rw [Function.update_of_ne heq]
          exact h.free x fun hmem => hx ((List.mem_erase_of_ne heq).mpr hmem)
      flag := by
        show (if s.cpu.depth - 1 = 0 ∧ s.cpu.wasEnabled = true then true
          else s.interruptsEnabled) = _
        rw [h.saved hheld, h.flag_false hheld]
        -- the flag comes back with the last lock, if it was set
        by_cases hempty : held.erase l = []
        · rw [decide_eq_true hempty]
          cases b <;> simp [hlast.mpr hempty]
        · rw [decide_eq_false hempty, if_neg (fun hand => hempty (hlast.mp hand.1))]
          rfl
      saved := fun _ => h.saved hheld }

/-- A state with the invariant is as expected. -/
theorem LockInv.nest (hfew : held.length < 65535) :
    LocksNest b held s where
  disabled := h.flag_false
  restored := by
    rintro rfl
    exact h.flag
  depth := h.depth
  deadlock := by
    intro l
    constructor
    · intro hpanic
      by_contra hl
      obtain ⟨s', hok, -⟩ := h.lock_free hfew hl
      rw [hpanic] at hok
      cases hok
    · exact h.lock_held
  notHolding := by
    intro l
    constructor
    · intro hpanic hl
      obtain ⟨s', hok, -⟩ := h.unlock_held hl
      rw [hpanic] at hok
      cases hok
    · exact h.unlock_free
  locks := by
    intro l hl
    obtain ⟨s', hok, -⟩ := h.lock_free hfew hl
    exact ⟨s', hok⟩
  unlocks := by
    intro l hl
    obtain ⟨s', hok, -⟩ := h.unlock_held hl
    exact ⟨s', hok⟩

/-- A call that does not panic keeps the invariant. -/
theorem LockInv.call (hfew : held.length < 65535) (c : LockCall L) (hcall : lockCall s c = .ok s') :
    LockInv b (heldAfter held [c]) s' := by
  cases c with
  | lock l =>
    have hl : l ∉ held := by
      intro hmem
      have hpanic : lockCall s (.lock l) = .error (.panic "deadlock") := h.lock_held hmem
      rw [hpanic] at hcall
      cases hcall
    obtain ⟨t, hok, ht⟩ := h.lock_free hfew hl
    have heq : lockCall s (.lock l) = .ok t := hok
    rw [heq] at hcall
    cases hcall
    exact ht
  | unlock l =>
    have hl : l ∈ held := by
      by_contra hmem
      have hpanic : lockCall s (.unlock l) = .error (.panic "cpu not holding lock") :=
        h.unlock_free hmem
      rw [hpanic] at hcall
      cases hcall
    obtain ⟨t, hok, ht⟩ := h.unlock_held hl
    have heq : lockCall s (.unlock l) = .ok t := hok
    rw [heq] at hcall
    cases hcall
    exact ht

end

omit [DecidableEq L] in
theorem lockInv_nothingHeld (h : NothingHeld b s) : LockInv b [] s where
  enabled := h.enabled
  nodup := List.nodup_nil
  depth := congrArg UInt16.toNat h.depth
  taken := fun _ hl => absurd hl List.not_mem_nil
  free := fun l _ => h.free l
  flag := h.flag
  saved := fun hne => absurd rfl hne

end Calls

/-! ### The sequences -/

section Sequence

variable {b : Bool} {held : List L} {s s' : LockState L}

theorem heldAfter_cons (held : List L) (c : LockCall L) (calls : List (LockCall L)) :
    heldAfter held (c :: calls) = heldAfter (heldAfter held [c]) calls := by
  cases c <;> rfl

/-- Fewer locks are held than a counter of 16 bits can count, after each call. -/
def FewHeld (held : List L) (calls : List (LockCall L)) : Prop :=
  ∀ front, front <+: calls → (heldAfter held front).length < 65535

theorem FewHeld.cons {c : LockCall L} {calls : List (LockCall L)}
    (h : FewHeld held (c :: calls)) : FewHeld (heldAfter held [c]) calls := by
  intro front hfront
  rw [← heldAfter_cons]
  exact h (c :: front) (List.cons_prefix_cons.mpr ⟨rfl, hfront⟩)

/-- A sequence of calls keeps the invariant. -/
theorem LockInv.calls {calls : List (LockCall L)} (h : LockInv b held s)
    (hfew : FewHeld held calls) (hcalls : lockCalls s calls = .ok s') :
    LockInv b (heldAfter held calls) s' := by
  induction calls generalizing held s with
  | nil =>
    cases hcalls
    exact h
  | cons c calls ih =>
    rw [lockCalls] at hcalls
    split at hcalls
    · cases hcalls
    · rename_i t hcall
      rw [heldAfter_cons]
      exact ih (h.call (hfew [] List.nil_prefix) c hcall) hfew.cons hcalls

/-- After every sequence of locks and unlocks, on any locks and in any order, the interrupts, the
depth and the panics are as expected. -/
theorem spinlocks_nest {s₀ s : LockState L} {calls : List (LockCall L)} (h₀ : NothingHeld b s₀)
    (hfew : FewHeld [] calls) (hcalls : lockCalls s₀ calls = .ok s) :
    LocksNest b (heldAfter [] calls) s :=
  ((lockInv_nothingHeld h₀).calls hfew hcalls).nest (hfew calls List.prefix_rfl)

/-- A call holds at most one lock more. -/
theorem length_heldAfter_le (held : List L) (calls : List (LockCall L)) :
    (heldAfter held calls).length ≤ held.length + calls.length := by
  induction calls generalizing held with
  | nil => exact le_rfl
  | cons c calls ih =>
    cases c with
    | lock l =>
      have hle := ih (l :: held)
      rw [List.length_cons] at hle ⊢
      show (heldAfter (l :: held) calls).length ≤ _
      omega
    | unlock l =>
      have hle := ih (held.erase l)
      have herase : (held.erase l).length ≤ held.length := List.length_erase_le
      rw [List.length_cons]
      show (heldAfter (held.erase l) calls).length ≤ _
      omega

/-- A CPU with interrupts enabled, and free locks with numbers. -/
def freeLocks : LockState Nat where
  interruptsEnabled := true
  cpu := { cpuid := 0, depth := 0, wasEnabled := false }
  lock := fun _ => { locked := 0, holdingCpu := 0 }
  spinlocksEnabled := true

/-- Two locks, given back in the order in which they were taken. -/
theorem spinlocks_nest_two :
    ∃ s, lockCalls freeLocks [.lock 1, .lock 2, .unlock 1] = .ok s ∧ LocksNest true [2] s := by
  have hok : (lockCalls freeLocks [.lock 1, .lock 2, .unlock 1]).toOption.isSome = true := by decide
  obtain ⟨s, hsome⟩ := Option.isSome_iff_exists.mp hok
  have hs := DzOS.Lib.eq_ok_of_toOption hsome
  refine ⟨s, hs, spinlocks_nest ⟨rfl, rfl, rfl, fun _ => rfl⟩ ?_ hs⟩
  intro front hfront
  have hle := length_heldAfter_le [] front
  have hlength := hfront.length_le
  simp only [List.length_cons, List.length_nil] at hle hlength
  omega

end Sequence

/-! ### The locks of the scheduler -/

section Scheduler

variable {c : Sched.LockConfig} {x : Sched.BlockState} {s : LockState Sched.Lock}

section

variable (hlock : x.lock = s.lock) (hcpu : c.cpu = s.cpu.cpuid.toUInt32)
  (hlocks : c.locks = s.spinlocksEnabled) (l : Sched.Lock)

include hlock hcpu hlocks

/-- `spinlock_lock` of the scheduler model is the same function, without the interrupt flag. -/
theorem sched_spinlockLock_eq :
    (Sched.spinlockLock c l x).map Sched.BlockState.lock =
      (spinlockLock l s).map LockState.lock := by
  have hholding : (thisCpuHoldingLock l (saveAndDisableInterrupts s)).1 =
      Sched.thisCpuHoldingLock c (s.lock l) := by
    unfold Sched.thisCpuHoldingLock
    rw [hcpu]
    rfl
  have hsame : (thisCpuHoldingLock l (saveAndDisableInterrupts s)).2.lock = s.lock := by
    show (restoreInterrupts _).lock = _
    rw [restoreInterrupts_eq]
    rfl
  have hcpuid : (thisCpuHoldingLock l (saveAndDisableInterrupts s)).2.cpu.cpuid = s.cpu.cpuid := by
    show (restoreInterrupts _).cpu.cpuid = _
    rw [restoreInterrupts_eq]
    rfl
  unfold Sched.spinlockLock spinlockLock
  rw [hlocks, hlock]
  simp only [hholding, hsame, hcpuid, hcpu]
  split_ifs
  · exact congrArg Except.ok hlock
  · rfl
  · rfl
  · rfl

/-- So is `spinlock_unlock`. -/
theorem sched_spinlockUnlock_eq :
    (Sched.spinlockUnlock c l x).map Sched.BlockState.lock =
      (spinlockUnlock l s).map LockState.lock := by
  have hholding : (thisCpuHoldingLock l s).1 = Sched.thisCpuHoldingLock c (s.lock l) := by
    unfold Sched.thisCpuHoldingLock
    rw [hcpu]
    rfl
  have hsame : (thisCpuHoldingLock l s).2.lock = s.lock := by
    show (restoreInterrupts _).lock = _
    rw [restoreInterrupts_eq]
    rfl
  unfold Sched.spinlockUnlock spinlockUnlock
  rw [hlocks, hlock]
  simp only [hholding, hsame, restoreInterrupts_eq]
  split_ifs
  · exact congrArg Except.ok hlock
  · rfl
  · rfl
  · rfl

end

end Scheduler

end DzOS.Proofs.Cpu
