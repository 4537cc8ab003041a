import DzOS.Sched.Blocking

/-!
# `DzOS.Cpu.Spinlock`: spinlocks and the interrupt flag, `spinlock.c` and `smp.h`

`Sched.Blocking` has the locks of the scheduler, where interrupts are off. Here the functions of
`spinlock.c` have their interrupt flag too. Locking saves the flag in the data of the CPU and clears
it, and unlocking brings it back. Only the first of several nested saves is kept, with a count of
their depth. The test whether the CPU holds a lock makes a save and a restore of its own.

There is one CPU. The names of the locks are any type `L`.
-/

set_option autoImplicit false

namespace DzOS.Cpu

open DzOS.Sched (Spinlock Stop)

/-- `struct cpu_local_data`, as far as the locks use it. -/
structure CpuLocalData where
  cpuid : UInt8
  depth : UInt16
  wasEnabled : Bool
  deriving DecidableEq, Repr

/-- The interrupt flag of the CPU, its data, and the locks with `spinlocks_enabled`. -/
structure LockState (L : Type) where
  interruptsEnabled : Bool
  cpu : CpuLocalData
  lock : L → Spinlock
  spinlocksEnabled : Bool

variable {L : Type} [DecidableEq L]

/-- `save_and_disable_interrupts`. -/
def saveAndDisableInterrupts (s : LockState L) : LockState L :=
  let interruptsWereEnabled := s.interruptsEnabled
  { s with
    interruptsEnabled := false
    cpu := { s.cpu with
      wasEnabled := if s.cpu.depth = 0 then interruptsWereEnabled else s.cpu.wasEnabled
      depth := s.cpu.depth + 1 } }

/-- `restore_interrupts`. -/
def restoreInterrupts (s : LockState L) : LockState L :=
  let s := { s with cpu := { s.cpu with depth := s.cpu.depth - 1 } }
  if s.cpu.depth = 0 ∧ s.cpu.wasEnabled then { s with interruptsEnabled := true } else s

/-- `this_cpu_holding_lock`. -/
def thisCpuHoldingLock (l : L) (s : LockState L) : Bool × LockState L :=
  let s := saveAndDisableInterrupts s
  let result := (s.lock l).locked != 0 && (s.lock l).holdingCpu == s.cpu.cpuid.toUInt32
  (result, restoreInterrupts s)

/-- `spinlock_lock`. A lock that is taken stays so, since no other CPU runs. -/
def spinlockLock (l : L) (s : LockState L) : Except Stop (LockState L) :=
  if !s.spinlocksEnabled then .ok s
  else
    let s := saveAndDisableInterrupts s
    let (holding, s) := thisCpuHoldingLock l s
    if holding then .error (.panic "deadlock")
    else if (s.lock l).locked ≠ 0 then .error .spin
    else .ok { s with
      lock := Function.update s.lock l { locked := 1, holdingCpu := s.cpu.cpuid.toUInt32 } }

/-- `spinlock_unlock`. -/
def spinlockUnlock (l : L) (s : LockState L) : Except Stop (LockState L) :=
  if !s.spinlocksEnabled then .ok s
  else
    let (holding, s) := thisCpuHoldingLock l s
    if !holding then .error (.panic "cpu not holding lock")
    else .ok (restoreInterrupts
      { s with lock := Function.update s.lock l { locked := 0, holdingCpu := 0 } })

/-- A call of one of the two functions. -/
inductive LockCall (L : Type) where
  | lock (l : L)
  | unlock (l : L)
  deriving DecidableEq

/-- The call. -/
def lockCall (s : LockState L) : LockCall L → Except Stop (LockState L)
  | .lock l => spinlockLock l s
  | .unlock l => spinlockUnlock l s

/-- The calls of a list, one after the other. -/
def lockCalls : LockState L → List (LockCall L) → Except Stop (LockState L)
  | s, [] => .ok s
  | s, c :: calls =>
    match lockCall s c with
    | .error e => .error e
    | .ok s => lockCalls s calls

end DzOS.Cpu
