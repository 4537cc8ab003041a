import DzOS.Lib.LazyRegister
import DzOS.Sched.Scheduler

/-!
# `DzOS.Cpu.Fpu`: the FPU registers of the processes, `fpu.c`, `isr_stubs.S` and `scheduler.c`

The FPU and SSE registers are one value of an arbitrary type `φ`, which is what `fxsave64` stores
and `fxrstor64` loads. `kernel_fpu_begin` and `kernel_fpu_end` move it to the scratch area of the
CPU and back, around the handler of an interrupt or a system call. The scheduler moves it to the
images of the processes and back when the process changes.

A step is a piece of code that runs without interruption, and `mode` is where the CPU is. Kernel
code may leave the registers with any value (`FpuAct.kernelCode`). There is one CPU, the
scheduler may pick any process, and the GS base does not appear.
-/

set_option autoImplicit false

namespace DzOS.Cpu

open DzOS.Lib DzOS.Sched

/-- Where the CPU is: in the program of a process, in a handler between `kernel_fpu_begin` and
`kernel_fpu_end`, in the loop of `scheduler_start`, or in that loop between
`load_additional_data_if_needed` and `sysretq`. -/
inductive CpuMode where
  | user (p : ProcPtr)
  | handler (p : ProcPtr)
  | scheduler
  | switching (p : ProcPtr)
  deriving DecidableEq, Repr

/-- The process that the CPU works for. -/
def CpuMode.process : CpuMode → Option ProcPtr
  | .user p => some p
  | .handler p => some p
  | .scheduler => none
  | .switching p => some p

/-- The FPU registers with the places where they are saved. `live` says which records are in
use. `interrupted` is not a variable of the kernel: it is the value of the registers when the
timer interrupted the process, until its program runs on. -/
structure FpuState (φ : Type) where
  fpu : φ
  kernelFpuState : φ
  fpuState : ProcPtr → φ
  lastRunningProcess : Option ProcPtr
  mode : CpuMode
  live : ProcPtr → Bool
  interrupted : ProcPtr → Option φ

variable {φ : Type}

/-- `kernel_fpu_begin`. -/
def kernelFpuBegin (s : FpuState φ) : FpuState φ := { s with kernelFpuState := s.fpu }

/-- `kernel_fpu_end`. -/
def kernelFpuEnd (s : FpuState φ) : FpuState φ := { s with fpu := s.kernelFpuState }

/-- `fpu_save` to the image of `p`. -/
def fpuSave (s : FpuState φ) (p : ProcPtr) : FpuState φ :=
  { s with fpuState := Function.update s.fpuState p s.fpu }

/-- `fpu_load` from the image of `p`. -/
def fpuLoad (s : FpuState φ) (p : ProcPtr) : FpuState φ := { s with fpu := s.fpuState p }

/-- `load_additional_data_if_needed`. -/
def loadAdditionalDataIfNeeded (s : FpuState φ) (old : Option ProcPtr) (new : ProcPtr) :
    FpuState φ :=
  if some new = old then s
  else
    match old with
    | some old => fpuLoad (fpuSave s old) new
    | none => fpuLoad s new

/-- A step.

- `program v`: the program runs, and its registers are `v` then.
- `timer`, `syscall`: `isr_timer_stub` and `syscall_handler_asm` up to the handler.
- `handlerReturn`: the handler returns to the program.
- `switchBack`: the handler leaves by `context_switch_to_kernel`.
- `idleTimer`: the timer interrupts the idle loop, and its handler returns.
- `kernelCode v`: kernel code leaves the registers with `v`.
- `schedFork p`: `proc_exec` starts a process with the record `p`.
- `reap p`: the scheduler frees the record of an exited process.
- `pick p`: the scheduler picks `p` and loads its data.
- `resume`: `context_switch_to_user`. -/
inductive FpuAct (φ : Type) where
  | program (v : φ)
  | timer
  | syscall
  | handlerReturn
  | switchBack
  | idleTimer
  | kernelCode (v : φ)
  | schedFork (p : ProcPtr)
  | reap (p : ProcPtr)
  | pick (p : ProcPtr)
  | resume
  deriving Repr

/-- One step, or `none` when the CPU is elsewhere. -/
def fpuStep (s : FpuState φ) : FpuAct φ → Option (FpuState φ)
  | .program v =>
    match s.mode with
    | .user p => some { s with fpu := v, interrupted := Function.update s.interrupted p none }
    | _ => none
  | .timer =>
    match s.mode with
    | .user p =>
      some { kernelFpuBegin s with
        mode := .handler p, interrupted := Function.update s.interrupted p (some s.fpu) }
    | _ => none
  | .syscall =>
    match s.mode with
    | .user p =>
      some { kernelFpuBegin s with
        mode := .handler p, interrupted := Function.update s.interrupted p none }
    | _ => none
  | .handlerReturn =>
    match s.mode with
    | .handler p => some { kernelFpuEnd s with mode := .user p }
    | _ => none
  | .switchBack =>
    match s.mode with
    | .handler _ => some { s with mode := .scheduler }
    | _ => none
  | .idleTimer =>
    match s.mode with
    | .scheduler => some (kernelFpuEnd (kernelFpuBegin s))
    | _ => none
  | .kernelCode v =>
    match s.mode with
    | .user _ => none
    | _ => some { s with fpu := v }
  | .schedFork p =>
    match s.mode with
    | .user _ => none
    | _ =>
      if s.live p then none
      else
        some { fpuSave s p with
          live := Function.update s.live p true
          interrupted := Function.update s.interrupted p none }
  | .reap p =>
    match s.mode with
    | .scheduler =>
      if s.live p then
        some { s with
          lastRunningProcess :=
            if s.lastRunningProcess = some p then none else s.lastRunningProcess
          live := Function.update s.live p false
          interrupted := Function.update s.interrupted p none }
      else none
    | _ => none
  | .pick p =>
    match s.mode with
    | .scheduler =>
      if s.live p then
        some { loadAdditionalDataIfNeeded s s.lastRunningProcess p with
          lastRunningProcess := some p, mode := .switching p }
      else none
    | _ => none
  | .resume =>
    match s.mode with
    | .switching p => some { s with mode := .user p }
    | _ => none

/-- The state at the start of `scheduler_start`: no process has run, and the records of the
processes that exist hold the images that `sched_fork` saved. -/
def FpuState.boot (fpu kernelFpuState : φ) (fpuState : ProcPtr → φ) (live : ProcPtr → Bool) :
    FpuState φ where
  fpu := fpu
  kernelFpuState := kernelFpuState
  fpuState := fpuState
  lastRunningProcess := none
  mode := .scheduler
  live := live
  interrupted := fun _ => none

end DzOS.Cpu
