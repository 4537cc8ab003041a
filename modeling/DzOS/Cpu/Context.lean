import DzOS.Lib.SaveArea

/-!
# `DzOS.Cpu.Context`: the register file across a context switch, `context.S` and `isr_stubs.S`

The assembly saves and loads registers at fixed offsets of two structures, `cpu_context` and
`interrupt_frame_t`. Each block of `mov` instructions is a table here: one entry for each line
of the source, in its order, with the offset that the line has. The pushes of
`isr_timer_stub` are a list of registers.

`CpuState` has the general registers with `rsp`, the instruction pointer, the flags and the memory.
Segment, FPU and model-specific registers do not appear, and neither do the page tables: the
areas that a switch touches are kernel memory, which is the same in both address spaces it
runs in. An area does not wrap around the end of the address space.
-/

set_option autoImplicit false

namespace DzOS.Cpu

open DzOS.Lib

/-- The general registers. -/
inductive Reg where
  | rax | rbx | rcx | rdx | rsi | rdi | rbp | rsp
  | r8 | r9 | r10 | r11 | r12 | r13 | r14 | r15
  deriving DecidableEq, Repr

/-- The state of the CPU with the memory. `processKstack` is the global variable
`process_kstack`. -/
structure CpuState where
  regs : Reg → UInt64
  rip : UInt64
  rflags : UInt64
  mem : Bytes
  processKstack : UInt64

/-! ### The two structures -/

/-- The size of `struct cpu_context`. -/
def CPU_CONTEXT_SIZE : Nat := 0x98

/-- The field of a register in `struct cpu_context`. -/
def cpuContextOffset : Reg → Nat
  | .r15 => 0x00 | .r14 => 0x08 | .r13 => 0x10 | .r12 => 0x18
  | .rbp => 0x20 | .rbx => 0x28
  | .r11 => 0x30 | .r10 => 0x38 | .r9 => 0x40 | .r8 => 0x48
  | .rsi => 0x50 | .rdi => 0x58 | .rdx => 0x60 | .rcx => 0x68 | .rax => 0x70
  | .rsp => 0x78

/-- The field `rsp` of `struct cpu_context`. -/
def CTX_RSP : Nat := 0x78

/-- The field `rip` of `struct cpu_context`. -/
def CTX_RIP : Nat := 0x80

/-- The field `rflags` of `struct cpu_context`. -/
def CTX_RFLAGS : Nat := 0x88

/-- The size of `interrupt_frame_t`. -/
def INTERRUPT_FRAME_SIZE : Nat := 0xB0

/-- The field of a register in `interrupt_frame_t`. -/
def interruptFrameOffset : Reg → Nat
  | .r15 => 0x00 | .r14 => 0x08 | .r13 => 0x10 | .r12 => 0x18
  | .r11 => 0x20 | .r10 => 0x28 | .r9 => 0x30 | .r8 => 0x38
  | .rbp => 0x40 | .rdi => 0x48 | .rsi => 0x50 | .rdx => 0x58
  | .rcx => 0x60 | .rbx => 0x68 | .rax => 0x70
  | .rsp => 0xA0

/-- The field `rip` of `interrupt_frame_t`. -/
def FRAME_RIP : Nat := 0x88

/-- The field `rflags` of `interrupt_frame_t`. -/
def FRAME_RFLAGS : Nat := 0x98

/-! ### The timer interrupt -/

/-- What the CPU pushes when it takes an interrupt in user mode: `ss`, `rsp`, `rflags`, `cs`
and `rip`. -/
def interruptPushes (u : CpuState) (ss cs : UInt64) : List UInt64 :=
  [ss, u.regs .rsp, u.rflags, cs, u.rip]

/-- The registers that `isr_timer_stub` pushes, in order. -/
def stubPushes : List Reg :=
  [.rax, .rbx, .rcx, .rdx, .rsi, .rdi, .rbp, .r8, .r9, .r10, .r11, .r12, .r13, .r14, .r15]

/-- All words of the frame, in the order of the pushes. The stub pushes a dummy error code and
the vector number first. -/
def framePushes (u : CpuState) (ss cs : UInt64) : List UInt64 :=
  interruptPushes u ss cs ++ [0, 32] ++ stubPushes.map u.regs

/-- `isr_timer_stub` up to the call of `sched_timer_handler`: the CPU switches to the kernel
stack `rsp0`, aligned to 16 bytes, and the frame is pushed on it. The handler's argument is
the address of the frame. -/
def isrTimerStub (u : CpuState) (rsp0 ss cs : UInt64) : CpuState :=
  let pushed := pushAll (framePushes u ss cs) (u.mem, (rsp0 &&& ~~~0xF).toNat)
  let frame := UInt64.ofNat pushed.2
  { u with
    regs := Function.update (Function.update u.regs .rsp frame) .rdi frame
    mem := pushed.1 }

/-! ### `context_switch_to_user` -/

/-- The stores to the kernel context. -/
def kernelSaves : Layout Reg :=
  [(.r15, 0x00), (.r14, 0x08), (.r13, 0x10), (.r12, 0x18), (.rbp, 0x20), (.rbx, 0x28),
   (.r11, 0x30), (.r10, 0x38), (.r9, 0x40), (.r8, 0x48), (.rsi, 0x50), (.rdi, 0x58),
   (.rdx, 0x60), (.rcx, 0x68), (.rax, 0x70), (.rsp, 0x78)]

/-- The loads of the parameters of `sysretq` and of the user registers. -/
def userLoads : Layout Reg :=
  [(.rcx, 0x80), (.r11, 0x88),
   (.r15, 0x00), (.r14, 0x08), (.r13, 0x10), (.r12, 0x18), (.rbp, 0x20), (.rbx, 0x28),
   (.r10, 0x38), (.r9, 0x40), (.r8, 0x48), (.rsi, 0x50), (.rdx, 0x60), (.rax, 0x70),
   (.rsp, 0x78), (.rdi, 0x58)]

/-- The flags that `sysretq` makes of `r11`: the bits of RF, VM and the reserved ones are
cleared, and the always-one bit is set. -/
def sysretRflags (r11 : UInt64) : UInt64 := (r11 &&& 0x3C7FD7) ||| 2

/-- `sysretq`: `rip` comes from `rcx` and `rflags` from `r11`. -/
def sysretq (s : CpuState) : CpuState :=
  { s with rip := s.regs .rcx, rflags := sysretRflags (s.regs .r11) }

/-- `context_switch_to_user`, with the context to load in `rdi` and the kernel context in
`rsi`. -/
def contextSwitchToUser (s : CpuState) : CpuState :=
  let s := { s with mem := store s.regs (s.regs .rsi).toNat kernelSaves s.mem }
  let s := { s with processKstack := s.regs .rsp }
  sysretq { s with regs := load s.mem .rdi userLoads s.regs }

/-! ### `context_switch_to_kernel` -/

/-- The words copied from the interrupt frame, through `rax`, to the saved context: the offset
in the frame and the offset in the context. -/
def frameCopies : List (Nat × Nat) :=
  [(0x00, 0x00), (0x08, 0x08), (0x10, 0x10), (0x18, 0x18), (0x20, 0x30), (0x28, 0x38),
   (0x30, 0x40), (0x38, 0x48), (0x40, 0x20), (0x68, 0x28), (0x50, 0x50), (0x48, 0x58),
   (0x58, 0x60), (0x60, 0x68), (0x70, 0x70), (0xA0, 0x78), (0x88, 0x80), (0x98, 0x88)]

/-- The stores of `.save_from_regs`. -/
def regSaves : Layout Reg :=
  [(.r15, 0x00), (.r14, 0x08), (.r13, 0x10), (.r12, 0x18), (.rbp, 0x20), (.rbx, 0x28),
   (.r11, 0x30), (.r10, 0x38), (.r9, 0x40), (.r8, 0x48), (.rsi, 0x50), (.rdi, 0x58),
   (.rdx, 0x60), (.rcx, 0x68), (.rax, 0x70)]

/-- The loads of `.restore_kernel`, with the kernel context in `r13`. -/
def kernelLoads : Layout Reg :=
  [(.r15, 0x00), (.r14, 0x08), (.r12, 0x18), (.rbp, 0x20), (.rbx, 0x28), (.r11, 0x30),
   (.r10, 0x38), (.r9, 0x40), (.r8, 0x48), (.rsi, 0x50), (.rdi, 0x58), (.rdx, 0x60),
   (.rcx, 0x68), (.rax, 0x70), (.rsp, 0x78)]

/-- Save the user context from the frame that `rdx` points to. -/
def saveFromFrame (s : CpuState) : CpuState :=
  let mem := copy (s.regs .rdx).toNat (s.regs .rsi).toNat frameCopies s.mem
  -- `rax` keeps the last word copied, the flags of the frame.
  { s with
    regs := Function.update s.regs .rax (mem.word ((s.regs .rdx).toNat + 0x98))
    mem := mem }

/-- `.save_from_regs`. -/
def saveFromRegs (s : CpuState) : CpuState :=
  { s with mem := store s.regs (s.regs .rsi).toNat regSaves s.mem }

/-- `.restore_kernel`, with the `ret` at its end. -/
def restoreKernel (s : CpuState) : CpuState :=
  let s := { s with regs := Function.update s.regs .r13 (s.regs .rdi) }
  let s := { s with regs := load s.mem .r13 kernelLoads s.regs }
  { s with
    rip := s.mem.word (s.regs .rsp).toNat
    regs := Function.update s.regs .rsp (s.regs .rsp + 8) }

/-- `context_switch_to_kernel`, with the kernel context in `rdi`, the context to save in `rsi`
and the interrupt frame in `rdx`. -/
def contextSwitchToKernel (s : CpuState) : CpuState :=
  if s.regs .rdx = 0 then restoreKernel (saveFromRegs s)
  else restoreKernel (saveFromFrame s)

/-- The address that the code at a call's entry returns to. -/
def returnAddress (s : CpuState) : UInt64 := s.mem.word (s.regs .rsp).toNat

/-- The stack pointer after the return. -/
def returnRsp (s : CpuState) : UInt64 := s.regs .rsp + 8

end DzOS.Cpu
