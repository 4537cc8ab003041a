import DzOS.Cpu.Context
import DzOS.Lib.Assembly

/-!
# `DzOS.Cpu.SystemCall`: the way of a system call

A program calls a function of its libc, which calls `invoke_syscall` (`usyscalls.S`). The
instruction `syscall` leads to `syscall_handler_asm` (`trampoline.S`), which calls `syscall_c`
(`syscall.c`), and this calls the function of the kernel. The same way leads back.

The functions of the libc and the cases of `syscall_c` come from one list, `syscall.inc`, which is
`Syscall` with its types here. The functions of the kernel are an argument, `sys`. They get their
parameters and the memory.

The compiled C functions that the assembly calls are an argument too. `swapgs` does not appear,
since no segment does. For the registers of the FPU see `Fpu.lean`.
-/

set_option autoImplicit false

namespace DzOS.Cpu

open DzOS.Lib DzOS.Lib.Asm

/-! ### The list of the system calls, `syscall.inc` and `sysnum.h` -/

/-- The system calls, in the order of the list. -/
inductive Syscall where
  | read | write | open | close | exec | exit | lseek | sleep | ioctl | rename | unlink | mkdir
  | chdir | readdir | time | sbrk | wait
  deriving DecidableEq, Repr

/-- All system calls. -/
def Syscall.all : List Syscall :=
  [.read, .write, .open, .close, .exec, .exit, .lseek, .sleep, .ioctl, .rename, .unlink, .mkdir,
    .chdir, .readdir, .time, .sbrk, .wait]

/-- `SYSCALL_READ` and so on. -/
def Syscall.number : Syscall → UInt64
  | .read => 0
  | .write => 1
  | .open => 2
  | .close => 3
  | .sbrk => 4
  | .exec => 5
  | .exit => 6
  | .wait => 7
  | .lseek => 8
  | .time => 9
  | .sleep => 10
  | .ioctl => 11
  | .rename => 12
  | .unlink => 13
  | .mkdir => 14
  | .chdir => 15
  | .readdir => 16

/-- The types of the list. `void` is a result only. -/
inductive CType where
  | int
  | int64
  | uint64
  | size
  | pointer
  | void
  deriving DecidableEq, Repr

/-- The type of the result. -/
def Syscall.ret : Syscall → CType
  | .exec | .time => .uint64
  | .exit | .sleep => .void
  | .sbrk => .pointer
  | _ => .int

/-- The types of the parameters. -/
def Syscall.params : Syscall → List CType
  | .read | .write | .readdir => [.int, .pointer, .size]
  | .open => [.pointer, .int]
  | .close | .exit => [.int]
  | .exec | .rename => [.pointer, .pointer]
  | .lseek => [.int, .int64, .int]
  | .sleep | .wait => [.uint64]
  | .ioctl => [.int, .int, .pointer]
  | .unlink | .mkdir | .chdir => [.pointer]
  | .time => []
  | .sbrk => [.int64]

/-! ### Values -/

/-- The values of a type. -/
def CType.Val : CType → Type
  | .int => Int32
  | .int64 => Int64
  | .uint64 => UInt64
  | .size => UInt64
  | .pointer => UInt64
  | .void => Unit

/-- The cast to `uint64_t`. An `int` is extended by its sign. The result of a call of a `void`
function is 0. -/
def CType.toReg : (t : CType) → t.Val → UInt64
  | .int, v => Int64.toUInt64 (Int32.toInt64 v)
  | .int64, v => Int64.toUInt64 v
  | .uint64, v => v
  | .size, v => v
  | .pointer, v => v
  | .void, _ => 0

/-- The cast from `uint64_t`. -/
def CType.ofReg : (t : CType) → UInt64 → t.Val
  | .int, r => (UInt32.toInt32 r.toUInt32 : Int32)
  | .int64, r => (UInt64.toInt64 r : Int64)
  | .uint64, r => r
  | .size, r => r
  | .pointer, r => r
  | .void, _ => ()

/-- Values for a list of parameters. -/
def Args : List CType → Type
  | [] => Unit
  | t :: ts => t.Val × Args ts

/-- The values as the words that a function of the libc passes on. A missing one is 0. -/
def Args.toRegs : (ts : List CType) → Args ts → List UInt64
  | [], _ => [0, 0, 0]
  | t :: ts, (v, vs) => t.toReg v :: Args.toRegs ts vs

/-- The values that a case of `syscall_c` makes of the words. -/
def Args.ofRegs : (ts : List CType) → List UInt64 → Args ts
  | [], _ => ()
  | t :: ts, regs => (t.ofReg (regs.headD 0), Args.ofRegs ts regs.tail)

/-! ### `syscall_c` -/

/-- The functions of the kernel: the result, and the memory after the call. -/
abbrev KernelSys : Type := (n : Syscall) → Args n.params → Bytes → n.ret.Val × Bytes

/-- `syscall_c`. -/
def syscallC (sys : KernelSys) (a1 a2 a3 syscallNumber : UInt64) (mem : Bytes) : UInt64 × Bytes :=
  match Syscall.all.find? fun n => n.number = syscallNumber with
  | none => (0, mem)
  | some n =>
    let out := sys n (Args.ofRegs n.params [a1, a2, a3]) mem
    (n.ret.toReg out.1, out.2)

/-! ### `syscall_handler_asm` -/

/-- The C functions that the assembly calls. -/
inductive KernelFn where
  | kernel_fpu_begin
  | kernel_fpu_end
  | syscall_c
  deriving DecidableEq, Repr

/-- The registers that the handler preserves for the program. -/
def userSaved : List Reg := [.r15, .r14, .r13, .r12, .rbp, .rbx]

/-- The switch to the kernel stack. -/
def enterKernel (processKstack : UInt64) : List (Instr Reg KernelFn) :=
  [.mov .r10 .rsp, .movImm .rsp processKstack, .and .rsp (~~~0xF)]

/-- The context of the call goes to registers that a function preserves. -/
def saveContext : List (Instr Reg KernelFn) :=
  [.mov .r15 .rax, .mov .r14 .rcx, .mov .r13 .r11, .mov .r12 .rdi, .mov .rbp .rsi, .mov .rbx .rdx]

/-- The call of `kernel_fpu_begin`. -/
def fpuBegin : List (Instr Reg KernelFn) := [.push .r10, .call .kernel_fpu_begin, .pop .r10]

/-- The context of the call comes back from these registers. -/
def restoreContext : List (Instr Reg KernelFn) :=
  [.mov .rax .r15, .mov .rcx .r14, .mov .r11 .r13, .mov .rdi .r12, .mov .rsi .rbp, .mov .rdx .rbx]

/-- The call of `syscall_c`, and of `kernel_fpu_end` after it. -/
def callHandler : List (Instr Reg KernelFn) :=
  [.mov .rcx .rax, .call .syscall_c, .mov .r15 .rax, .call .kernel_fpu_end, .mov .rax .r15]

/-- The call with the context for the return on the stack. -/
def callWithContext : List (Instr Reg KernelFn) :=
  [.push .r11, .push .rcx, .push .rax, .push .r10] ++ callHandler ++
    [.pop .r10, .add .rsp 8, .pop .rcx, .pop .r11]

/-- The handler between its two `swapgs`. -/
def syscallHandlerAsm (processKstack : UInt64) : List (Instr Reg KernelFn) :=
  enterKernel processKstack ++ userSaved.map .push ++
    (saveContext ++ fpuBegin ++ restoreContext ++ callWithContext) ++
    userSaved.reverse.map .pop ++ [.mov .rsp .r10]

/-! ### `invoke_syscall` -/

/-- The flags that `IA32_FMASK` clears: CF, PF, AF, ZF, SF, TF, IF, DF, OF, IOPL, NT, RF, AC and
ID. -/
def SYSCALL_FMASK : UInt64 := 0x257FD5

section
variable (calls : KernelFn → Machine Reg → Machine Reg)

/-- The general registers and the memory of the CPU. -/
def CpuState.machine (s : CpuState) : Machine Reg := ⟨s.regs, s.mem⟩

/-- The CPU with other general registers and another memory. -/
def CpuState.setMachine (s : CpuState) (m : Machine Reg) : CpuState :=
  { s with regs := m.regs, mem := m.mem }

/-- `syscall`, followed by the instruction at `next`. The handler's address is in `IA32_LSTAR`. -/
def syscallInstr (lstar next : UInt64) (s : CpuState) : CpuState :=
  { s with
    regs := Function.update (Function.update s.regs .rcx next) .r11 s.rflags
    rip := lstar
    rflags := s.rflags &&& ~~~SYSCALL_FMASK }

/-- `syscall_handler_asm`. -/
def syscallHandler (s : CpuState) : CpuState :=
  sysretq (s.setMachine (run .rsp calls (syscallHandlerAsm s.processKstack) s.machine))

/-- `ret`. -/
def ret (s : CpuState) : CpuState :=
  { s with rip := returnAddress s, regs := Function.update s.regs .rsp (returnRsp s) }

/-- The moves of `invoke_syscall`: from the parameters of a C function to those of a call. -/
def invokeMoves : List (Instr Reg KernelFn) :=
  [.mov .rax .rdi, .mov .rdi .rsi, .mov .rsi .rdx, .mov .rdx .rcx]

/-- `invoke_syscall`, with the handler's address and that of its own `ret`, which runs when the
handler comes back to it. -/
def invokeSyscall (lstar next : UInt64) (s : CpuState) : CpuState :=
  let s := s.setMachine (run .rsp calls invokeMoves s.machine)
  let s := syscallHandler calls (syscallInstr lstar next s)
  if s.rip = next then ret s else s

/-- The parameters of `invoke_syscall` in their registers. -/
def withParams (s : CpuState) (number a1 a2 a3 : UInt64) : CpuState :=
  { s with regs :=
      Function.update (Function.update (Function.update (Function.update s.regs
        .rdi number) .rsi a1) .rdx a2) .rcx a3 }

/-- A function of the libc: it calls `invoke_syscall` and casts what that returns. -/
def libcCall (lstar next : UInt64) (n : Syscall) (args : Args n.params) (s : CpuState) :
    n.ret.Val × CpuState :=
  let words := Args.toRegs n.params args
  let s := invokeSyscall calls lstar next
    (withParams s n.number (words.getD 0 0) (words.getD 1 0) (words.getD 2 0))
  (n.ret.ofReg (s.regs .rax), s)

end

end DzOS.Cpu
