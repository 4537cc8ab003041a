import DzOS.Proofs.Cpu.Context

/-!
# `DzOS.Proofs.Cpu.KernelContext`: the scheduler's own registers across a switch

The scheduler calls `context_switch_to_user`, which stores its registers to the kernel context. The
call returns when a process calls `context_switch_to_kernel` with the same context. For the
scheduler this is one call, so the callee-saved registers and the stack pointer have to be those of
the call.

`context_switch_to_kernel` keeps the address of the context in `r13` while it loads the other
registers, and does not load `r13` itself. `context_survives_iff` says that this is the only
register that is lost.
-/

set_option autoImplicit false

namespace DzOS.Proofs.Cpu

open DzOS.Lib DzOS.Cpu

variable {e : Reg × Nat}

/-- The registers that a call keeps, without `rsp`. -/
def calleeSaved : List Reg := [.rbx, .rbp, .r12, .r13, .r14, .r15]

/-- `k` enters `context_switch_to_kernel` with the kernel context that the switch from `s` stored.
No one wrote to it in between, and the context of the process is another area. `rdx` says which way
the process saves its registers. -/
structure SwitchedBack (s k : CpuState) : Prop where
  context : k.regs .rdi = s.regs .rsi
  kept : ∀ a, (s.regs .rsi).toNat ≤ a → a < (s.regs .rsi).toNat + CPU_CONTEXT_SIZE →
    k.mem a = (contextSwitchToUser s).mem a
  apart : AreasApart (k.regs .rsi).toNat CPU_CONTEXT_SIZE (k.regs .rdi).toNat CPU_CONTEXT_SIZE

/-- The call in `s` returns with its stack pointer and its callee-saved registers. -/
structure ContextSurvives (s k : CpuState) : Prop where
  rsp : (contextSwitchToKernel k).regs .rsp = returnRsp s
  saved : ∀ r ∈ calleeSaved, (contextSwitchToKernel k).regs r = s.regs r

/-! ### The restore -/

section Restore

variable {k : CpuState}

/-- The save writes to the context of the process only, and keeps `rdi`. -/
theorem contextSwitchToKernel_eq (k : CpuState) :
    ∃ t : CpuState, contextSwitchToKernel k = restoreKernel t ∧ t.regs .rdi = k.regs .rdi ∧
      ∀ a, a < (k.regs .rsi).toNat ∨ (k.regs .rsi).toNat + CPU_CONTEXT_SIZE ≤ a →
        t.mem a = k.mem a := by
  by_cases hframe : k.regs .rdx = 0
  · refine ⟨saveFromRegs k, if_pos hframe, rfl, ?_⟩
    intro a ha
    have hfit : ∀ e ∈ regSaves, e.2 + 8 ≤ CPU_CONTEXT_SIZE := by decide
    exact store_of_apart hfit ha
  · have hrdi : (saveFromFrame k).regs .rdi = k.regs .rdi := by
      have hne : Reg.rdi ≠ .rax := by decide
      simp only [saveFromFrame]
      exact Function.update_of_ne hne _ _
    refine ⟨saveFromFrame k, if_neg hframe, hrdi, ?_⟩
    intro a ha
    have hfit : ∀ e ∈ frameCopies, e.2 + 8 ≤ CPU_CONTEXT_SIZE := by decide
    exact copy_of_apart hfit ha

/-- The registers before the `ret`. -/
def loaded (k : CpuState) : Reg → UInt64 :=
  load k.mem .r13 kernelLoads (Function.update k.regs .r13 (k.regs .rdi))

/-- `ret` takes the return address off the stack. -/
theorem restoreKernel_regs (k : CpuState) :
    (restoreKernel k).regs = Function.update (loaded k) .rsp (loaded k .rsp + 8) := by
  simp only [restoreKernel, loaded]

/-- A register of the table is loaded from its word. -/
theorem loaded_of_mem (he : e ∈ kernelLoads) :
    loaded k e.1 = k.mem.word ((k.regs .rdi).toNat + e.2) := by
  have hnd : kernelLoads.Pairwise fun e e' => e.1 ≠ e'.1 := by decide
  have hbase : ∀ e ∈ kernelLoads, e.1 ≠ Reg.r13 := by decide
  unfold loaded
  rw [load_of_mem hnd hbase he, Function.update_self]

/-- `r13` is not loaded: it has the address of the context. -/
theorem restoreKernel_r13 : (restoreKernel k).regs .r13 = k.regs .rdi := by
  have hbase : ∀ e ∈ kernelLoads, e.1 ≠ Reg.r13 := by decide
  have hne : Reg.r13 ≠ .rsp := by decide
  rw [restoreKernel_regs, Function.update_of_ne hne]
  unfold loaded
  rw [load_of_not_mem hbase, Function.update_self]

/-- A register other than the stack pointer is that of its word. -/
theorem restoreKernel_load (he : e ∈ kernelLoads) (hne : e.1 ≠ .rsp) :
    (restoreKernel k).regs e.1 = k.mem.word ((k.regs .rdi).toNat + e.2) := by
  rw [restoreKernel_regs, Function.update_of_ne hne, loaded_of_mem he]

/-- The stack pointer is that of its word, behind the return address. -/
theorem restoreKernel_rsp :
    (restoreKernel k).regs .rsp = k.mem.word ((k.regs .rdi).toNat + CTX_RSP) + 8 := by
  have hmem : (Reg.rsp, CTX_RSP) ∈ kernelLoads := by decide
  rw [restoreKernel_regs, Function.update_self, loaded_of_mem hmem]

end Restore

/-! ### The call -/

section Call

variable {s k : CpuState}

/-- The switch to the user stores every register of the table in its word. -/
theorem contextSwitchToUser_word (he : e ∈ kernelSaves) :
    (contextSwitchToUser s).mem.word ((s.regs .rsi).toNat + e.2) = s.regs e.1 := by
  have hpair : kernelSaves.Pairwise fun e e' => WordsApart e.2 e'.2 := by decide
  exact word_store hpair he

/-- The kernel context holds the registers of the call until the end of the restore. -/
theorem SwitchedBack.restore (h : SwitchedBack s k) :
    ∃ t : CpuState, contextSwitchToKernel k = restoreKernel t ∧ t.regs .rdi = s.regs .rsi ∧
      ∀ e ∈ kernelSaves, t.mem.word ((t.regs .rdi).toNat + e.2) = s.regs e.1 := by
  obtain ⟨t, hswitch, hrdi, hmem⟩ := contextSwitchToKernel_eq k
  have hcontext := hrdi.trans h.context
  refine ⟨t, hswitch, hcontext, ?_⟩
  intro e he
  have hfit : ∀ e ∈ kernelSaves, e.2 + 8 ≤ CPU_CONTEXT_SIZE := by decide
  have hin := hfit e he
  rw [hcontext, ← contextSwitchToUser_word he]
  refine Bytes.word_congr fun i hlo hhi => ?_
  have happart := h.apart
  rw [h.context] at happart
  unfold AreasApart at happart
  rw [hmem i (by omega), h.kept i (by omega) (by omega)]

/-- The registers that the restore loads are those of the call. -/
theorem SwitchedBack.register (h : SwitchedBack s k) {r : Reg} {off : Nat}
    (hload : (r, off) ∈ kernelLoads) (hsave : (r, off) ∈ kernelSaves) (hne : r ≠ .rsp) :
    (contextSwitchToKernel k).regs r = s.regs r := by
  obtain ⟨t, hswitch, -, hword⟩ := h.restore
  have hregister : (restoreKernel t).regs r = _ := restoreKernel_load hload hne
  rw [hswitch, hregister]
  exact hword (r, off) hsave

/-- The call of the scheduler returns with all its registers if and only if `r13` held the address
of the kernel context. -/
theorem context_survives_iff (h : SwitchedBack s k) :
    ContextSurvives s k ↔ s.regs .r13 = s.regs .rsi := by
  obtain ⟨t, hswitch, hrdi, hword⟩ := h.restore
  have hr13 : (contextSwitchToKernel k).regs .r13 = s.regs .rsi := by
    rw [hswitch, restoreKernel_r13, hrdi]
  constructor
  · intro hsurvives
    exact (hsurvives.saved .r13 (by decide)).symm.trans hr13
  · intro heq
    constructor
    · rw [hswitch, restoreKernel_rsp]
      exact congrArg (· + 8) (hword (.rsp, CTX_RSP) (by decide))
    · intro r hr
      by_cases hbase : r = .r13
      · rw [hbase, hr13, heq]
      · -- every other register has the same offset in both tables
        have htables : ∀ r ∈ calleeSaved, r ≠ .r13 → (r, cpuContextOffset r) ∈ kernelLoads ∧
            (r, cpuContextOffset r) ∈ kernelSaves ∧ r ≠ .rsp := by decide
        obtain ⟨hload, hsave, hne⟩ := htables r hr hbase
        exact h.register hload hsave hne

/-- The scheduler at a call: the context of the process at `0x20000`, the kernel context at
`0x30000`, and `r13` as given. -/
def schedulerCall (r13 : UInt64) : CpuState where
  regs := fun r => match r with
    | .rdi => 0x20000
    | .rsi => 0x30000
    | .rsp => 0x40000
    | .r13 => r13
    | _ => 0
  rip := 0x80003000
  rflags := 0x202
  mem := Bytes.zero
  processKstack := 0

/-- A process that switches back without a frame. -/
def switchBack (s : CpuState) : CpuState :=
  { contextSwitchToUser s with
    regs := fun r => match r with
      | .rdi => s.regs .rsi
      | .rsi => s.regs .rdi
      | _ => 0 }

theorem switchedBack_switchBack (r13 : UInt64) :
    SwitchedBack (schedulerCall r13) (switchBack (schedulerCall r13)) where
  context := rfl
  kept := fun _ _ _ => rfl
  apart := by
    show AreasApart 0x20000 CPU_CONTEXT_SIZE 0x30000 CPU_CONTEXT_SIZE
    decide

/-- The first handler can keep its context in `r13`. -/
theorem context_survives_in_r13 :
    ContextSurvives (schedulerCall 0x30000) (switchBack (schedulerCall 0x30000)) :=
  (context_survives_iff (switchedBack_switchBack 0x30000)).mpr rfl

/-- A scheduler that keeps the value 1 in `r13` loses it. -/
theorem scheduler_loses_r13 :
    SwitchedBack (schedulerCall 1) (switchBack (schedulerCall 1)) ∧
      ¬ ContextSurvives (schedulerCall 1) (switchBack (schedulerCall 1)) := by
  have hback := switchedBack_switchBack 1
  refine ⟨hback, ?_⟩
  intro hsurvives
  obtain ⟨t, hswitch, hrdi, -⟩ := hback.restore
  have hr13 := hsurvives.saved .r13 (by decide)
  rw [hswitch, restoreKernel_r13, hrdi] at hr13
  exact absurd hr13 (by decide)

end Call

end DzOS.Proofs.Cpu
