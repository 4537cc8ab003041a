import DzOS.Cpu.Context

/-!
# `DzOS.Proofs.Cpu.Context`: what a context switch preserves

Three layouts have to agree: the pushes of `isr_timer_stub`, `interrupt_frame_t` and
`cpu_context`. They do (`word_frame`, `saved_register`), so after a preemption the saved context
of the process holds the whole register file of the interrupt (`Saved`). `switch_resumes_iff`
says what the switch back makes of it: `sysretq` takes `rip` from `rcx` and the flags from `r11`,
so these two registers come back only when they had these values already. A voluntary switch
saves neither `rip` nor `rsp`, and the process resumes wherever its context pointed before.
-/

set_option autoImplicit false

namespace DzOS.Proofs.Cpu

open DzOS.Lib DzOS.Cpu

variable {off : Nat} {e : Nat × Nat} {r : Reg} {s k₁ k₂ : CpuState}

/-! ### The frame that the timer interrupt builds -/

section Frame

variable {u : CpuState} {rsp0 ss cs : UInt64}

/-- The aligned kernel stack has room for the frame, which is not at address 0. -/
def StackRoom (rsp0 : UInt64) : Prop := INTERRUPT_FRAME_SIZE < (rsp0 &&& ~~~0xF).toNat

instance (rsp0 : UInt64) : Decidable (StackRoom rsp0) :=
  inferInstanceAs (Decidable (_ < _))

/-- The address of the frame. -/
def frameAddress (rsp0 : UInt64) : Nat := (rsp0 &&& ~~~0xF).toNat - INTERRUPT_FRAME_SIZE

/-- The frame has 22 words. -/
@[simp] theorem length_framePushes : (framePushes u ss cs).length = 22 := rfl

/-- The memory after the pushes. -/
theorem isrTimerStub_mem : (isrTimerStub u rsp0 ss cs).mem =
    (pushAll (framePushes u ss cs) (u.mem, (rsp0 &&& ~~~0xF).toNat)).1 := by
  simp only [isrTimerStub]

/-- The handler gets the address of the frame. -/
theorem isrTimerStub_rdi :
    ((isrTimerStub u rsp0 ss cs).regs .rdi).toNat = frameAddress rsp0 := by
  have hlt := (rsp0 &&& ~~~0xF).toNat_lt
  have htop := pushAll_top (framePushes u ss cs) u.mem (rsp0 &&& ~~~0xF).toNat
  rw [length_framePushes] at htop
  simp only [isrTimerStub, Function.update_self, UInt64.toNat_ofNat', htop, frameAddress,
    INTERRUPT_FRAME_SIZE]
  omega

/-- The words of the frame are the pushed ones, the last push first. -/
theorem word_frame (h : StackRoom rsp0) {k : Nat} (hk : k < (framePushes u ss cs).length)
    (hoff : off + 8 * (k + 1) = INTERRUPT_FRAME_SIZE) :
    (isrTimerStub u rsp0 ss cs).mem.word (frameAddress rsp0 + off) = (framePushes u ss cs)[k] := by
  have hroom : 8 * (framePushes u ss cs).length ≤ (rsp0 &&& ~~~0xF).toNat := by
    rw [length_framePushes]
    exact Nat.le_of_lt h
  have hplace : frameAddress rsp0 + off = (rsp0 &&& ~~~0xF).toNat - 8 * (k + 1) := by
    unfold StackRoom at h
    unfold frameAddress
    omega
  rw [isrTimerStub_mem, hplace]
  exact word_pushAll hroom hk

/-- The pushes agree with `interrupt_frame_t`: every register is in its field. -/
theorem frame_register (h : StackRoom rsp0) (r : Reg) :
    (isrTimerStub u rsp0 ss cs).mem.word (frameAddress rsp0 + interruptFrameOffset r) =
      u.regs r := by
  have hpush : ∀ r : Reg, ∃ k, ∃ hk : k < (framePushes u ss cs).length,
      interruptFrameOffset r + 8 * (k + 1) = INTERRUPT_FRAME_SIZE ∧
        (framePushes u ss cs)[k] = u.regs r := by
    intro r
    refine ⟨21 - interruptFrameOffset r / 8, ?_⟩
    cases r <;> exact ⟨by rw [length_framePushes]; decide, rfl, rfl⟩
  obtain ⟨k, hk, hoff, hget⟩ := hpush r
  rw [word_frame h hk hoff, hget]

/-- The instruction pointer is in its field. -/
theorem frame_rip (h : StackRoom rsp0) :
    (isrTimerStub u rsp0 ss cs).mem.word (frameAddress rsp0 + FRAME_RIP) = u.rip :=
  word_frame (k := 4) h (by rw [length_framePushes]; decide) rfl

/-- The flags are in their field. -/
theorem frame_rflags (h : StackRoom rsp0) :
    (isrTimerStub u rsp0 ss cs).mem.word (frameAddress rsp0 + FRAME_RFLAGS) = u.rflags :=
  word_frame (k := 2) h (by rw [length_framePushes]; decide) rfl

end Frame

/-! ### The two ways out -/

/-- Two areas of memory do not overlap. -/
def AreasApart (a size a' size' : Nat) : Prop := a + size ≤ a' ∨ a' + size' ≤ a

instance (a size a' size' : Nat) : Decidable (AreasApart a size a' size') :=
  inferInstanceAs (Decidable (_ ∨ _))

/-- The switch with a frame writes the copied words only. -/
theorem contextSwitchToKernel_frame_mem (h : s.regs .rdx ≠ 0) :
    (contextSwitchToKernel s).mem =
      copy (s.regs .rdx).toNat (s.regs .rsi).toNat frameCopies s.mem := by
  rw [contextSwitchToKernel, if_neg h]
  rfl

/-- The switch without a frame writes the stored registers only. -/
theorem contextSwitchToKernel_regs_mem (h : s.regs .rdx = 0) :
    (contextSwitchToKernel s).mem = store s.regs (s.regs .rsi).toNat regSaves s.mem := by
  rw [contextSwitchToKernel, if_pos h]
  rfl

/-- The copies agree with `interrupt_frame_t` and `cpu_context`: a copied word goes from its
field of the frame to its field of the context. -/
theorem saved_word (h : s.regs .rdx ≠ 0)
    (happart : AreasApart (s.regs .rdx).toNat INTERRUPT_FRAME_SIZE (s.regs .rsi).toNat
      CPU_CONTEXT_SIZE) (he : e ∈ frameCopies) :
    (contextSwitchToKernel s).mem.word ((s.regs .rsi).toNat + e.2) =
      s.mem.word ((s.regs .rdx).toNat + e.1) := by
  have hfit : ∀ e ∈ frameCopies,
      e.1 + 8 ≤ INTERRUPT_FRAME_SIZE ∧ e.2 + 8 ≤ CPU_CONTEXT_SIZE := by decide
  have hdst : frameCopies.Pairwise fun e e' => WordsApart e.2 e'.2 := by decide
  rw [contextSwitchToKernel_frame_mem h]
  exact word_copy hfit happart hdst he

/-- The switch without a frame does not write the saved `rsp`, `rip` and `rflags`. -/
theorem unsaved_word (h : s.regs .rdx = 0) (hoff : CTX_RSP ≤ off) :
    (contextSwitchToKernel s).mem.word ((s.regs .rsi).toNat + off) =
      s.mem.word ((s.regs .rsi).toNat + off) := by
  have hfit : ∀ e ∈ regSaves, e.2 + 8 ≤ CTX_RSP := by decide
  rw [contextSwitchToKernel_regs_mem h]
  exact Bytes.word_congr fun i hlo _ => store_of_apart hfit (Or.inr (by omega))

/-! ### The way back -/

section

variable
  (happart : AreasApart (s.regs .rsi).toNat CPU_CONTEXT_SIZE (s.regs .rdi).toNat CPU_CONTEXT_SIZE)

include happart

/-- The switch loads every register of the table from its field of the context. -/
theorem contextSwitchToUser_load {e : Reg × Nat} (he : e ∈ userLoads) :
    (contextSwitchToUser s).regs e.1 = s.mem.word ((s.regs .rdi).toNat + e.2) := by
  have hnd : userLoads.dropLast.Pairwise fun e e' => e.1 ≠ e'.1 := by decide
  have hbase : ∀ e ∈ userLoads.dropLast, e.1 ≠ Reg.rdi := by decide
  have hfit : ∀ e ∈ userLoads, e.2 + 8 ≤ CPU_CONTEXT_SIZE := by decide
  have hsaves : ∀ e ∈ kernelSaves, e.2 + 8 ≤ CPU_CONTEXT_SIZE := by decide
  have hlast : userLoads = userLoads.dropLast ++ [(.rdi, 0x58)] := rfl
  have hload : (contextSwitchToUser s).regs e.1 =
      (store s.regs (s.regs .rsi).toNat kernelSaves s.mem).word ((s.regs .rdi).toNat + e.2) :=
    load_base_last hnd hbase (hlast ▸ he)
  rw [hload]
  -- The kernel context was saved first, to an area of its own.
  refine Bytes.word_congr fun i hlo hhi => store_of_apart hsaves ?_
  have hin := hfit e he
  unfold AreasApart at happart
  omega

/-- The registers that `context_switch_to_user` loads for the user code. -/
theorem contextSwitchToUser_register (hrcx : r ≠ .rcx) (hr11 : r ≠ .r11) :
    (contextSwitchToUser s).regs r = s.mem.word ((s.regs .rdi).toNat + cpuContextOffset r) := by
  have hmem : ∀ r : Reg, r ≠ .rcx → r ≠ .r11 → (r, cpuContextOffset r) ∈ userLoads := by
    intro r
    cases r <;> decide
  exact contextSwitchToUser_load happart (hmem r hrcx hr11)

end

/-! ### Out and back -/

/-- `k₂` enters `context_switch_to_user` with the context that the switch from `k₁` saved. The
area of the kernel context is another one. -/
structure Resumed (k₁ k₂ : CpuState) : Prop where
  context : k₂.regs .rdi = k₁.regs .rsi
  kept : ∀ a, (k₁.regs .rsi).toNat ≤ a → a < (k₁.regs .rsi).toNat + CPU_CONTEXT_SIZE →
    k₂.mem a = (contextSwitchToKernel k₁).mem a
  kernelApart : AreasApart (k₂.regs .rsi).toNat CPU_CONTEXT_SIZE (k₂.regs .rdi).toNat
    CPU_CONTEXT_SIZE

/-- A timer interrupt in the user state `u` ends in a switch to the kernel from `k₁`, which gets
the frame of the interrupt unchanged, and the process is resumed from `k₂`. -/
structure Preempted (u : CpuState) (rsp0 ss cs : UInt64) (k₁ k₂ : CpuState) : Prop where
  room : StackRoom rsp0
  frame : k₁.regs .rdx = (isrTimerStub u rsp0 ss cs).regs .rdi
  frameKept : ∀ a, frameAddress rsp0 ≤ a → a < frameAddress rsp0 + INTERRUPT_FRAME_SIZE →
    k₁.mem a = (isrTimerStub u rsp0 ss cs).mem a
  frameApart : AreasApart (k₁.regs .rdx).toNat INTERRUPT_FRAME_SIZE (k₁.regs .rsi).toNat
    CPU_CONTEXT_SIZE
  resumed : Resumed k₁ k₂

/-- A switch to the kernel from `k₁` without a frame, and the process is resumed from `k₂`. -/
structure SwitchedOut (k₁ k₂ : CpuState) : Prop where
  noFrame : k₁.regs .rdx = 0
  resumed : Resumed k₁ k₂

/-- Every general register, `rip` and the flags are those of `u`. -/
structure SameUserState (s u : CpuState) : Prop where
  regs : ∀ r, s.regs r = u.regs r
  rip : s.rip = u.rip
  rflags : s.rflags = u.rflags

/-- The code goes on where the call in `k₁` returns to, on the same stack. -/
structure ResumesAtCall (s k₁ : CpuState) : Prop where
  rip : s.rip = returnAddress k₁
  rsp : s.regs .rsp = returnRsp k₁

/-- What `sysretq` destroys has the right value already: `rcx` is `rip`, `r11` is the flags, and
the flags have no bit that `sysretq` does not restore. -/
structure SysretSafe (u : CpuState) : Prop where
  rcx : u.regs .rcx = u.rip
  r11 : u.regs .r11 = u.rflags
  rflags : sysretRflags u.rflags = u.rflags

/-- The context that `k₁` is about to save has `rip` and `rsp` of the call already. -/
structure ContextAtCall (k₁ : CpuState) : Prop where
  rip : k₁.mem.word ((k₁.regs .rsi).toNat + CTX_RIP) = returnAddress k₁
  rsp : k₁.mem.word ((k₁.regs .rsi).toNat + CTX_RSP) = returnRsp k₁

/-- A word of the saved context is unchanged when the process is resumed. -/
theorem Resumed.word (h : Resumed k₁ k₂) (hoff : off + 8 ≤ CPU_CONTEXT_SIZE) :
    k₂.mem.word ((k₂.regs .rdi).toNat + off) =
      (contextSwitchToKernel k₁).mem.word ((k₁.regs .rsi).toNat + off) := by
  rw [h.context]
  exact Bytes.word_congr fun i hlo hhi => h.kept i (by omega) (by omega)

/-- `rip` after the switch in is the saved one. -/
theorem Resumed.rip (h : Resumed k₁ k₂) :
    (contextSwitchToUser k₂).rip =
      (contextSwitchToKernel k₁).mem.word ((k₁.regs .rsi).toNat + CTX_RIP) := by
  have hrcx : (contextSwitchToUser k₂).rip = (contextSwitchToUser k₂).regs .rcx := rfl
  have hload : (contextSwitchToUser k₂).regs .rcx = _ :=
    contextSwitchToUser_load h.kernelApart (e := (.rcx, CTX_RIP)) (by decide)
  rw [hrcx, hload, h.word (by decide)]

section Preemption

variable {u k₁ k₂ : CpuState} {rsp0 ss cs : UInt64}

section

variable (h : Preempted u rsp0 ss cs k₁ k₂)

include h

/-- A saved word is the word of the frame that it was copied from. -/
theorem Preempted.word (he : e ∈ frameCopies) :
    k₂.mem.word ((k₂.regs .rdi).toNat + e.2) =
      (isrTimerStub u rsp0 ss cs).mem.word (frameAddress rsp0 + e.1) := by
  have hroom := h.room
  have hframe : (k₁.regs .rdx).toNat = frameAddress rsp0 := by
    rw [h.frame, isrTimerStub_rdi]
  have hne : k₁.regs .rdx ≠ 0 := by
    intro hzero
    rw [hzero] at hframe
    unfold StackRoom at hroom
    unfold frameAddress at hframe
    simp only [UInt64.toNat_zero] at hframe
    omega
  have hfit : ∀ e ∈ frameCopies,
      e.1 + 8 ≤ INTERRUPT_FRAME_SIZE ∧ e.2 + 8 ≤ CPU_CONTEXT_SIZE := by decide
  obtain ⟨hsrc, hdst⟩ := hfit e he
  rw [h.resumed.word hdst, saved_word hne h.frameApart he, hframe]
  exact Bytes.word_congr fun i hlo hhi => h.frameKept i (by omega) (by omega)

/-- The saved context holds every general register of the interrupt. -/
theorem Preempted.register (r : Reg) :
    k₂.mem.word ((k₂.regs .rdi).toNat + cpuContextOffset r) = u.regs r := by
  have hmem : ∀ r : Reg, (interruptFrameOffset r, cpuContextOffset r) ∈ frameCopies := by
    intro r
    cases r <;> decide
  rw [h.word (hmem r), frame_register h.room]

/-- `rcx` and `rip` after the switch in are the interrupted `rip`. -/
theorem Preempted.resumed_rcx : (contextSwitchToUser k₂).regs .rcx = u.rip := by
  have hload : (contextSwitchToUser k₂).regs .rcx = _ :=
    contextSwitchToUser_load h.resumed.kernelApart (e := (.rcx, CTX_RIP)) (by decide)
  have hword : k₂.mem.word ((k₂.regs .rdi).toNat + CTX_RIP) = _ :=
    h.word (e := (FRAME_RIP, CTX_RIP)) (by decide)
  rw [hload, hword, frame_rip h.room]

/-- `r11` after the switch in is the interrupted flags. -/
theorem Preempted.resumed_r11 : (contextSwitchToUser k₂).regs .r11 = u.rflags := by
  have hload : (contextSwitchToUser k₂).regs .r11 = _ :=
    contextSwitchToUser_load h.resumed.kernelApart (e := (.r11, CTX_RFLAGS)) (by decide)
  have hword : k₂.mem.word ((k₂.regs .rdi).toNat + CTX_RFLAGS) = _ :=
    h.word (e := (FRAME_RFLAGS, CTX_RFLAGS)) (by decide)
  rw [hload, hword, frame_rflags h.room]

/-- The other general registers come back. -/
theorem Preempted.resumed_register (hrcx : r ≠ .rcx) (hr11 : r ≠ .r11) :
    (contextSwitchToUser k₂).regs r = u.regs r := by
  rw [contextSwitchToUser_register h.resumed.kernelApart hrcx hr11, h.register r]

/-- A preempted process gets its state back exactly when the interrupt came at a state that
`sysretq` does not destroy. -/
theorem Preempted.same_iff : SameUserState (contextSwitchToUser k₂) u ↔ SysretSafe u := by
  have hrip : (contextSwitchToUser k₂).rip = (contextSwitchToUser k₂).regs .rcx := rfl
  have hflags : (contextSwitchToUser k₂).rflags =
      sysretRflags ((contextSwitchToUser k₂).regs .r11) := rfl
  rw [h.resumed_rcx] at hrip
  rw [h.resumed_r11] at hflags
  constructor
  · intro hsame
    exact {
      rcx := (hsame.regs .rcx).symm.trans h.resumed_rcx
      r11 := (hsame.regs .r11).symm.trans h.resumed_r11
      rflags := hflags.symm.trans hsame.rflags }
  · intro hsafe
    refine ⟨fun r => ?_, hrip, hflags.trans hsafe.rflags⟩
    by_cases hrcx : r = .rcx
    · rw [hrcx, h.resumed_rcx, hsafe.rcx]
    by_cases hr11 : r = .r11
    · rw [hr11, h.resumed_r11, hsafe.r11]
    exact h.resumed_register hrcx hr11

end

end Preemption

/-- A process that switched out without a frame goes on at the call exactly when its context
pointed there before. -/
theorem SwitchedOut.resumes_iff (h : SwitchedOut k₁ k₂) :
    ResumesAtCall (contextSwitchToUser k₂) k₁ ↔ ContextAtCall k₁ := by
  have hrip := h.resumed.rip
  rw [unsaved_word h.noFrame (by decide)] at hrip
  have hrsp : (contextSwitchToUser k₂).regs .rsp = _ :=
    contextSwitchToUser_register h.resumed.kernelApart (r := .rsp) (by decide) (by decide)
  rw [h.resumed.word (by decide), unsaved_word h.noFrame (by decide)] at hrsp
  constructor
  · intro hres
    exact ⟨hrip.symm.trans hres.rip, hrsp.symm.trans hres.rsp⟩
  · intro hctx
    exact ⟨hrip.trans hctx.rip, hrsp.trans hctx.rsp⟩

/-! ### The law of the switches -/

/-- When a process resumes as it was. After a preemption, it has its whole register file exactly
when `sysretq` does not destroy it. After a voluntary switch, it goes on at the call exactly when
its saved context pointed there already. -/
theorem switch_resumes_iff {u k₁ k₂ v₁ v₂ : CpuState} {rsp0 ss cs : UInt64}
    (hpreempted : Preempted u rsp0 ss cs k₁ k₂) (hswitched : SwitchedOut v₁ v₂) :
    (SameUserState (contextSwitchToUser k₂) u ↔ SysretSafe u) ∧
      (ResumesAtCall (contextSwitchToUser v₂) v₁ ↔ ContextAtCall v₁) :=
  ⟨hpreempted.same_iff, hswitched.resumes_iff⟩

/-- A user state with `rip` at `0x400000`, and 0 in all registers. -/
def userAtEntry : CpuState where
  regs := fun _ => 0
  rip := 0x400000
  rflags := 0x202
  mem := Bytes.zero
  processKstack := 0

/-- Arguments of a switch: the kernel context at `0x30000`, the context of the process at
`0x20000`, a frame, and the stack at `0x40000`. -/
def switchRegs (frame : UInt64) : Reg → UInt64
  | .rdi => 0x30000
  | .rsi => 0x20000
  | .rdx => frame
  | .rsp => 0x40000
  | _ => 0

/-- The switch to the kernel of the interrupted `userAtEntry`, on the kernel stack `0x10000`. -/
def preemptedAtEntry : CpuState :=
  let s := isrTimerStub userAtEntry 0x10000 0x1b 0x23
  { s with regs := switchRegs (s.regs .rdi) }

/-- A voluntary switch. The call returns to `0x80001000`, and the context at `0x20000` is that of
a new process. -/
def switchedAtEntry : CpuState where
  regs := switchRegs 0
  rip := 0x80002000
  rflags := 0x202
  mem := ((Bytes.zero.setWord 0x40000 0x80001000).setWord (0x20000 + CTX_RIP) 0x400000).setWord
    (0x20000 + CTX_RSP) 0x3ffffffff000
  processKstack := 0

/-- The arguments of the switch back to the process with its context at `ctx`. -/
def resumeRegs (ctx : UInt64) : Reg → UInt64
  | .rdi => ctx
  | .rsi => 0x30000
  | _ => 0

/-- The switch back to the process whose context `s` saves. -/
def resumedFrom (s : CpuState) : CpuState :=
  { contextSwitchToKernel s with regs := resumeRegs (s.regs .rsi) }

/-- The interrupted `userAtEntry` meets the conditions of a preemption. -/
theorem preempted_atEntry :
    Preempted userAtEntry 0x10000 0x1b 0x23 preemptedAtEntry (resumedFrom preemptedAtEntry) where
  room := by decide
  frame := rfl
  frameKept := fun _ _ _ => rfl
  frameApart := by
    have hframe : (preemptedAtEntry.regs .rdx).toNat = frameAddress 0x10000 := isrTimerStub_rdi
    rw [hframe]
    decide
  resumed := { context := rfl, kept := fun _ _ _ => rfl, kernelApart := by decide }

/-- So does the voluntary switch. -/
theorem switchedOut_atEntry : SwitchedOut switchedAtEntry (resumedFrom switchedAtEntry) where
  noFrame := rfl
  resumed := { context := rfl, kept := fun _ _ _ => rfl, kernelApart := by decide }

/-- The law for one preemption and one voluntary switch. -/
theorem switch_resumes_iff_atEntry :
    (SameUserState (contextSwitchToUser (resumedFrom preemptedAtEntry)) userAtEntry ↔
        SysretSafe userAtEntry) ∧
      (ResumesAtCall (contextSwitchToUser (resumedFrom switchedAtEntry)) switchedAtEntry ↔
        ContextAtCall switchedAtEntry) :=
  switch_resumes_iff preempted_atEntry switchedOut_atEntry

/-- A process interrupted with `rcx = 0` at `0x400000` does not get its registers back, and a new
process that switches out goes on at its entry point instead of the call. -/
theorem preemption_loses_rcx :
    (Preempted userAtEntry 0x10000 0x1b 0x23 preemptedAtEntry (resumedFrom preemptedAtEntry) ∧
      ¬ SameUserState (contextSwitchToUser (resumedFrom preemptedAtEntry)) userAtEntry) ∧
    (SwitchedOut switchedAtEntry (resumedFrom switchedAtEntry) ∧
      ¬ ResumesAtCall (contextSwitchToUser (resumedFrom switchedAtEntry)) switchedAtEntry) := by
  refine ⟨⟨preempted_atEntry, ?_⟩, switchedOut_atEntry, ?_⟩
  · intro hsame
    have hsafe := preempted_atEntry.same_iff.mp hsame
    exact absurd hsafe.rcx (by decide)
  · intro hres
    have hctx := switchedOut_atEntry.resumes_iff.mp hres
    exact absurd hctx.rsp (by decide)

end DzOS.Proofs.Cpu
