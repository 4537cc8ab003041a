import DzOS.Cpu.SystemCall
import DzOS.Lib.Mask

/-!
# `DzOS.Proofs.Cpu.SystemCall`: a system call is a function call

`syscall_is_call` is the main result: a call of a function of the libc gives the program what the
function of the kernel with the same name returns for the same arguments. The program runs on after
the call, with its stack pointer, its flags and the registers that a function preserves, and its
memory is the one that the function of the kernel has left.

The functions that the handler calls only have to follow the calling convention and to do what they
are there for (`Compiled`). `Lib/Assembly.lean` has the rules for the stack. The context of the call
survives `kernel_fpu_begin` in preserved registers (`run_context`) and `syscall_c` on the kernel
stack (`run_callWithContext`). The conversions between the values and the words are inverse
(`Args.ofRegs_toRegs`).
-/

set_option autoImplicit false

namespace DzOS.Proofs.Cpu

open DzOS.Lib DzOS.Lib.Asm DzOS.Cpu

variable {n : Machine Reg}

/-! ### Values -/

theorem ofReg_toReg (t : CType) (v : t.Val) : t.ofReg (t.toReg v) = v := by
  cases t with
  | int =>
    -- The low half of a number that is extended by its sign.
    refine Int32.toBitVec_inj.mp ?_
    show BitVec.setWidth 32 (BitVec.signExtend 64 (Int32.toBitVec v)) = Int32.toBitVec v
    ext i hi
    have hlt : i < 64 := by omega
    rw [BitVec.getElem_setWidth, BitVec.getLsbD_signExtend]
    simp [hi, hlt]
  | int64 => rfl
  | uint64 => rfl
  | size => rfl
  | pointer => rfl
  | void => rfl

/-- The kernel gets the values that the program passed. -/
theorem Args.ofRegs_toRegs (ts : List CType) (args : Args ts) (rest : List UInt64) :
    Args.ofRegs ts (Args.toRegs ts args ++ rest) = args := by
  induction ts with
  | nil => rfl
  | cons t ts ih =>
    obtain ⟨v, vs⟩ := args
    show (t.ofReg (t.toReg v), Args.ofRegs ts (Args.toRegs ts vs ++ rest)) = (v, vs)
    rw [ofReg_toReg, ih]

/-- No system call has more than three parameters. -/
theorem params_length (n : Syscall) : n.params.length ≤ 3 := by
  cases n <;> decide

theorem find_number (n : Syscall) : (Syscall.all.find? fun k => k.number = n.number) = some n := by
  cases n <;> rfl

/-- A case of `syscall_c`. -/
theorem syscallC_number (sys : KernelSys) (n : Syscall) (a1 a2 a3 : UInt64) (mem : Bytes) :
    syscallC sys a1 a2 a3 n.number mem =
      (n.ret.toReg (sys n (Args.ofRegs n.params [a1, a2, a3]) mem).1,
        (sys n (Args.ofRegs n.params [a1, a2, a3]) mem).2) := by
  simp only [syscallC, find_number]

/-! ### The handler -/

/-- The kernel stack of the handler starts here. -/
def stackTop (processKstack : UInt64) : Nat := (processKstack &&& ~~~0xF).toNat

/-- What the assembly needs of the C functions. Each keeps the stack of its caller, as long as the
stack pointer is on the handler's stack, and the registers that a function preserves.
`kernel_fpu_begin` and `kernel_fpu_end` leave the memory of the program alone. `syscall_c` is the
compiled `syscallC`. -/
structure Compiled (calls : KernelFn → Machine Reg → Machine Reg) (sys : KernelSys)
    (user : Nat → Prop) (top : Nat) : Prop where
  keeps : ∀ f m, top - 80 ≤ (m.regs .rsp).toNat → Keeps .rsp top m (calls f m)
  preserved : ∀ f m, ∀ r ∈ userSaved, (calls f m).regs r = m.regs r
  fpu : ∀ f m, f ≠ .syscall_c → ∀ i, user i → (calls f m).mem i = m.mem i
  result : ∀ m, (m.regs .rsp).toNat % 16 = 0 → (calls .syscall_c m).regs .rax =
    (syscallC sys (m.regs .rdi) (m.regs .rsi) (m.regs .rdx) (m.regs .rcx) m.mem).1
  effect : ∀ m, (m.regs .rsp).toNat % 16 = 0 → ∀ i, user i → (calls .syscall_c m).mem i =
    (syscallC sys (m.regs .rdi) (m.regs .rsi) (m.regs .rdx) (m.regs .rcx) m.mem).2 i

section
variable {calls : KernelFn → Machine Reg → Machine Reg} {sys : KernelSys} {user : Nat → Prop}
  {top : Nat} {m : Machine Reg} {kstack : UInt64}

theorem run_enterKernel : run .rsp calls (enterKernel kstack) m =
    ⟨Function.update (Function.update m.regs .r10 (m.regs .rsp)) .rsp (kstack &&& ~~~0xF),
      m.mem⟩ := by
  simp [enterKernel, step, Machine.set]

/-- The registers with the context of the call. -/
def contextRegs : List Reg := [.rax, .rcx, .r11, .rdi, .rsi, .rdx, .r10]

/-- The preserved register that holds a register of the context. -/
def heldIn : Reg → Reg
  | .rax => .r15
  | .rcx => .r14
  | .r11 => .r13
  | .rdi => .r12
  | .rsi => .rbp
  | .rdx => .rbx
  | r => r

theorem saveContext_regs : ∀ r ∈ contextRegs,
    (run .rsp calls saveContext m).regs (heldIn r) = m.regs r := by
  simp [contextRegs, heldIn, saveContext, step, Machine.set]

theorem saveContext_keeps : Keeps .rsp top m (run .rsp calls saveContext m) := by
  have hsp : (run .rsp calls saveContext m).regs .rsp = m.regs .rsp := by
    simp [saveContext, step, Machine.set]
  exact ⟨hsp, fun i _ _ => rfl⟩

theorem restoreContext_regs : ∀ r ∈ contextRegs,
    (run .rsp calls restoreContext m).regs r = m.regs (heldIn r) := by
  simp [contextRegs, heldIn, restoreContext, step, Machine.set]

theorem restoreContext_keeps : Keeps .rsp top m (run .rsp calls restoreContext m) := by
  have hsp : (run .rsp calls restoreContext m).regs .rsp = m.regs .rsp := by
    simp [restoreContext, step, Machine.set]
  exact ⟨hsp, fun i _ _ => rfl⟩

/-- The stack of the handler is not memory of the program. -/
def StackApart (user : Nat → Prop) (top : Nat) : Prop := ∀ i, user i → i < top - 80 ∨ top ≤ i

/-- A push leaves the memory of the program alone. -/
theorem push_user (hapart : StackApart user top) (hroom : top - 72 ≤ (m.regs .rsp).toNat)
    (hlow : 80 ≤ top) (htop : (m.regs .rsp).toNat ≤ top) (value : UInt64) {i : Nat}
    (hi : user i) : (m.push .rsp value).mem i = m.mem i := by
  have hout := hapart i hi
  exact push_mem (by omega) (by omega)

/-- The context of the call survives `kernel_fpu_begin`. -/
theorem run_context (h : Compiled calls sys user top) (hapart : StackApart user top)
    (hroom : top - 72 ≤ (m.regs .rsp).toNat) (hlow : 80 ≤ top) (htop : (m.regs .rsp).toNat ≤ top)
    (hn : n = run .rsp calls (saveContext ++ fpuBegin ++ restoreContext) m) :
    Keeps .rsp top m n ∧ (∀ r ∈ contextRegs, n.regs r = m.regs r) ∧
      ∀ i, user i → n.mem i = m.mem i := by
  rw [run_append, run_append] at hn
  have hsave : Keeps .rsp top m (run .rsp calls saveContext m) := saveContext_keeps
  have hsaved : ∀ r ∈ contextRegs, (run .rsp calls saveContext m).regs (heldIn r) = m.regs r :=
    saveContext_regs
  have hmem : (run .rsp calls saveContext m).mem = m.mem := rfl
  generalize run .rsp calls saveContext m = a at hn hsave hsaved hmem
  have hsp := hsave.pointer
  have hdst : Reg.r10 ≠ Reg.rsp := by decide
  have hpushed : ((a.push .rsp (a.regs .r10)).regs .rsp).toNat = (m.regs .rsp).toNat - 8 := by
    rw [push_sp_toNat (by rw [hsp]; omega), hsp]
  obtain ⟨hpop, hr10⟩ := (h.keeps .kernel_fpu_begin (a.push .rsp (a.regs .r10)) (by omega)).pop
    (by rw [hsp]; omega) (by rw [hsp]; exact htop) hdst
  have hheld : ∀ r ∈ userSaved, (run .rsp calls fpuBegin a).regs r = a.regs r := by
    intro r hr
    have hne : r ≠ .r10 ∧ r ≠ .rsp := by
      revert r
      decide
    refine (pop_of_ne hne.1 hne.2).trans ?_
    exact (h.preserved _ _ r hr).trans (push_of_ne hne.2)
  subst hn
  refine ⟨(hsave.trans hpop).trans restoreContext_keeps, fun r hr => ?_, fun i hi => ?_⟩
  · rw [restoreContext_regs r hr, ← hsaved r hr]
    have hcases : r = .r10 ∨ heldIn r ∈ userSaved := by
      revert r
      decide
    rcases hcases with rfl | hin
    · exact hr10
    · exact hheld _ hin
  · have hbegin := h.fpu .kernel_fpu_begin (a.push .rsp (a.regs .r10)) (by decide) i hi
    have hpush := push_user (m := a) hapart (by rw [hsp]; exact hroom) hlow
      (by rw [hsp]; exact htop) (a.regs .r10) hi
    exact (hbegin.trans hpush).trans (congrFun hmem i)

/-- A call of a function between two writes to registers. -/
theorem Compiled.keeps_set (h : Compiled calls sys user top) (f : KernelFn) {r : Reg}
    (hr : r ≠ .rsp) (value : UInt64) (hroom : top - 80 ≤ (m.regs .rsp).toNat) :
    Keeps .rsp top m (calls f (m.set r value)) := by
  refine ((Keeps.refl .rsp top m).set hr).trans (h.keeps f _ ?_)
  rw [set_of_ne hr.symm]
  exact hroom

/-- The call of `syscall_c`: what it gets, and what is left of the context after it. -/
theorem run_callWithContext (h : Compiled calls sys user top) (hapart : StackApart user top)
    (hlow : 80 ≤ top) (haligned : top % 16 = 0) (hsp : (m.regs .rsp).toNat = top - 48)
    (hn : n = run .rsp calls callWithContext m) :
    ∃ k : Machine Reg, (k.regs .rdi = m.regs .rdi ∧ k.regs .rsi = m.regs .rsi ∧
        k.regs .rdx = m.regs .rdx ∧ k.regs .rcx = m.regs .rax) ∧
      (k.regs .rsp).toNat % 16 = 0 ∧ (∀ i, user i → k.mem i = m.mem i) ∧
      Keeps .rsp top m n ∧ (∀ r ∈ [Reg.r10, .rcx, .r11], n.regs r = m.regs r) ∧
      n.regs .rax = (calls .syscall_c k).regs .rax ∧
      ∀ i, user i → n.mem i = (calls .syscall_c k).mem i := by
  -- The four pushes.
  obtain ⟨a₁, ha₁⟩ : ∃ a : Machine Reg, a = m.push .rsp (m.regs .r11) := ⟨_, rfl⟩
  obtain ⟨a₂, ha₂⟩ : ∃ a : Machine Reg, a = a₁.push .rsp (a₁.regs .rcx) := ⟨_, rfl⟩
  obtain ⟨a₃, ha₃⟩ : ∃ a : Machine Reg, a = a₂.push .rsp (a₂.regs .rax) := ⟨_, rfl⟩
  obtain ⟨a₄, ha₄⟩ : ∃ a : Machine Reg, a = a₃.push .rsp (a₃.regs .r10) := ⟨_, rfl⟩
  have hsp₁ : (a₁.regs .rsp).toNat = top - 56 := by
    rw [ha₁, push_sp_toNat (by omega)]
    omega
  have hsp₂ : (a₂.regs .rsp).toNat = top - 64 := by
    rw [ha₂, push_sp_toNat (by omega)]
    omega
  have hsp₃ : (a₃.regs .rsp).toNat = top - 72 := by
    rw [ha₃, push_sp_toNat (by omega)]
    omega
  have hsp₄ : (a₄.regs .rsp).toNat = top - 80 := by
    rw [ha₄, push_sp_toNat (by omega)]
    omega
  have hregs₁ : ∀ r, r ≠ .rsp → a₁.regs r = m.regs r := fun r hr => ha₁ ▸ push_of_ne hr
  have hregs₂ : ∀ r, r ≠ .rsp → a₂.regs r = m.regs r := fun r hr =>
    ha₂ ▸ (push_of_ne hr).trans (hregs₁ r hr)
  have hregs₃ : ∀ r, r ≠ .rsp → a₃.regs r = m.regs r := fun r hr =>
    ha₃ ▸ (push_of_ne hr).trans (hregs₂ r hr)
  have hregs₄ : ∀ r, r ≠ .rsp → a₄.regs r = m.regs r := fun r hr =>
    ha₄ ▸ (push_of_ne hr).trans (hregs₃ r hr)
  have hmem₄ : ∀ i, user i → a₄.mem i = m.mem i := by
    intro i hi
    rw [ha₄, push_user hapart (by omega) hlow (by omega) _ hi, ha₃,
      push_user hapart (by omega) hlow (by omega) _ hi, ha₂,
      push_user hapart (by omega) hlow (by omega) _ hi, ha₁,
      push_user hapart (by omega) hlow (by omega) _ hi]
  -- The calls.
  obtain ⟨k, hk⟩ : ∃ k : Machine Reg, k = a₄.set .rcx (a₄.regs .rax) := ⟨_, rfl⟩
  obtain ⟨c, hc⟩ : ∃ c : Machine Reg, c = calls .syscall_c k := ⟨_, rfl⟩
  obtain ⟨e, he⟩ : ∃ e : Machine Reg, e = calls .kernel_fpu_end (c.set .r15 (c.regs .rax)) :=
    ⟨_, rfl⟩
  have hkeeps₄ : Keeps .rsp top a₄ (e.set .rax (e.regs .r15)) := by
    have hcall : Keeps .rsp top a₄ c := by
      rw [hc, hk]
      exact h.keeps_set _ (by decide) _ hsp₄.ge
    have hend : Keeps .rsp top c e := by
      have hspc : top - 80 ≤ (c.regs .rsp).toNat := by
        rw [hcall.pointer]
        exact hsp₄.ge
      rw [he]
      exact h.keeps_set _ (by decide) _ hspc
    exact (hcall.trans hend).set (by decide)
  have hrax : (e.set .rax (e.regs .r15)).regs .rax = c.regs .rax := by
    rw [set_self, he, h.preserved _ _ .r15 (by decide), set_self]
  -- The four pops.
  obtain ⟨hkeeps₃, hr10⟩ := (ha₄ ▸ hkeeps₄).pop (by omega) (by omega)
    (show Reg.r10 ≠ Reg.rsp by decide)
  obtain ⟨p₁, hp₁⟩ : ∃ p : Machine Reg, p = (e.set .rax (e.regs .r15)).pop .rsp .r10 := ⟨_, rfl⟩
  rw [← hp₁] at hkeeps₃ hr10
  have hkeeps₂ := (ha₃ ▸ hkeeps₃).drop (by omega) (by omega)
  obtain ⟨p₂, hp₂⟩ : ∃ p : Machine Reg, p = p₁.set .rsp (p₁.regs .rsp + 8) := ⟨_, rfl⟩
  rw [← hp₂] at hkeeps₂
  obtain ⟨hkeeps₁, hrcx⟩ := (ha₂ ▸ hkeeps₂).pop (by omega) (by omega)
    (show Reg.rcx ≠ Reg.rsp by decide)
  obtain ⟨p₃, hp₃⟩ : ∃ p : Machine Reg, p = p₂.pop .rsp .rcx := ⟨_, rfl⟩
  rw [← hp₃] at hkeeps₁ hrcx
  obtain ⟨hkeeps, hr11⟩ := (ha₁ ▸ hkeeps₁).pop (by omega) (by omega)
    (show Reg.r11 ≠ Reg.rsp by decide)
  have hn' : n = p₃.pop .rsp .r11 := by
    rw [hn, hp₃, hp₂, hp₁, he, hc, hk, ha₄, ha₃, ha₂, ha₁]
    rfl
  rw [← hn'] at hkeeps hr11
  have hlast : ∀ r, r ≠ .r11 → r ≠ .rsp → n.regs r = p₃.regs r := fun r hr hrsp =>
    hn' ▸ pop_of_ne hr hrsp
  have hmiddle : ∀ r, r ≠ .rcx → r ≠ .rsp → p₃.regs r = p₁.regs r := by
    intro r hr hrsp
    rw [hp₃, pop_of_ne hr hrsp, hp₂, set_of_ne hrsp]
  refine ⟨k, ⟨?_, ?_, ?_, ?_⟩, ?_, fun i hi => ?_, hkeeps, ?_, ?_, fun i hi => ?_⟩
  · rw [hk, set_of_ne (by decide)]
    exact hregs₄ .rdi (by decide)
  · rw [hk, set_of_ne (by decide)]
    exact hregs₄ .rsi (by decide)
  · rw [hk, set_of_ne (by decide)]
    exact hregs₄ .rdx (by decide)
  · rw [hk, set_self]
    exact hregs₄ .rax (by decide)
  · have hkeep : k.regs .rsp = a₄.regs .rsp := by
      rw [hk, set_of_ne (by decide)]
    rw [hkeep, hsp₄]
    omega
  · rw [hk]
    exact hmem₄ i hi
  · intro r hr
    simp only [List.mem_cons, List.not_mem_nil, or_false] at hr
    rcases hr with rfl | rfl | rfl
    · rw [hlast .r10 (by decide) (by decide), hmiddle .r10 (by decide) (by decide), hr10]
      exact hregs₃ .r10 (by decide)
    · rw [hlast .rcx (by decide) (by decide), hrcx]
      exact hregs₁ .rcx (by decide)
    · exact hr11
  · have hpop : p₁.regs .rax = c.regs .rax := by
      rw [hp₁, pop_of_ne (by decide) (by decide)]
      exact hrax
    rw [hlast .rax (by decide) (by decide), hmiddle .rax (by decide) (by decide), hpop, hc]
  · have hmem : n.mem = e.mem := by
      rw [hn', hp₃, hp₂, hp₁]
      rfl
    rw [hmem, he, h.fpu _ _ (by decide) i hi, set_mem, hc]

theorem stackTop_aligned (kstack : UInt64) : stackTop kstack % 16 = 0 := by
  have hmask := toNat_and_shifted_mask kstack (~~~0xF) 60 4 (by decide)
  rw [stackTop, hmask]
  omega

/-- The handler, up to its `sysretq`: it returns what `syscall_c` does for the registers of the
call. -/
theorem run_handler (h : Compiled calls sys user (stackTop kstack))
    (hapart : StackApart user (stackTop kstack)) (hlow : 80 ≤ stackTop kstack)
    (hn : n = run .rsp calls (syscallHandlerAsm kstack) m) :
    ∃ mem, (∀ i, user i → mem i = m.mem i) ∧
      n.regs .rax = (syscallC sys (m.regs .rdi) (m.regs .rsi) (m.regs .rdx) (m.regs .rax) mem).1 ∧
      (∀ i, user i → n.mem i =
        (syscallC sys (m.regs .rdi) (m.regs .rsi) (m.regs .rdx) (m.regs .rax) mem).2 i) ∧
      ∀ r ∈ .rsp :: .rcx :: .r11 :: userSaved, n.regs r = m.regs r := by
  rw [syscallHandlerAsm, run_append, run_append, run_append, run_append] at hn
  -- The kernel stack, with the saved registers on it.
  obtain ⟨a, ha⟩ : ∃ a : Machine Reg, a = run .rsp calls (enterKernel kstack) m := ⟨_, rfl⟩
  obtain ⟨b, hb⟩ : ∃ b : Machine Reg, b = run .rsp calls (userSaved.map .push) a := ⟨_, rfl⟩
  have ha' := ha.trans run_enterKernel
  have hspa : (a.regs .rsp).toNat = stackTop kstack := by
    simp only [ha', Function.update_self, stackTop]
  have hother : ∀ r, r ≠ .r10 → r ≠ .rsp → a.regs r = m.regs r := by
    intro r hr hrsp
    simp only [ha', Function.update_of_ne hrsp, Function.update_of_ne hr]
  have hr10 : a.regs .r10 = m.regs .rsp := by simp [ha']
  have hmema : a.mem = m.mem := by rw [ha']
  have hroom : 8 * userSaved.length ≤ (a.regs .rsp).toNat := by
    rw [hspa]
    exact (show 8 * userSaved.length ≤ 80 by decide).trans hlow
  obtain ⟨hspb, hregsb, hmemb⟩ : (b.regs .rsp).toNat = (a.regs .rsp).toNat - 48 ∧
      (∀ r, r ≠ .rsp → b.regs r = a.regs r) ∧
      ∀ i, i < (a.regs .rsp).toNat - 48 ∨ (a.regs .rsp).toNat ≤ i → b.mem i = a.mem i := by
    rw [hb]
    exact run_pushes userSaved hroom
  rw [hspa] at hspb hmemb
  -- The body of the handler.
  obtain ⟨c, hc⟩ : ∃ c : Machine Reg, c =
    run .rsp calls (saveContext ++ fpuBegin ++ restoreContext) b := ⟨_, rfl⟩
  obtain ⟨hkeepsc, hcontext, hmemc⟩ := run_context h hapart (by omega) hlow (by omega) hc
  obtain ⟨d, hd⟩ : ∃ d : Machine Reg, d = run .rsp calls callWithContext c := ⟨_, rfl⟩
  have hspc : (c.regs .rsp).toNat = stackTop kstack - 48 := by
    rw [hkeepsc.pointer]
    exact hspb
  obtain ⟨k, ⟨hrdi, hrsi, hrdx, hrcx⟩, haligned, hmemk, hkeepsd, hleft, hrax, hmemd⟩ :=
    run_callWithContext h hapart hlow (stackTop_aligned kstack) hspc hd
  -- The registers of the program come back.
  have hnot : Reg.rsp ∉ userSaved := by decide
  have hkeeps : Keeps .rsp (stackTop kstack) (run .rsp calls (userSaved.map .push) a) d := by
    rw [← hb]
    exact hkeepsc.trans hkeepsd
  obtain ⟨-, hsaved, hkept, hmempop⟩ := run_saved hnot hroom (Nat.le_of_eq hspa) hkeeps
  obtain ⟨e, he⟩ : ∃ e : Machine Reg, e = run .rsp calls (userSaved.reverse.map .pop) d :=
    ⟨_, rfl⟩
  rw [← he] at hsaved hkept hmempop
  have hn' : n = e.set .rsp (e.regs .r10) := by
    rw [hn, run_append, run_append, run_append, he, hd, hc, hb, ha, run_append, run_append]
    rfl
  -- What the body leaves, in terms of the registers at the entry.
  have hentry : ∀ r ∈ contextRegs, r ≠ .r10 → c.regs r = m.regs r := by
    intro r hr hne
    have hnot : r ≠ .rsp := by
      revert r
      decide
    rw [hcontext r hr, hregsb r hnot, hother r hne hnot]
  have hpassed : ∀ r, r ≠ .rsp → r ∉ userSaved → n.regs r = d.regs r := by
    intro r hr hrs
    rw [hn', set_of_ne hr, hkept r hrs hr]
  have hmem : ∀ i, user i → k.mem i = m.mem i := by
    intro i hi
    have hout := hapart i hi
    rw [hmemk i hi, hmemc i hi, hmemb i (by omega), hmema]
  have hcall : (k.regs .rdi, k.regs .rsi, k.regs .rdx, k.regs .rcx) =
      (m.regs .rdi, m.regs .rsi, m.regs .rdx, m.regs .rax) := by
    rw [hrdi, hrsi, hrdx, hrcx, hentry .rdi (by decide) (by decide),
      hentry .rsi (by decide) (by decide), hentry .rdx (by decide) (by decide),
      hentry .rax (by decide) (by decide)]
  obtain ⟨h₁, h₂, h₃, h₄⟩ : k.regs .rdi = m.regs .rdi ∧ k.regs .rsi = m.regs .rsi ∧
      k.regs .rdx = m.regs .rdx ∧ k.regs .rcx = m.regs .rax := by simpa using hcall
  refine ⟨k.mem, hmem, ?_, fun i hi => ?_, fun r hr => ?_⟩
  · rw [hpassed .rax (by decide) (by decide), hrax, h.result k haligned, h₁, h₂, h₃, h₄]
  · rw [hn', set_mem, hmempop, hmemd i hi, h.effect k haligned i hi, h₁, h₂, h₃, h₄]
  · have hreturn : ∀ q ∈ [Reg.rcx, .r11], n.regs q = m.regs q := by
      intro q hq
      have hq' : q ∈ [Reg.r10, .rcx, .r11] := List.mem_cons_of_mem _ hq
      have hne : q ≠ .rsp ∧ q ∉ userSaved ∧ q ∈ contextRegs ∧ q ≠ .r10 := by
        revert q
        decide
      rw [hpassed q hne.1 hne.2.1, hleft q hq', hentry q hne.2.2.1 hne.2.2.2]
    simp only [List.mem_cons] at hr
    rcases hr with rfl | rfl | rfl | hr
    · rw [hn', set_self, hkept .r10 (by decide) (by decide), hleft .r10 (by decide),
        hcontext .r10 (by decide), hregsb .r10 (by decide), hr10]
    · exact hreturn .rcx (by decide)
    · exact hreturn .r11 (by decide)
    · have hne : r ≠ .rsp ∧ r ≠ .r10 := by
        revert r
        decide
      rw [hn', set_of_ne hne.1, hsaved r hr, hother r hne.2 hne.1]

/-! ### The call -/

/-- The kernel reads of the words what the program has put there. -/
theorem Args.ofRegs_congr (ts : List CType) {words words' : List UInt64}
    (h : ∀ i < ts.length, words.getD i 0 = words'.getD i 0) :
    Args.ofRegs ts words = Args.ofRegs ts words' := by
  induction ts generalizing words words' with
  | nil => rfl
  | cons t ts ih =>
    have hhead : words.headD 0 = words'.headD 0 := by
      simpa [List.headD_eq_head?_getD, List.getD_eq_getElem?_getD, List.head?_eq_getElem?] using
        h 0 (Nat.succ_pos _)
    have htail : ∀ i < ts.length, words.tail.getD i 0 = words'.tail.getD i 0 := by
      intro i hi
      simpa [List.getD_eq_getElem?_getD] using h (i + 1) (Nat.succ_lt_succ hi)
    show (t.ofReg (words.headD 0), Args.ofRegs ts words.tail) = _
    rw [hhead, ih htail]
    rfl

/-- Three registers are enough. -/
theorem ofRegs_three (n : Syscall) (args : Args n.params) :
    Args.ofRegs n.params [(Args.toRegs n.params args).getD 0 0,
      (Args.toRegs n.params args).getD 1 0, (Args.toRegs n.params args).getD 2 0] = args := by
  have hcongr : ∀ i < n.params.length,
      [(Args.toRegs n.params args).getD 0 0, (Args.toRegs n.params args).getD 1 0,
        (Args.toRegs n.params args).getD 2 0].getD i 0 =
          (Args.toRegs n.params args ++ []).getD i 0 := by
    intro i hi
    have hlt : i < 3 := hi.trans_le (params_length n)
    rw [List.append_nil]
    interval_cases i <;> rfl
  rw [Args.ofRegs_congr _ hcongr, Args.ofRegs_toRegs]

/-- How a call of the program returns, when `mem` is the memory that the function of the kernel
has found. -/
structure ReturnsLike (sys : KernelSys) (user : Nat → Prop) (s : CpuState) (n : Syscall)
    (args : Args n.params) (mem : Bytes) (out : n.ret.Val × CpuState) : Prop where
  found : ∀ i, user i → mem i = s.mem i
  result : out.1 = (sys n args mem).1
  memory : ∀ i, user i → out.2.mem i = (sys n args mem).2 i
  rip : out.2.rip = out.2.mem.word (s.regs .rsp).toNat
  rsp : out.2.regs .rsp = returnRsp s
  rflags : out.2.rflags = sysretRflags s.rflags
  preserved : ∀ r ∈ userSaved, out.2.regs r = s.regs r

/-- The CPU at the entry of the handler. -/
theorem syscallInstr_entry (lstar next : UInt64) (s : CpuState) (number a₁ a₂ a₃ : UInt64)
    {e : CpuState} (he : e = syscallInstr lstar next ((withParams s number a₁ a₂ a₃).setMachine
      (run .rsp calls invokeMoves (withParams s number a₁ a₂ a₃).machine))) :
    (e.regs .rax = number ∧ e.regs .rdi = a₁ ∧ e.regs .rsi = a₂ ∧ e.regs .rdx = a₃) ∧
      (e.regs .rcx = next ∧ e.regs .r11 = s.rflags) ∧
      (∀ r ∈ .rsp :: userSaved, e.regs r = s.regs r) ∧
      e.mem = s.mem ∧ e.processKstack = s.processKstack := by
  subst he
  refine ⟨⟨rfl, rfl, rfl, rfl⟩, ⟨rfl, rfl⟩, fun r hr => ?_, rfl, rfl⟩
  simp only [userSaved, List.mem_cons, List.not_mem_nil, or_false] at hr
  rcases hr with rfl | rfl | rfl | rfl | rfl | rfl | rfl <;> rfl

end

/-! ### Compiled functions -/

/-- Functions that follow the calling convention, with the effect of `syscallC` on the memory of
the program. -/
def compiledCalls (sys : KernelSys) (user : Nat → Prop) [DecidablePred user] :
    KernelFn → Machine Reg → Machine Reg
  | .syscall_c, m =>
    let out := syscallC sys (m.regs .rdi) (m.regs .rsi) (m.regs .rdx) (m.regs .rcx) m.mem
    { regs := Function.update m.regs .rax out.1
      mem := fun i => if user i then out.2 i else m.mem i }
  | _, m => m

theorem compiledCalls_regs (sys : KernelSys) (user : Nat → Prop) [DecidablePred user]
    (m : Machine Reg) : (compiledCalls sys user .syscall_c m).regs = Function.update m.regs .rax
      (syscallC sys (m.regs .rdi) (m.regs .rsi) (m.regs .rdx) (m.regs .rcx) m.mem).1 :=
  rfl

theorem compiled_compiledCalls (sys : KernelSys) {user : Nat → Prop} [DecidablePred user]
    {top : Nat} (hapart : StackApart user top) :
    Compiled (compiledCalls sys user) sys user top where
  keeps
    | .kernel_fpu_begin, m, _ => Keeps.refl .rsp top m
    | .kernel_fpu_end, m, _ => Keeps.refl .rsp top m
    | .syscall_c, m, hroom => by
      have hne : Reg.rsp ≠ Reg.rax := by decide
      refine ⟨?_, fun i hlow htop => if_neg fun hi => ?_⟩
      · rw [compiledCalls_regs, Function.update_of_ne hne]
      · have hout := hapart i hi
        omega
  preserved
    | .kernel_fpu_begin, _, _, _ => rfl
    | .kernel_fpu_end, _, _, _ => rfl
    | .syscall_c, m, r, hr => by
      have hne : r ≠ .rax := by
        revert r
        decide
      rw [compiledCalls_regs, Function.update_of_ne hne]
  fpu
    | .kernel_fpu_begin, _, _, _, _ => rfl
    | .kernel_fpu_end, _, _, _, _ => rfl
    | .syscall_c, _, h, _, _ => absurd rfl h
  result m _ := by
    rw [compiledCalls_regs, Function.update_self]
  effect _ _ i hi := if_pos hi

/-- A `sys_read` that finds one byte, and other functions that do nothing. -/
def readsByte : KernelSys
  | .read, (_, buffer, _), mem => ((1 : Int32), mem.set buffer.toNat 97)
  | n, _, mem => (n.ret.ofReg 0, mem)

/-- A program that calls a function, with its stack below 0x8000. -/
def caller : CpuState where
  regs := fun _ => 0x8000
  rip := 0x400000
  rflags := 0x202
  mem := Bytes.zero
  processKstack := 0xFFFF900000004FF0

end DzOS.Proofs.Cpu
