import DzOS.Lib.SaveArea

/-!
# `DzOS.Lib.Assembly`: straight programs with a stack, and calls

A program is a list of instructions without jumps: moves, pushes, pops, and calls of functions whose
effect on the machine is an argument. `ρ` is the type of register names, `sp` is the stack pointer,
and `κ` is the type of function names.

What a program needs from a part of it is `Keeps`: the stack pointer is where it was, and the stack
above it has the same bytes. A function keeps the stack by its calling convention. `Keeps.pop` is
the rule for a push and the pop that belongs to it, and `run_saved` that for a whole list of
registers, which are restored in the opposite order.
-/

set_option autoImplicit false

namespace DzOS.Lib.Asm

/-- The registers and the memory. -/
structure Machine (ρ : Type) where
  regs : ρ → UInt64
  mem : Bytes

/-- An instruction. -/
inductive Instr (ρ κ : Type) where
  | mov (dst src : ρ)
  | movImm (dst : ρ) (value : UInt64)
  | and (dst : ρ) (value : UInt64)
  | add (dst : ρ) (value : UInt64)
  | push (src : ρ)
  | pop (dst : ρ)
  | call (f : κ)

section
variable {ρ : Type} {m n k : Machine ρ} {sp : ρ} {top : Nat}

/-- The stack pointer and the stack above it, up to `top`, are as before. -/
structure Keeps (sp : ρ) (top : Nat) (m n : Machine ρ) : Prop where
  pointer : n.regs sp = m.regs sp
  stack : ∀ i, (m.regs sp).toNat ≤ i → i < top → n.mem i = m.mem i

theorem Keeps.refl (sp : ρ) (top : Nat) (m : Machine ρ) : Keeps sp top m m :=
  ⟨rfl, fun _ _ _ => rfl⟩

theorem Keeps.trans (h : Keeps sp top m n) (h' : Keeps sp top n k) : Keeps sp top m k := by
  refine ⟨h'.pointer.trans h.pointer, fun i hlow htop => ?_⟩
  rw [h'.stack i (by rw [h.pointer]; exact hlow) htop, h.stack i hlow htop]

end

section
variable {ρ κ : Type} [DecidableEq ρ]

/-- A write to a register. -/
def Machine.set (m : Machine ρ) (r : ρ) (value : UInt64) : Machine ρ :=
  { m with regs := Function.update m.regs r value }

/-- The stack grows down. -/
def Machine.push (m : Machine ρ) (sp : ρ) (value : UInt64) : Machine ρ where
  regs := Function.update m.regs sp (m.regs sp - 8)
  mem := m.mem.setWord (m.regs sp - 8).toNat value

def Machine.pop (m : Machine ρ) (sp dst : ρ) : Machine ρ where
  regs := Function.update (Function.update m.regs sp (m.regs sp + 8)) dst
    (m.mem.word (m.regs sp).toNat)
  mem := m.mem

variable (sp : ρ) (calls : κ → Machine ρ → Machine ρ)

/-- One instruction. -/
def step (m : Machine ρ) : Instr ρ κ → Machine ρ
  | .mov dst src => m.set dst (m.regs src)
  | .movImm dst value => m.set dst value
  | .and dst value => m.set dst (m.regs dst &&& value)
  | .add dst value => m.set dst (m.regs dst + value)
  | .push src => m.push sp (m.regs src)
  | .pop dst => m.pop sp dst
  | .call f => calls f m

/-- The instructions of a program, one after the other. -/
def run (program : List (Instr ρ κ)) (m : Machine ρ) : Machine ρ := program.foldl (step sp calls) m

variable {sp} {calls} {m n k : Machine ρ} {top : Nat} {dst r : ρ} {value : UInt64}

@[simp] theorem run_nil : run sp calls [] m = m := rfl

@[simp] theorem run_cons (i : Instr ρ κ) (program : List (Instr ρ κ)) :
    run sp calls (i :: program) m = run sp calls program (step sp calls m i) := rfl

@[simp] theorem set_self : (m.set r value).regs r = value := Function.update_self _ _ _

theorem set_of_ne {q : ρ} (hq : q ≠ r) : (m.set r value).regs q = m.regs q :=
  Function.update_of_ne hq _ _

@[simp] theorem set_mem : (m.set r value).mem = m.mem := rfl

theorem run_append (p q : List (Instr ρ κ)) :
    run sp calls (p ++ q) m = run sp calls q (run sp calls p m) := List.foldl_append

/-! ### The stack -/

/-- Another register is written. -/
theorem Keeps.set (h : Keeps sp top m n) (hr : r ≠ sp) : Keeps sp top m (n.set r value) := by
  refine ⟨?_, h.stack⟩
  rw [set_of_ne hr.symm]
  exact h.pointer

theorem push_sp_toNat (hroom : 8 ≤ (m.regs sp).toNat) :
    ((m.push sp value).regs sp).toNat = (m.regs sp).toNat - 8 := by
  show (Function.update m.regs sp (m.regs sp - 8) sp).toNat = _
  have hle : (8 : UInt64) ≤ m.regs sp := UInt64.le_iff_toNat_le.mpr hroom
  rw [Function.update_self, UInt64.toNat_sub_of_le _ _ hle]
  rfl

theorem push_of_ne (hr : r ≠ sp) : (m.push sp value).regs r = m.regs r :=
  Function.update_of_ne hr _ _

/-- A push leaves the bytes above the stack pointer alone. -/
theorem push_mem (hroom : 8 ≤ (m.regs sp).toNat) {i : Nat}
    (hi : i < (m.regs sp).toNat - 8 ∨ (m.regs sp).toNat ≤ i) :
    (m.push sp value).mem i = m.mem i := by
  have hle : (8 : UInt64) ≤ m.regs sp := UInt64.le_iff_toNat_le.mpr hroom
  have hsub : (m.regs sp - 8).toNat = (m.regs sp).toNat - 8 := UInt64.toNat_sub_of_le _ _ hle
  show (m.mem.setWord (m.regs sp - 8).toNat value) i = _
  rw [hsub, Bytes.setWord, Bytes.setLE_of_apart (by omega)]

section

variable (h : Keeps sp top (m.push sp value) n) (hroom : 8 ≤ (m.regs sp).toNat)
  (htop : (m.regs sp).toNat ≤ top)

include h hroom htop

/-- A word that was pushed is on top of the stack again when everything above it is kept. -/
theorem Keeps.pushed : n.mem.word (n.regs sp).toNat = value ∧ n.regs sp + 8 = m.regs sp := by
  have hpush : ((m.push sp value).regs sp).toNat = (m.regs sp).toNat - 8 := push_sp_toNat hroom
  constructor
  · have hword : n.mem.word (n.regs sp).toNat = (m.push sp value).mem.word (n.regs sp).toNat := by
      refine Bytes.word_congr fun i hlow hhigh => ?_
      rw [h.pointer, hpush] at hlow hhigh
      exact h.stack i (by omega) (by omega)
    have hself : (n.regs sp).toNat = (m.regs sp - 8).toNat := by
      rw [h.pointer]
      exact congrArg UInt64.toNat (Function.update_self _ _ _)
    rw [hword, hself]
    exact Bytes.word_setWord_self _ _ _
  · rw [h.pointer]
    show Function.update m.regs sp (m.regs sp - 8) sp + 8 = _
    rw [Function.update_self, UInt64.sub_add_cancel]

/-- The rule for a push and its pop: the register has the word, and the stack is as it was. -/
theorem Keeps.pop (hdst : dst ≠ sp) :
    Keeps sp top m (n.pop sp dst) ∧ (n.pop sp dst).regs dst = value := by
  obtain ⟨hword, hsp⟩ := h.pushed hroom htop
  refine ⟨⟨?_, fun i hlow hi => ?_⟩, ?_⟩
  · show Function.update (Function.update n.regs sp (n.regs sp + 8)) dst _ sp = _
    rw [Function.update_of_ne hdst.symm, Function.update_self]
    exact hsp
  · have hpush : ((m.push sp value).regs sp).toNat = (m.regs sp).toNat - 8 := push_sp_toNat hroom
    show n.mem i = _
    rw [h.stack i (by omega) hi, push_mem hroom (Or.inr hlow)]
  · show Function.update (Function.update n.regs sp (n.regs sp + 8)) dst _ dst = _
    rw [Function.update_self]
    exact hword

end

theorem pop_of_ne (hdst : r ≠ dst) (hsp : r ≠ sp) : (m.pop sp dst).regs r = m.regs r := by
  show Function.update (Function.update m.regs sp (m.regs sp + 8)) dst _ r = _
  rw [Function.update_of_ne hdst, Function.update_of_ne hsp]

/-- The rule for a push whose word is dropped. -/
theorem Keeps.drop (h : Keeps sp top (m.push sp value) n) (hroom : 8 ≤ (m.regs sp).toNat)
    (htop : (m.regs sp).toNat ≤ top) : Keeps sp top m (n.set sp (n.regs sp + 8)) := by
  obtain ⟨-, hsp⟩ := h.pushed hroom htop
  refine ⟨?_, fun i hlow hi => ?_⟩
  · rw [set_self]
    exact hsp
  · have hpush : ((m.push sp value).regs sp).toNat = (m.regs sp).toNat - 8 := push_sp_toNat hroom
    show n.mem i = _
    rw [h.stack i (by omega) hi, push_mem hroom (Or.inr hlow)]

/-! ### Lists of registers -/

/-- What the pushes of registers do. -/
theorem run_pushes (saved : List ρ) (hroom : 8 * saved.length ≤ (m.regs sp).toNat) :
    ((run sp calls (saved.map .push) m).regs sp).toNat = (m.regs sp).toNat - 8 * saved.length ∧
      (∀ r, r ≠ sp → (run sp calls (saved.map .push) m).regs r = m.regs r) ∧
      ∀ i, i < (m.regs sp).toNat - 8 * saved.length ∨ (m.regs sp).toNat ≤ i →
        (run sp calls (saved.map .push) m).mem i = m.mem i := by
  induction saved generalizing m with
  | nil => exact ⟨rfl, fun _ _ => rfl, fun _ _ => rfl⟩
  | cons r saved ih =>
    rw [List.length_cons] at hroom
    have hpush : ((m.push sp (m.regs r)).regs sp).toNat = (m.regs sp).toNat - 8 :=
      push_sp_toNat (by omega)
    obtain ⟨hsp, hregs, hmem⟩ := ih (m := m.push sp (m.regs r)) (by omega)
    rw [hpush] at hsp hmem
    refine ⟨?_, fun q hq => ?_, fun i hi => ?_⟩
    · rw [List.length_cons]
      exact hsp.trans (by omega)
    · exact (hregs q hq).trans (push_of_ne hq)
    · rw [List.length_cons] at hi
      exact (hmem i (by omega)).trans (push_mem (by omega) (by omega))

/-- Registers that are pushed are restored by pops in the opposite order, when the program between
keeps the stack. -/
theorem run_saved {saved : List ρ} (hsp : sp ∉ saved)
    (hroom : 8 * saved.length ≤ (m.regs sp).toNat) (htop : (m.regs sp).toNat ≤ top)
    (h : Keeps sp top (run sp calls (saved.map .push) m) n) :
    Keeps sp top m (run sp calls (saved.reverse.map .pop) n) ∧
      (∀ r ∈ saved, (run sp calls (saved.reverse.map .pop) n).regs r = m.regs r) ∧
      (∀ r, r ∉ saved → r ≠ sp →
        (run sp calls (saved.reverse.map .pop) n).regs r = n.regs r) ∧
      (run sp calls (saved.reverse.map .pop) n).mem = n.mem := by
  induction saved generalizing m with
  | nil => exact ⟨h, fun r hr => absurd hr List.not_mem_nil, fun _ _ _ => rfl, rfl⟩
  | cons r saved ih =>
    obtain ⟨hr, hsp⟩ := not_or.mp (mt List.mem_cons.mpr hsp)
    rw [List.length_cons] at hroom
    have hpush : ((m.push sp (m.regs r)).regs sp).toNat = (m.regs sp).toNat - 8 :=
      push_sp_toNat (by omega)
    obtain ⟨hkeeps, hsaved, hother, hmem⟩ :=
      ih (m := m.push sp (m.regs r)) hsp (by omega) (by omega) h
    obtain ⟨hkeeps', hself⟩ := hkeeps.pop (by omega) htop (Ne.symm hr)
    rw [List.reverse_cons, List.map_append, run_append]
    refine ⟨hkeeps', fun q hq => ?_, fun q hq hqsp => ?_, hmem⟩
    · by_cases hqr : q = r
      · rw [hqr]
        exact hself
      · have hqs := (List.mem_cons.mp hq).resolve_left hqr
        have hqsp : q ≠ sp := fun heq => hsp (heq ▸ hqs)
        refine (pop_of_ne hqr hqsp).trans ?_
        exact (hsaved q hqs).trans (push_of_ne hqsp)
    · obtain ⟨hqr, hqs⟩ := not_or.mp (mt List.mem_cons.mpr hq)
      exact (pop_of_ne hqr hqsp).trans (hother q hqs hqsp)

end

end DzOS.Lib.Asm
