import Mathlib

/-!
# `DzOS.Lib.Ascent`: a stack of blocks has no ascent

`next` is a successor function on the elements of a list. An ascent is an element with its
successor directly behind it. A block of consecutive elements that is pushed onto a list, the
first element first, lies there in descending order. `Stacked` is a list that was made of such
blocks of one size, and `Stacked.noAscent` says that it has no ascent, whatever lies behind it.
-/

set_option autoImplicit false

namespace DzOS.Lib

variable {α : Type} {next : α → α} {n : Nat} {D E F : List α}

/-- No element of `D` has its successor directly behind it, in the list `D ++ F`. -/
def NoAscent (next : α → α) : List α → List α → Prop
  | [], _ => True
  | a :: D, F => (D ++ F).head? ≠ some (next a) ∧ NoAscent next D F

/-- A list made of blocks of `n` consecutive elements, each of which was pushed element by
element. -/
inductive Stacked (next : α → α) (n : Nat) : List α → Prop
  | nil : Stacked next n []
  | push (a : α) {D : List α} (h : Stacked next n D) :
      Stacked next n ((List.iterate next a n).reverse ++ D)

/-- The elements of two lists have no ascent when those of each list have none. -/
theorem noAscent_append :
    NoAscent next (D ++ E) F ↔ NoAscent next D (E ++ F) ∧ NoAscent next E F := by
  induction D with
  | nil => simp [NoAscent]
  | cons a D ih => simp only [List.cons_append, NoAscent, ih, List.append_assoc, and_assoc]

/-- The last elements of a longer block. -/
theorem iterate_succ_eq (next : α → α) (a : α) (n : Nat) :
    List.iterate next a (n + 1) = List.iterate next a n ++ [next^[n] a] := by
  induction n generalizing a with
  | zero => rfl
  | succ n ih =>
    rw [List.iterate, ih (next a), List.iterate, List.cons_append, Function.iterate_succ_apply]

/-- A block in descending order has no ascent when the successor of its last element is not
behind it. -/
theorem noAscent_descending (hne : ∀ a, next (next a) ≠ a) {a : α}
    (hF : F.head? ≠ some (next a)) (n : Nat) :
    NoAscent next (List.iterate next a n).reverse F := by
  induction n with
  | zero => trivial
  | succ n ih =>
    rw [iterate_succ_eq, List.reverse_append, List.reverse_singleton, List.singleton_append]
    refine ⟨?_, ih⟩
    cases n with
    | zero => exact hF
    | succ n =>
      rw [iterate_succ_eq, List.reverse_append, List.reverse_singleton]
      show some (next^[n] a) ≠ some (next (next^[n + 1] a))
      rw [Function.iterate_succ_apply']
      intro h
      exact hne _ (Option.some.inj h).symm

/-- The successor of the first element is in a block of at least two. -/
theorem next_mem_iterate (hn : 2 ≤ n) (a : α) : next a ∈ List.iterate next a n := by
  obtain ⟨m, rfl⟩ := Nat.exists_eq_add_of_le hn
  rw [Nat.add_comm]
  show next a ∈ a :: next a :: List.iterate next (next (next a)) m
  simp

/-- A stack of blocks has no ascent, also at its end. -/
theorem Stacked.noAscent (h : Stacked next n D) (hn : 2 ≤ n) (hne : ∀ a, next (next a) ≠ a)
    (hnodup : (D ++ F).Nodup) : NoAscent next D F := by
  induction h with
  | nil => trivial
  | push a hD ih =>
    rw [List.append_assoc, List.nodup_append] at hnodup
    obtain ⟨-, hrest, hdisj⟩ := hnodup
    refine noAscent_append.mpr ⟨noAscent_descending hne ?_ n, ih hrest⟩
    -- The successor of the last element is in the block, so it does not come again.
    intro hhead
    have hmem := List.mem_of_mem_head? hhead
    exact hdisj _ (List.mem_reverse.mpr (next_mem_iterate hn a)) _ hmem rfl

end DzOS.Lib
