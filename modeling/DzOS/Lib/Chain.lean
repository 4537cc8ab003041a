import Mathlib.Data.List.Basic

/-!
# `DzOS.Lib.Chain`: intrusive singly linked lists

`Chain null next p l` states that the links lead from `p` over the nodes `l` to `null`. So a chain
ends, and it has no cycle if no node is in `l` twice. `follow` walks along the links with a bound,
and finds the nodes of a chain that is not longer (`Chain.follow_eq`).

A chain depends on the links of its own nodes only (`Chain.congr`). When a write changes the link of
one node, a walk still comes to this node (`Chain.mem_of_other`).
-/

set_option autoImplicit false

namespace DzOS.Lib

variable {α : Type}

/-- The links lead from `p` over the nodes `l` to `null`. -/
def Chain (null : α) (next : α → α) : α → List α → Prop
  | p, [] => p = null
  | p, x :: l => p = x ∧ x ≠ null ∧ Chain null next (next x) l

/-- The nodes of a walk from `p`, at most as many as the bound. -/
def follow [DecidableEq α] (null : α) (next : α → α) : ℕ → α → List α
  | 0, _ => []
  | n + 1, p => if p = null then [] else p :: follow null next n (next p)

variable {null p x : α} {next next' : α → α} {l l' : List α}

theorem chain_nil : Chain null next p [] ↔ p = null := Iff.rfl

/-- A new first node, which links to the old one. -/
theorem Chain.push (h : Chain null next p l) (hx : x ≠ null) (hnext : next x = p) :
    Chain null next x (x :: l) := by
  refine ⟨rfl, hx, ?_⟩
  rw [hnext]
  exact h

/-- A chain depends on the links of its nodes only. -/
theorem Chain.congr (h : Chain null next p l) (hnext : ∀ y ∈ l, next' y = next y) :
    Chain null next' p l := by
  induction l generalizing p with
  | nil => exact h
  | cons y l ih =>
    obtain ⟨hp, hy, hrest⟩ := h
    refine ⟨hp, hy, ?_⟩
    rw [hnext y List.mem_cons_self]
    exact ih hrest fun z hz => hnext z (List.mem_cons_of_mem y hz)

/-- With another link of `x` only, a walk from `p` comes to `x` as before. -/
theorem Chain.mem_of_other (h : Chain null next p l) (hx : x ∈ l)
    (hother : ∀ y ∈ l, y ≠ x → next' y = next y) (h' : Chain null next' p l') : x ∈ l' := by
  induction l generalizing p l' with
  | nil => exact absurd hx List.not_mem_nil
  | cons y l ih =>
    obtain ⟨rfl, hy, hrest⟩ := h
    cases l' with
    | nil => exact absurd h' hy
    | cons z l' =>
      obtain ⟨rfl, -, hrest'⟩ := h'
      by_cases heq : p = x
      · rw [heq]
        exact List.mem_cons_self
      · rw [hother p List.mem_cons_self heq] at hrest'
        rcases List.mem_cons.mp hx with rfl | hx
        · exact absurd rfl heq
        · refine List.mem_cons_of_mem p (ih hrest hx (fun z hz => ?_) hrest')
          exact hother z (List.mem_cons_of_mem p hz)

/-- A walk finds the nodes of a chain. -/
theorem Chain.follow_eq [DecidableEq α] (h : Chain null next p l) {n : ℕ} (hn : l.length ≤ n) :
    follow null next n p = l := by
  induction l generalizing p n with
  | nil =>
    cases n with
    | zero => rfl
    | succ n => exact if_pos h
  | cons x l ih =>
    obtain ⟨rfl, hx, hrest⟩ := h
    cases n with
    | zero => exact absurd hn (Nat.not_succ_le_zero _)
    | succ n => rw [follow, if_neg hx, ih hrest (Nat.le_of_succ_le_succ hn)]

end DzOS.Lib
