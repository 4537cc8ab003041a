import Mathlib

/-!
# `DzOS.Lib.Tree`: trees that are kept as lists of children

Every node `f` has a list `ls f` of children. `Under ls root n` states that the lists lead from
the node `root` down to the node `n`.

When every child is in one list, no node is its own child (`Under.not_mem_self`). A child that
has no children may leave its list or go to another one, and the other nodes are still under the
root (`Under.of_leaf`). When every node also knows its parent, the parents lead from any node
up to the root (`Under.ascend`).

Where the children have names, `Walk` states that a list of names leads from one node to another.
A search for the children by their names does the same walk (`walk_iff_foldlM`).
-/

set_option autoImplicit false

namespace DzOS.Lib

variable {A : Type}

/-- The lists lead from `root` down to `n`. -/
def Under (ls : A → List A) (root n : A) : Prop :=
  Relation.ReflTransGen (fun f m => m ∈ ls f) root n

variable {ls ls' : A → List A} {root f n d : A}

theorem Under.refl (ls : A → List A) (root : A) : Under ls root root := Relation.ReflTransGen.refl

theorem Under.child (h : Under ls root f) (hn : n ∈ ls f) : Under ls root n := .tail h hn

/-- More children, more nodes under the root. -/
theorem Under.mono (h : Under ls root n) (hsub : ∀ f m, m ∈ ls f → m ∈ ls' f) :
    Under ls' root n :=
  Relation.ReflTransGen.mono hsub _ _ h

/-- The node `d` has no children, and the lists keep every other child. -/
theorem Under.of_leaf (hleaf : ls d = []) (hkeep : ∀ f m, m ∈ ls f → m ≠ d → m ∈ ls' f)
    (h : Under ls root n) (hn : n ≠ d) : Under ls' root n := by
  induction h with
  | refl => exact Under.refl ls' root
  | @tail f m _ hm ih =>
    have hf : f ≠ d := by
      rintro rfl
      rw [hleaf] at hm
      cases hm
    exact (ih hf).child (hkeep f m hm hn)

/-- No node is its own child, when every child is in one list and the root is in none. -/
theorem Under.not_mem_self (hroot : ∀ f, root ∉ ls f)
    (huniq : ∀ f g m, m ∈ ls f → m ∈ ls g → f = g) (h : Under ls root n) : n ∉ ls n := by
  induction h with
  | refl => exact hroot root
  | @tail f m _ hm ih =>
    intro hself
    have hfm : f = m := huniq f m m hm hself
    rw [hfm] at ih
    exact ih hself

/-- A node under the root is the root, or a child of a node under the root. -/
theorem Under.cases_child (h : Under ls root n) :
    n = root ∨ ∃ f, Under ls root f ∧ n ∈ ls f := by
  cases h with
  | refl => exact Or.inl rfl
  | @tail f m hf hm => exact Or.inr ⟨f, hf, hm⟩

/-- The parents lead up to the root, from every node with `P`. -/
theorem Under.ascend {P : A → Prop} {parent : A → A} (hP : ∀ f m, m ∈ ls f → P f)
    (hparent : ∀ f m, m ∈ ls f → P m → parent m = f) (h : Under ls root n) (hn : P n) :
    ∃ k, parent^[k] n = root := by
  induction h with
  | refl => exact ⟨0, rfl⟩
  | @tail f m _ hm ih =>
    obtain ⟨k, hk⟩ := ih (hP f m hm)
    exact ⟨k + 1, by rw [Function.iterate_succ_apply, hparent f m hm hn, hk]⟩

/-! ### Walks by name -/

section
variable {N : Type}

/-- The names lead from one node to another. The child of `f` with the name `name` is the `m` with
`edge f name m`. -/
inductive Walk (edge : A → N → A → Prop) : A → List N → A → Prop
  | nil (f : A) : Walk edge f [] f
  | cons {f m g : A} {name : N} {names : List N} :
      edge f name m → Walk edge m names g → Walk edge f (name :: names) g

/-- Behind one name, the rest of the names leads on from the child. -/
theorem walk_cons_iff {edge : A → N → A → Prop} {f g : A} {name : N} {names : List N} :
    Walk edge f (name :: names) g ↔ ∃ m, edge f name m ∧ Walk edge m names g := by
  constructor
  · intro h
    cases h with
    | cons hedge hrest => exact ⟨_, hedge, hrest⟩
  · rintro ⟨m, hedge, hrest⟩
    exact .cons hedge hrest

/-- The walk, when `find` finds the children of the nodes with `P` by their names. -/
theorem walk_iff_foldlM {edge : A → N → A → Prop} {find : A → N → Option A} {P : A → Prop}
    {names : List N}
    (hfind : ∀ f, P f → ∀ name ∈ names, ∀ m, find f name = some m ↔ edge f name m)
    (hP : ∀ f name m, edge f name m → P m) {f g : A} (hf : P f) :
    Walk edge f names g ↔ names.foldlM find f = some g := by
  induction names generalizing f with
  | nil =>
    constructor
    · intro h
      cases h
      rfl
    · intro h
      obtain rfl := Option.some.inj h
      exact .nil f
  | cons name names ih =>
    have hrest : ∀ m, P m → (Walk edge m names g ↔ names.foldlM find m = some g) := fun m hm =>
      ih (fun f hf name hname => hfind f hf name (List.mem_cons_of_mem _ hname)) hm
    rw [walk_cons_iff, List.foldlM_cons, Option.bind_eq_bind, Option.bind_eq_some_iff]
    refine exists_congr fun m => ?_
    rw [hfind f hf name List.mem_cons_self]
    exact and_congr_right fun hedge => hrest m (hP f name m hedge)

end

end DzOS.Lib
