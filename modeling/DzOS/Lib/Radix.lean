import Mathlib

/-!
# `DzOS.Lib.Radix`: radix trees as values

A radix tree of level `n` has a root table and tables on `n` levels below it. A table of level
0 has leaf entries only. An entry of a higher table comes with the table behind it, which counts
only when the entry is a `branch`. A path gives the index for each level.

`leaf` is the entry that a path leads to, and `mapping` keeps only the entries that branch too.
`setLeaf` writes it, and `extend` makes the missing tables of a path, with an entry for each of
them built from the next item of a supply. `mapping_setLeaf` and `mapping_extend` are the two rules:
a write changes the mapping of its own path, and new tables change no mapping.
`branchAt_setLeaf` and `branchAt_extend` say that both leave the rest of the root table alone,
and `onPath_setLeaf` and `onPath_extend` that a property of the branches is kept.

The results hold for every type of entries, indices and supplied items.
-/

set_option autoImplicit false

namespace DzOS.Lib

/-- A radix tree with entries of type `E` and indices of type `ι`, by its level. -/
inductive Radix (E ι : Type) : Nat → Type
  | leaves (entry : ι → E) : Radix E ι 0
  | node {n : Nat} (entry : ι → E) (child : ι → Radix E ι n) : Radix E ι (n + 1)

namespace Radix

variable {E ι A : Type} (branch : E → Bool) {n : Nat}

/-- The entry of the root table at an index, with the table behind it. -/
def branchAt : Radix E ι (n + 1) → ι → E × Radix E ι n
  | .node e c, i => (e i, c i)

/-- The tree with no branches. -/
def empty (e : E) : (n : Nat) → Radix E ι n
  | 0 => .leaves fun _ => e
  | n + 1 => .node (fun _ => e) fun _ => empty e n

/-- The leaf entry that a path leads to. -/
def leaf : {n : Nat} → Radix E ι n → (Nat → ι) → Option E
  | _, .leaves e, p => some (e (p 0))
  | n + 1, .node e c, p => if branch (e (p (n + 1))) then leaf (c (p (n + 1))) p else none

/-- The leaf entry of a path, when it branches. -/
def mapping (t : Radix E ι n) (p : Nat → ι) : Option E := (t.leaf branch p).filter branch

/-- Two paths have the same indices in a tree of level `n`. -/
def SamePath (p q : Nat → ι) (n : Nat) : Prop := ∀ i ≤ n, p i = q i

variable [DecidableEq ι]

instance (p q : Nat → ι) (n : Nat) : Decidable (SamePath p q n) :=
  inferInstanceAs (Decidable (∀ i ≤ n, p i = q i))

/-- Write the leaf entry of a path. Nothing happens when the path has no leaf. -/
def setLeaf : {n : Nat} → Radix E ι n → (Nat → ι) → E → Radix E ι n
  | _, .leaves e, p, v => .leaves (Function.update e (p 0) v)
  | n + 1, .node e c, p, v =>
    if branch (e (p (n + 1))) then
      .node e (Function.update c (p (n + 1)) (setLeaf (c (p (n + 1))) p v))
    else .node e c

/-- Make the missing tables of a path. The result says whether the supply was enough, and has
the tree and the rest of the supply. -/
def extend (mk : A → E) (none : E) :
    {n : Nat} → Radix E ι n → (Nat → ι) → List A → Bool × Radix E ι n × List A
  | _, .leaves e, _, supply => (true, .leaves e, supply)
  | n + 1, .node e c, p, supply =>
    if branch (e (p (n + 1))) then
      let (ok, t, supply) := extend mk none (c (p (n + 1))) p supply
      (ok, .node e (Function.update c (p (n + 1)) t), supply)
    else
      match supply with
      | [] => (false, .node e c, [])
      | a :: supply =>
        let (ok, t, supply) := extend mk none (empty none n) p supply
        (ok, .node (Function.update e (p (n + 1)) (mk a)) (Function.update c (p (n + 1)) t), supply)

variable {branch}

/-! ### Paths -/

omit [DecidableEq ι] in
/-- The same path in a tree is the same path in the subtree of its first index. -/
theorem samePath_succ {p q : Nat → ι} :
    SamePath p q (n + 1) ↔ p (n + 1) = q (n + 1) ∧ SamePath p q n := by
  constructor
  · intro h
    exact ⟨h (n + 1) (Nat.le_refl _), fun i hi => h i (by omega)⟩
  · rintro ⟨htop, h⟩ i hi
    rcases Nat.eq_or_lt_of_le hi with rfl | hlt
    · exact htop
    · exact h i (by omega)

omit [DecidableEq ι] in
/-- The leaf of a path depends on its indices in the tree only. -/
theorem leaf_congr {t : Radix E ι n} {p q : Nat → ι} (h : SamePath p q n) :
    t.leaf branch p = t.leaf branch q := by
  induction t with
  | leaves e => rw [leaf, leaf, h 0 (Nat.le_refl 0)]
  | node e c ih =>
    obtain ⟨htop, hsub⟩ := samePath_succ.mp h
    rw [leaf, leaf, htop, ih _ hsub]

omit [DecidableEq ι] in
/-- The empty tree maps nothing. -/
theorem mapping_empty {e : E} (he : branch e = false) (n : Nat) (p : Nat → ι) :
    (empty e n).mapping branch p = none := by
  cases n with
  | zero => simp [mapping, empty, leaf, Option.filter, he]
  | succ n => simp [mapping, empty, leaf, he]

omit [DecidableEq ι] in
/-- The mapping of a path through a branch is that of the subtree. -/
theorem mapping_node {e : ι → E} {c : ι → Radix E ι n} {p : Nat → ι}
    (h : branch (e (p (n + 1))) = true) :
    (Radix.node e c).mapping branch p = (c (p (n + 1))).mapping branch p := by
  simp [mapping, leaf, h]

omit [DecidableEq ι] in
/-- A path through no branch is not mapped. -/
theorem mapping_node_none {e : ι → E} {c : ι → Radix E ι n} {p : Nat → ι}
    (h : branch (e (p (n + 1))) = false) : (Radix.node e c).mapping branch p = none := by
  simp [mapping, leaf, h]

/-! ### Writing a leaf -/

/-- A write leaves the rest of the root table alone. -/
theorem branchAt_setLeaf (t : Radix E ι (n + 1)) {p : Nat → ι} (v : E) {i : ι}
    (hi : i ≠ p (n + 1)) : (t.setLeaf branch p v).branchAt i = t.branchAt i := by
  cases t with
  | node e c =>
    unfold setLeaf
    split
    · simp only [branchAt, Function.update_of_ne hi]
    · rfl

/-- A write leaves the leaves of other paths alone. -/
theorem leaf_setLeaf_of_ne (t : Radix E ι n) {p q : Nat → ι} (v : E) (h : ¬ SamePath q p n) :
    (t.setLeaf branch p v).leaf branch q = t.leaf branch q := by
  induction t with
  | leaves e =>
    have hq : q 0 ≠ p 0 := fun hc => h fun i hi => by rwa [Nat.le_zero.mp hi]
    rw [setLeaf, leaf, Function.update_of_ne hq, leaf]
  | node e c ih =>
    rename_i n
    unfold setLeaf
    split
    · by_cases hq : q (n + 1) = p (n + 1)
      · have hsub : ¬ SamePath q p n := fun hc => h (samePath_succ.mpr ⟨hq, hc⟩)
        rw [leaf, leaf, hq, Function.update_self, ih _ hsub]
      · rw [leaf, Function.update_of_ne hq, leaf]
    · rfl

section

variable {t : Radix E ι n} {p : Nat → ι} (h : (t.leaf branch p).isSome) (v : E) (q : Nat → ι)

include h

/-- The leaf of a path after a write to a path that has a leaf. -/
theorem leaf_setLeaf :
    (t.setLeaf branch p v).leaf branch q = if SamePath q p n then some v else t.leaf branch q := by
  induction t with
  | leaves e =>
    by_cases hq : q 0 = p 0
    · have hsame : SamePath q p 0 := fun i hi => by rwa [Nat.le_zero.mp hi]
      rw [if_pos hsame, setLeaf, leaf, hq, Function.update_self]
    · have hsame : ¬ SamePath q p 0 := fun hc => hq (hc 0 (Nat.le_refl 0))
      rw [if_neg hsame, setLeaf, leaf, Function.update_of_ne hq, leaf]
  | node e c ih =>
    rename_i n
    have hb : branch (e (p (n + 1))) = true := by
      by_contra hc
      simp [leaf, hc] at h
    have hsub : ((c (p (n + 1))).leaf branch p).isSome := by simpa [leaf, hb] using h
    rw [setLeaf, if_pos hb]
    by_cases hq : q (n + 1) = p (n + 1)
    · rw [leaf, hq, if_pos hb, Function.update_self, ih _ hsub, leaf, hq, if_pos hb]
      exact if_congr (by rw [samePath_succ, and_iff_right hq]) rfl rfl
    · have hsame : ¬ SamePath q p (n + 1) := fun hc => hq (samePath_succ.mp hc).1
      rw [if_neg hsame, leaf, Function.update_of_ne hq, leaf]

/-- A write to a path that has a leaf changes the mapping of this path only. -/
theorem mapping_setLeaf :
    (t.setLeaf branch p v).mapping branch q =
      if SamePath q p n then (some v).filter branch else t.mapping branch q := by
  rw [mapping, leaf_setLeaf h, mapping]
  split <;> rfl

end

/-! ### Making a path -/

section Extend

variable {mk : A → E} {none : E}

/-- Making a path leaves the rest of the root table alone. -/
theorem branchAt_extend (t : Radix E ι (n + 1)) {p : Nat → ι} (supply : List A) {i : ι}
    (hi : i ≠ p (n + 1)) : (t.extend branch mk none p supply).2.1.branchAt i = t.branchAt i := by
  cases t with
  | node e c =>
    unfold extend
    split
    · simp only [branchAt, Function.update_of_ne hi]
    · split
      · rfl
      · simp only [branchAt, Function.update_of_ne hi]

/-- When the supply is enough, the path has a leaf. -/
theorem leaf_extend_isSome (hmk : ∀ a, branch (mk a) = true) (t : Radix E ι n) (p : Nat → ι)
    (supply : List A) (hok : (t.extend branch mk none p supply).1 = true) :
    ((t.extend branch mk none p supply).2.1.leaf branch p).isSome := by
  induction n generalizing supply with
  | zero =>
    cases t with
    | leaves e => rfl
  | succ n ih =>
    cases t with
    | node e c =>
      unfold extend at hok ⊢
      split
      · rename_i hb
        rw [if_pos hb] at hok
        simp only [leaf, hb, if_true, Function.update_self]
        exact ih _ _ hok
      · rename_i hb
        rw [if_neg hb] at hok
        split
        · cases hok
        · rename_i a supply'
          simp only [leaf, Function.update_self, hmk, if_true]
          exact ih _ _ hok

/-- New tables change no leaf. Where there was none, an empty one may come. -/
theorem leaf_extend (hmk : ∀ a, branch (mk a) = true) (hnone : branch none = false)
    (t : Radix E ι n) (p : Nat → ι) (supply : List A) (q : Nat → ι) :
    (t.extend branch mk none p supply).2.1.leaf branch q = t.leaf branch q ∨
      t.leaf branch q = Option.none ∧
        (t.extend branch mk none p supply).2.1.leaf branch q ∈ [Option.none, some none] := by
  induction n generalizing supply with
  | zero =>
    cases t with
    | leaves e => exact Or.inl rfl
  | succ n ih =>
    cases t with
    | node e c =>
      unfold extend
      split
      · rename_i hb
        by_cases hq : q (n + 1) = p (n + 1)
        · have hbq : branch (e (p (n + 1))) = true := hb
          simp only [leaf, hq, hbq, if_true, Function.update_self]
          exact ih _ _
        · simp only [leaf, Function.update_of_ne hq, true_or]
      · rename_i hb
        split
        · exact Or.inl rfl
        · rename_i a supply'
          by_cases hq : q (n + 1) = p (n + 1)
          · -- The path ran into no branch before, and into an empty table now.
            refine Or.inr ⟨?_, ?_⟩
            · simp only [leaf, hq, hb, if_false, Bool.false_eq_true]
            · simp only [leaf, hq, Function.update_self, hmk, if_true]
              have hempty : ∀ m, (empty none m : Radix E ι m).leaf branch q ∈
                  [Option.none, some none] := by
                intro m
                cases m with
                | zero => simp [empty, leaf]
                | succ m => simp [empty, leaf, hnone]
              rcases ih (empty none n) supply' with h | ⟨-, h⟩
              · rw [h]
                exact hempty n
              · exact h
          · simp only [leaf, Function.update_of_ne hq, true_or]

/-- New tables change no mapping. -/
theorem mapping_extend (hmk : ∀ a, branch (mk a) = true) (hnone : branch none = false)
    (t : Radix E ι n) (p : Nat → ι) (supply : List A) (q : Nat → ι) :
    (t.extend branch mk none p supply).2.1.mapping branch q = t.mapping branch q := by
  rcases leaf_extend hmk hnone t p supply q with heq | ⟨hold, hnew⟩
  · rw [mapping, heq, mapping]
  · -- A path that ends in an empty table has no entry that branches.
    rw [mapping, mapping, hold]
    simp only [List.mem_cons, List.not_mem_nil, or_false] at hnew
    rcases hnew with hnew | hnew
    · rw [hnew]
    · rw [hnew, Option.filter_some, hnone]
      rfl

/-- A supply of one element for each level is enough. -/
theorem extend_of_length (t : Radix E ι n) (p : Nat → ι) {supply : List A}
    (h : n ≤ supply.length) :
    (t.extend branch mk none p supply).1 = true ∧
      supply.length ≤ (t.extend branch mk none p supply).2.2.length + n := by
  induction n generalizing supply with
  | zero =>
    cases t with
    | leaves e => exact ⟨rfl, Nat.le_refl _⟩
  | succ n ih =>
    cases t with
    | node e c =>
      unfold extend
      split
      · have hn : n ≤ supply.length := by omega
        obtain ⟨hok, hlen⟩ := ih (c (p (n + 1))) hn
        exact ⟨hok, Nat.le_succ_of_le hlen⟩
      · cases supply with
        | nil => exact absurd h (by simp)
        | cons a supply =>
          rw [List.length_cons] at h
          have hn : n ≤ supply.length := by omega
          obtain ⟨hok, hlen⟩ := ih (empty none n) hn
          refine ⟨hok, ?_⟩
          rw [List.length_cons]
          exact Nat.succ_le_succ hlen

/-! ### The branches of a path -/

/-- Every branch on the path, up to where it ends, satisfies `P`. -/
def OnPath (branch : E → Bool) (P : E → Prop) : {n : Nat} → Radix E ι n → (Nat → ι) → Prop
  | _, .leaves _, _ => True
  | n + 1, .node e c, p =>
    branch (e (p (n + 1))) = true → P (e (p (n + 1))) ∧ OnPath branch P (c (p (n + 1))) p

variable {P : E → Prop}

omit [DecidableEq ι] in
/-- An empty tree has no branch. -/
theorem onPath_empty {e : E} (he : branch e = false) (n : Nat) (p : Nat → ι) :
    (empty e n).OnPath branch P p := by
  cases n with
  | zero => trivial
  | succ n =>
    intro h
    have hb : branch e = true := h
    rw [he] at hb
    cases hb

/-- A write to a leaf leaves the branches alone. -/
theorem onPath_setLeaf {t : Radix E ι n} {p q : Nat → ι} (v : E) (h : t.OnPath branch P q) :
    (t.setLeaf branch p v).OnPath branch P q := by
  induction t with
  | leaves e => trivial
  | node e c ih =>
    rename_i n
    unfold setLeaf
    split
    · intro hb
      obtain ⟨hP, hsub⟩ := h hb
      refine ⟨hP, ?_⟩
      by_cases hq : q (n + 1) = p (n + 1)
      · rw [hq, Function.update_self]
        exact ih _ (hq ▸ hsub)
      · rw [Function.update_of_ne hq]
        exact hsub
    · exact h

/-- New tables satisfy `P` when the entries that are made for them do. -/
theorem onPath_extend (hmk : ∀ a, P (mk a)) (hnone : branch none = false) {t : Radix E ι n}
    {p q : Nat → ι} (supply : List A) (h : t.OnPath branch P q) :
    (t.extend branch mk none p supply).2.1.OnPath branch P q := by
  induction n generalizing supply with
  | zero =>
    cases t with
    | leaves e => trivial
  | succ n ih =>
    cases t with
    | node e c =>
      unfold extend
      split
      · intro hb
        obtain ⟨hP, hsub⟩ := h hb
        refine ⟨hP, ?_⟩
        by_cases hq : q (n + 1) = p (n + 1)
        · simp only [hq, Function.update_self]
          exact ih supply (hq ▸ hsub)
        · simp only [Function.update_of_ne hq]
          exact hsub
      · split
        · exact h
        · rename_i a supply'
          intro hb
          by_cases hq : q (n + 1) = p (n + 1)
          · simp only [hq, Function.update_self]
            exact ⟨hmk a, ih supply' (onPath_empty hnone n q)⟩
          · simp only [Function.update_of_ne hq] at hb ⊢
            exact h hb

end Extend

end Radix

end DzOS.Lib
