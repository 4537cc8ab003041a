import DzOS.Lib.Radix

/-!
# `DzOS.Lib.RadixItems`: what a radix tree holds

Each entry that branches refers to an item: the table behind it, or the leaf. `items` lists the
items of a tree, over the given indices of each level. A tree that owns its items can be accounted
for with two rules. `items_extend` says that the tables that `extend` makes are the items that it
takes from the supply, and `items_setLeaf` that a leaf adds its item.

The rest is about the supply. A path with a leaf needs nothing (`extend_of_leaf`), a path through
no branch needs an item for each level below the root (`extend_missing`), and an empty supply makes
nothing (`extend_nil`).
-/

set_option autoImplicit false

namespace DzOS.Lib

open scoped List

/-- One element of the list gives more. -/
theorem flatMap_perm_append {ι A : Type} [DecidableEq ι] {l : List ι} {j : ι} {g g' : ι → List A}
    {extra : List A} (hl : l.Nodup) (hj : j ∈ l) (hself : g' j ~ g j ++ extra)
    (hother : ∀ i, i ≠ j → g' i = g i) : l.flatMap g' ~ l.flatMap g ++ extra := by
  have hperm := List.perm_cons_erase hj
  have hrest : (l.erase j).flatMap g' = (l.erase j).flatMap g :=
    List.flatMap_congr fun i hi => hother i fun heq => hl.not_mem_erase (heq ▸ hi)
  calc l.flatMap g'
      ~ g' j ++ (l.erase j).flatMap g' := hperm.flatMap_right g'
    _ ~ (g j ++ extra) ++ (l.erase j).flatMap g := by
        rw [hrest]
        exact hself.append_right _
    _ ~ (g j ++ (l.erase j).flatMap g) ++ extra := by
        rw [List.append_assoc, List.append_assoc]
        exact List.perm_append_comm.append_left _
    _ ~ l.flatMap g ++ extra := (hperm.flatMap_right g).symm.append_right _

namespace Radix

variable {E ι A : Type} (branch : E → Bool) (addr : E → A) (indices : Nat → List ι) {n : Nat}

/-- The items of a tree. A table comes behind the items below it. -/
def items : {n : Nat} → Radix E ι n → List A
  | _, .leaves e => (indices 0).flatMap fun i => if branch (e i) then [addr (e i)] else []
  | n + 1, .node e c =>
    (indices (n + 1)).flatMap fun i => if branch (e i) then items (c i) ++ [addr (e i)] else []

/-- The indices of a path are among those that are listed, each once. -/
def Listed (indices : Nat → List ι) (p : Nat → ι) (n : Nat) : Prop :=
  ∀ level ≤ n, (indices level).Nodup ∧ p level ∈ indices level

variable {branch addr indices}

theorem Listed.mono {p : Nat → ι} (h : Listed indices p (n + 1)) : Listed indices p n :=
  fun level hle => h level (by omega)

/-- The empty tree has no items. -/
theorem items_empty {e : E} (he : branch e = false) (n : Nat) :
    (empty e n : Radix E ι n).items branch addr indices = [] := by
  have hnone : ¬ branch e = true := by simp [he]
  cases n with
  | zero => simp only [empty, items, if_neg hnone, List.flatMap_eq_nil_iff, implies_true]
  | succ n => simp only [empty, items, if_neg hnone, List.flatMap_eq_nil_iff, implies_true]

variable [DecidableEq ι]

/-- A leaf that starts to branch adds its item. -/
theorem items_setLeaf {t : Radix E ι n} {p : Nat → ι} {old v : E} (hp : Listed indices p n)
    (hleaf : t.leaf branch p = some old) (hold : branch old = false) (hv : branch v = true) :
    (t.setLeaf branch p v).items branch addr indices ~ t.items branch addr indices ++ [addr v] := by
  induction t with
  | leaves e =>
    obtain ⟨hnodup, hmem⟩ := hp 0 (Nat.le_refl 0)
    have hp0 : branch (e (p 0)) = false := by
      rw [leaf] at hleaf
      cases hleaf
      exact hold
    refine flatMap_perm_append hnodup hmem ?_ fun i hi => ?_
    · rw [Function.update_self, if_pos hv, if_neg (by simp [hp0])]
      exact List.Perm.refl _
    · rw [Function.update_of_ne hi]
  | node e c ih =>
    rename_i n
    obtain ⟨hnodup, hmem⟩ := hp (n + 1) (Nat.le_refl _)
    have hb : branch (e (p (n + 1))) = true := by
      by_contra hc
      rw [leaf, if_neg hc] at hleaf
      cases hleaf
    rw [leaf, if_pos hb] at hleaf
    rw [setLeaf, if_pos hb]
    refine flatMap_perm_append hnodup hmem ?_ fun i hi => ?_
    · rw [if_pos hb, if_pos hb, Function.update_self]
      calc (setLeaf branch (c (p (n + 1))) p v).items branch addr indices ++ [addr (e (p (n + 1)))]
          ~ ((c (p (n + 1))).items branch addr indices ++ [addr v]) ++ [addr (e (p (n + 1)))] :=
            (ih _ hp.mono hleaf).append_right _
        _ ~ ((c (p (n + 1))).items branch addr indices ++ [addr (e (p (n + 1)))]) ++ [addr v] := by
            rw [List.append_assoc, List.append_assoc]
            exact (List.Perm.swap _ _ []).append_left _
    · rw [Function.update_of_ne hi]

section Extend

variable {mk : A → E} {none : E}

/-- The tables that are made are the items that are taken from the supply. -/
theorem items_extend (hnone : branch none = false) {t : Radix E ι n} {p : Nat → ι}
    {supply : List A} (hp : Listed indices p n)
    (hmk : ∀ a ∈ supply, branch (mk a) = true ∧ addr (mk a) = a) :
    ∃ used, supply = used ++ (t.extend branch mk none p supply).2.2 ∧
      (t.extend branch mk none p supply).2.1.items branch addr indices ~
        t.items branch addr indices ++ used := by
  induction n generalizing supply with
  | zero =>
    cases t with
    | leaves e =>
      refine ⟨[], rfl, ?_⟩
      rw [List.append_nil]
      exact List.Perm.refl _
  | succ n ih =>
    cases t with
    | node e c =>
      obtain ⟨hnodup, hmem⟩ := hp (n + 1) (Nat.le_refl _)
      unfold extend
      split
      · rename_i hb
        obtain ⟨used, hsupply, hitems⟩ := ih (t := c (p (n + 1))) hp.mono hmk
        refine ⟨used, hsupply, flatMap_perm_append hnodup hmem ?_ fun i hi => ?_⟩
        · rw [if_pos hb, if_pos hb, Function.update_self]
          refine (hitems.append_right _).trans ?_
          rw [List.append_assoc, List.append_assoc]
          exact List.perm_append_comm.append_left _
        · rw [Function.update_of_ne hi]
      · rename_i hb
        cases supply with
        | nil =>
          refine ⟨[], rfl, ?_⟩
          rw [List.append_nil]
        | cons a supply =>
          obtain ⟨hbranch, haddr⟩ := hmk a List.mem_cons_self
          obtain ⟨used, hsupply, hitems⟩ := ih (t := empty none n) hp.mono
            fun a' ha' => hmk a' (List.mem_cons_of_mem _ ha')
          rw [items_empty hnone, List.nil_append] at hitems
          refine ⟨a :: used, congrArg (a :: ·) hsupply,
            flatMap_perm_append hnodup hmem ?_ fun i hi => ?_⟩
          · rw [Function.update_self, Function.update_self, if_pos hbranch, if_neg hb, haddr,
              List.nil_append]
            exact (hitems.append_right _).trans List.perm_append_comm
          · rw [Function.update_of_ne hi, Function.update_of_ne hi]

/-- A path with a leaf needs nothing. -/
theorem extend_of_leaf {t : Radix E ι n} {p : Nat → ι} (h : (t.leaf branch p).isSome)
    (supply : List A) : t.extend branch mk none p supply = (true, t, supply) := by
  induction t with
  | leaves e => rfl
  | node e c ih =>
    rename_i n
    have hb : branch (e (p (n + 1))) = true := by
      by_contra hc
      simp [leaf, hc] at h
    rw [leaf, if_pos hb] at h
    unfold extend
    rw [if_pos hb, ih _ h]
    dsimp only
    rw [Function.update_eq_self]

/-- An empty supply makes nothing. -/
theorem extend_nil (t : Radix E ι n) (p : Nat → ι) :
    t.extend branch mk none p [] = ((t.leaf branch p).isSome, t, []) := by
  induction t with
  | leaves e => rfl
  | node e c ih =>
    rename_i n
    unfold extend
    rw [leaf]
    split
    · rw [ih]
      dsimp only
      rw [Function.update_eq_self]
    · rfl

/-- When the supply is not enough, the path has no leaf. -/
theorem leaf_extend_eq_none {t : Radix E ι n} {p : Nat → ι} {supply : List A}
    (h : (t.extend branch mk none p supply).1 = false) :
    (t.extend branch mk none p supply).2.1.leaf branch p = Option.none := by
  induction n generalizing supply with
  | zero =>
    cases t with
    | leaves e => cases h
  | succ n ih =>
    cases t with
    | node e c =>
      unfold extend at h ⊢
      split
      · rename_i hb
        rw [if_pos hb] at h
        rw [leaf, if_pos hb, Function.update_self]
        exact ih h
      · rename_i hb
        rw [if_neg hb] at h
        cases supply with
        | nil => rw [leaf, if_neg hb]
        | cons a supply =>
          rw [leaf, Function.update_self, Function.update_self]
          split
          · exact ih h
          · rfl

/-- A path in the empty tree needs an item for each level below the root. -/
theorem extend_empty (hnone : branch none = false) (n : Nat) (p : Nat → ι) (supply : List A) :
    ((empty none n).extend branch mk none p supply).1 = decide (n ≤ supply.length) ∧
      ((empty none n).extend branch mk none p supply).2.2 = supply.drop n := by
  induction n generalizing supply with
  | zero => exact ⟨rfl, rfl⟩
  | succ n ih =>
    unfold empty extend
    rw [if_neg (by simp [hnone])]
    cases supply with
    | nil => exact ⟨rfl, rfl⟩
    | cons a supply =>
      obtain ⟨hok, hrest⟩ := ih supply
      refine ⟨?_, hrest⟩
      rw [List.length_cons]
      exact hok.trans (decide_eq_decide.mpr (by omega))

/-- So does a path through no branch of the root. -/
theorem extend_missing (hnone : branch none = false) {e : ι → E} {c : ι → Radix E ι n}
    {p : Nat → ι} (hb : branch (e (p (n + 1))) = false) (supply : List A) :
    ((Radix.node e c).extend branch mk none p supply).1 = decide (n + 1 ≤ supply.length) ∧
      ((Radix.node e c).extend branch mk none p supply).2.2 = supply.drop (n + 1) := by
  unfold extend
  rw [if_neg (by simp [hb])]
  cases supply with
  | nil => exact ⟨rfl, rfl⟩
  | cons a supply =>
    obtain ⟨hok, hrest⟩ := extend_empty hnone n p supply
    refine ⟨?_, hrest⟩
    rw [List.length_cons]
    exact hok.trans (decide_eq_decide.mpr (by omega))

end Extend

omit [DecidableEq ι] in
/-- Whether a path has a leaf does not depend on its last index. -/
theorem leaf_isSome_congr {t : Radix E ι n} {p q : Nat → ι}
    (h : ∀ level, 0 < level → level ≤ n → p level = q level) :
    (t.leaf branch p).isSome = (t.leaf branch q).isSome := by
  induction t with
  | leaves e => rfl
  | node e c ih =>
    rename_i n
    rw [leaf, leaf, h (n + 1) (by omega) (Nat.le_refl _)]
    split
    · exact ih _ fun level hpos hle => h level hpos (by omega)
    · rfl

/-- A write keeps the paths that have a leaf. -/
theorem leaf_isSome_setLeaf {t : Radix E ι n} {p : Nat → ι} (h : (t.leaf branch p).isSome) (v : E)
    (q : Nat → ι) : ((t.setLeaf branch p v).leaf branch q).isSome = (t.leaf branch q).isSome := by
  rw [leaf_setLeaf h]
  split
  · rename_i hsame
    rw [leaf_isSome_congr fun level _ hle => hsame level hle, h]
    rfl
  · rfl

end Radix

end DzOS.Lib
