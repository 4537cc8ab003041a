import Mathlib

/-!
# `DzOS.Lib.DList`: intrusive doubly linked lists

The nodes of an intrusive list hold the links `next` and `prev`. Such a list has no value of
its own, so its contents are a relation: `IsDList next prev head tail l` states that the
links chain the nodes `l` in order between `head` and `tail`.

`Seg` is the relation for a part of a list, with the node before it and the node after it.
`seg_append` splits a part in two. The rules for the two operations follow from it:
`IsDList.append` adds a node behind the tail, and `IsDList.unlink` takes a node out. Both
speak about the links after the operation only through the values at the nodes that the
operation writes, and both leave the links of other lists alone (`IsDList.congr`).

`IsDList.unique` states that the links determine the contents.
-/

set_option autoImplicit false

namespace DzOS.Lib

variable {α : Type}

/-- The first node of `l`, or `after` for the empty list. -/
def headOr (l : List α) (after : Option α) : Option α := l.head?.or after

/-- The last node of `l`, or `before` for the empty list. -/
def lastOr (before : Option α) (l : List α) : Option α := l.getLast?.or before

@[simp] theorem headOr_nil (a : Option α) : headOr [] a = a := rfl

@[simp] theorem headOr_cons (x : α) (l : List α) (a : Option α) :
    headOr (x :: l) a = some x := rfl

@[simp] theorem headOr_none (l : List α) : headOr l none = l.head? := by
  simp [headOr]

@[simp] theorem lastOr_nil (b : Option α) : lastOr b [] = b := rfl

@[simp] theorem lastOr_none (l : List α) : lastOr none l = l.getLast? := by
  simp [lastOr]

@[simp] theorem lastOr_cons (b : Option α) (x : α) (l : List α) :
    lastOr b (x :: l) = lastOr (some x) l := by
  cases h : l.getLast? <;> simp [lastOr, List.getLast?_cons, h]

theorem headOr_append (l r : List α) (a : Option α) :
    headOr (l ++ r) a = headOr l (headOr r a) := by
  cases l <;> simp

/-- The links chain the nodes `l` in order, behind `before` and in front of `after`. -/
def Seg (next prev : α → Option α) : Option α → List α → Option α → Prop
  | _, [], _ => True
  | before, x :: l, after =>
    prev x = before ∧ next x = headOr l after ∧ Seg next prev (some x) l after

variable {next prev next' prev' : α → Option α} {before after : Option α} {l r : List α}

@[simp] theorem seg_nil : Seg next prev before [] after := trivial

@[simp] theorem seg_cons {x : α} :
    Seg next prev before (x :: l) after ↔
      prev x = before ∧ next x = headOr l after ∧ Seg next prev (some x) l after :=
  Iff.rfl

/-- A chain splits at any node: the left part ends in front of the first node of the right
part, and the right part starts behind the last node of the left part. -/
theorem seg_append :
    Seg next prev before (l ++ r) after ↔
      Seg next prev before l (headOr r after) ∧ Seg next prev (lastOr before l) r after := by
  induction l generalizing before with
  | nil => simp
  | cons x l ih => simp [ih, headOr_append, and_assoc]

/-- A chain depends on the links of its own nodes only. -/
theorem Seg.congr (h : Seg next prev before l after)
    (hn : ∀ x ∈ l, next' x = next x) (hp : ∀ x ∈ l, prev' x = prev x) :
    Seg next' prev' before l after := by
  induction l generalizing before with
  | nil => exact seg_nil
  | cons x l ih =>
    obtain ⟨hx, hnx, hl⟩ := h
    refine ⟨(hp x (by simp)).trans hx, (hn x (by simp)).trans hnx, ih hl ?_ ?_⟩
    · exact fun y hy => hn y (by simp [hy])
    · exact fun y hy => hp y (by simp [hy])

/-- Only the last node links to what follows a chain, so a write of its `next` link moves
the chain in front of another node. -/
theorem Seg.setAfter {after' : Option α} (h : Seg next prev before l after) (hnd : l.Nodup)
    (hlast : ∀ z, l.getLast? = some z → next' z = after')
    (hn : ∀ x ∈ l, l.getLast? ≠ some x → next' x = next x)
    (hp : ∀ x ∈ l, prev' x = prev x) :
    Seg next' prev' before l after' := by
  cases l using List.reverseRecOn with
  | nil => exact seg_nil
  | append_singleton l z =>
    rw [seg_append] at h ⊢
    obtain ⟨hl, hz, -, -⟩ := h
    have hzl : z ∉ l := by
      rw [List.nodup_append] at hnd
      exact fun hmem => hnd.2.2 z hmem z (by simp) rfl
    refine ⟨hl.congr ?_ ?_, ?_⟩
    · intro x hx
      refine hn x (by simp [hx]) ?_
      simp only [List.getLast?_append, List.getLast?_singleton, Option.some_or, ne_eq,
        Option.some.injEq]
      rintro rfl
      exact hzl hx
    · exact fun x hx => hp x (by simp [hx])
    · exact ⟨(hp z (by simp)).trans hz, hlast z (by simp), seg_nil⟩

/-- Only the first node links to what precedes a chain, so a write of its `prev` link moves
the chain behind another node. -/
theorem Seg.setBefore {before' : Option α} (h : Seg next prev before l after) (hnd : l.Nodup)
    (hhead : ∀ z, l.head? = some z → prev' z = before')
    (hp : ∀ x ∈ l, l.head? ≠ some x → prev' x = prev x)
    (hn : ∀ x ∈ l, next' x = next x) :
    Seg next' prev' before' l after := by
  cases l with
  | nil => exact seg_nil
  | cons z l =>
    obtain ⟨-, hnz, hl⟩ := h
    have hzl : z ∉ l := (List.nodup_cons.mp hnd).1
    refine ⟨hhead z rfl, (hn z (by simp)).trans hnz, hl.congr ?_ ?_⟩
    · exact fun x hx => hn x (by simp [hx])
    · intro x hx
      refine hp x (by simp [hx]) ?_
      simp only [List.head?_cons, ne_eq, Option.some.injEq]
      rintro rfl
      exact hzl hx

/-- The links chain the nodes `l` in order, from `head` to `tail`. -/
structure IsDList (next prev : α → Option α) (head tail : Option α) (l : List α) : Prop where
  head_eq : head = l.head?
  tail_eq : tail = l.getLast?
  seg : Seg next prev none l none

variable {head tail : Option α}

/-- A list with no nodes. -/
theorem IsDList.nil : IsDList next prev none none [] := ⟨rfl, rfl, seg_nil⟩

/-- A list depends on the links of its own nodes only. -/
theorem IsDList.congr (h : IsDList next prev head tail l)
    (hn : ∀ x ∈ l, next' x = next x) (hp : ∀ x ∈ l, prev' x = prev x) :
    IsDList next' prev' head tail l :=
  ⟨h.head_eq, h.tail_eq, h.seg.congr hn hp⟩

/-- The rule for adding `y` behind the tail: `y` links back to the old tail and to nothing
in front, and the old tail links to `y`. -/
theorem IsDList.append {y : α} (h : IsDList next prev head tail l) (hnd : l.Nodup)
    (hny : next' y = none) (hpy : prev' y = tail)
    (htail : ∀ z, tail = some z → next' z = some y)
    (hn : ∀ x ∈ l, tail ≠ some x → next' x = next x)
    (hp : ∀ x ∈ l, prev' x = prev x) :
    IsDList next' prev' (head.or (some y)) (some y) (l ++ [y]) := by
  obtain ⟨hhead, htl, hseg⟩ := h
  subst htl
  refine ⟨?_, by simp, ?_⟩
  · rw [hhead, List.head?_append]
    rfl
  · rw [seg_append]
    exact ⟨hseg.setAfter hnd htail hn hp, hpy.trans (lastOr_none l).symm, hny, seg_nil⟩

/-- The links of a node lead to its neighbours in the list. -/
theorem IsDList.links {x : α} {u v : List α}
    (h : IsDList next prev head tail (u ++ x :: v)) :
    prev x = u.getLast? ∧ next x = v.head? := by
  obtain ⟨-, hprev, hnext, -⟩ := seg_append.mp h.seg
  rw [lastOr_none] at hprev
  rw [headOr_none] at hnext
  exact ⟨hprev, hnext⟩

/-- The rule for taking `x` out: its neighbours link to each other, and where it has no
neighbour on a side, the end of the list moves. -/
theorem IsDList.unlink {x : α} {u v : List α}
    (h : IsDList next prev head tail (u ++ x :: v)) (hnd : (u ++ x :: v).Nodup)
    (hpx : ∀ z, prev x = some z → next' z = next x)
    (hnx : ∀ z, next x = some z → prev' z = prev x)
    (hn : ∀ y ∈ u ++ v, prev x ≠ some y → next' y = next y)
    (hp : ∀ y ∈ u ++ v, next x ≠ some y → prev' y = prev y) :
    IsDList next' prev' (if (prev x).isSome then head else next x)
      (if (next x).isSome then tail else prev x) (u ++ v) := by
  obtain ⟨hprev, hnext⟩ := h.links
  obtain ⟨hhead, htl, hseg⟩ := h
  obtain ⟨hu, -, -, hv⟩ := seg_append.mp hseg
  rw [hprev, hnext] at hpx hnx ⊢
  rw [hprev] at hn
  rw [hnext] at hp
  obtain ⟨hndu, hndxv, hdisj⟩ := List.nodup_append.mp hnd
  have hndv : v.Nodup := (List.nodup_cons.mp hndxv).2
  refine ⟨?_, ?_, ?_⟩
  · cases u <;> simp [hhead]
  · rw [htl, List.getLast?_append, List.getLast?_append, List.getLast?_cons]
    cases v <;> simp [List.getLast?_cons]
  · rw [seg_append, lastOr_none, headOr_none]
    refine ⟨hu.setAfter hndu hpx ?_ ?_, hv.setBefore hndv hnx ?_ ?_⟩
    · exact fun y hy hne => hn y (by simp [hy]) hne
    · intro y hy
      refine hp y (by simp [hy]) fun heq => ?_
      exact hdisj y hy y (List.mem_cons_of_mem _ (List.mem_of_mem_head? heq)) rfl
    · exact fun y hy hne => hp y (by simp [hy]) hne
    · intro y hy
      refine hn y (by simp [hy]) fun heq => ?_
      exact hdisj y (List.mem_of_getLast? heq) y (List.mem_cons_of_mem _ hy) rfl

/-- Two chains that follow the same `next` links from the same first node and end at the
same place are equal, provided neither runs into itself: the shorter one is the whole. -/
theorem Seg.unique {before₁ before₂ : Option α} {l₁ l₂ : List α}
    (h₁ : Seg next prev before₁ l₁ none) (h₂ : Seg next prev before₂ l₂ none)
    (hhead : l₁.head? = l₂.head?) : l₁ = l₂ := by
  induction l₁ generalizing l₂ before₁ before₂ with
  | nil =>
    cases l₂ with
    | nil => rfl
    | cons y l₂ => simp at hhead
  | cons x l₁ ih =>
    cases l₂ with
    | nil => simp at hhead
    | cons y l₂ =>
      obtain rfl : x = y := by simpa using hhead
      obtain ⟨-, hn₁, h₁⟩ := h₁
      obtain ⟨-, hn₂, h₂⟩ := h₂
      rw [headOr_none] at hn₁ hn₂
      rw [ih h₁ h₂ (hn₁.symm.trans hn₂)]

/-- The links and the first node determine the contents of a list. -/
theorem IsDList.unique {tail₁ tail₂ : Option α} {l₁ l₂ : List α}
    (h₁ : IsDList next prev head tail₁ l₁) (h₂ : IsDList next prev head tail₂ l₂) : l₁ = l₂ :=
  h₁.seg.unique h₂.seg (h₁.head_eq.symm.trans h₂.head_eq)

end DzOS.Lib
