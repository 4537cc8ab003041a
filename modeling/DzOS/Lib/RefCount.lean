import Mathlib.Algebra.BigOperators.Group.Finset.Piecewise
import Mathlib.Algebra.Order.BigOperators.Group.Finset

/-!
# `DzOS.Lib.RefCount`: counted references

Objects of `A` are shared by slots. A slot refers to at most one object, and each object counts
the references to it. A program that moves a reference from one slot to another holds it on its
own for a while, so the count of an object is the number of the slots that refer to it and of
the *pending* references to it (`Counted`).

The rules say what keeps this: taking a reference (`Counted.acquire`) and giving it up
(`Counted.release`), putting a pending reference into an empty slot (`Counted.store`) and taking
it out (`Counted.load`), and empty slots that come and go (`Counted.extend`, `Counted.shrink`).
-/

set_option autoImplicit false

namespace DzOS.Lib

variable {S A : Type} [DecidableEq A]

/-- The number of the slots that refer to `a`. -/
def refs (slots : Finset S) (ref : S → Option A) (a : A) : Nat :=
  {s ∈ slots | ref s = some a}.card

/-- The count of each object is the number of its references in the slots and its pending
ones. -/
def Counted (count : A → Nat) (slots : Finset S) (ref : S → Option A) (pending : List A) : Prop :=
  ∀ a, count a = refs slots ref a + pending.count a

variable {count : A → Nat} {slots slots' : Finset S} {ref ref' : S → Option A} {pending : List A}
  {a b : A}

/-- There are not more references than slots. -/
theorem refs_le_card (slots : Finset S) (ref : S → Option A) (a : A) :
    refs slots ref a ≤ slots.card := Finset.card_filter_le _ _

/-- The number of references depends on the slots only. -/
theorem refs_congr (h : ∀ s ∈ slots, ref' s = ref s) (a : A) :
    refs slots ref' a = refs slots ref a := by
  have hfilter : {s ∈ slots | ref' s = some a} = {s ∈ slots | ref s = some a} := by
    refine Finset.filter_congr fun s hs => ?_
    rw [h s hs]
  rw [refs, refs, hfilter]

/-- Slots without a reference do not count. -/
theorem refs_extend (hsub : slots ⊆ slots') (hnone : ∀ s ∈ slots', s ∉ slots → ref s = none)
    (a : A) : refs slots' ref a = refs slots ref a := by
  have hfilter : {s ∈ slots' | ref s = some a} = {s ∈ slots | ref s = some a} := by
    ext s
    rw [Finset.mem_filter, Finset.mem_filter]
    constructor
    · rintro ⟨hs, href⟩
      refine ⟨?_, href⟩
      by_contra hnot
      rw [hnone s hs hnot] at href
      cases href
    · rintro ⟨hs, href⟩
      exact ⟨hsub hs, href⟩
  rw [refs, refs, hfilter]

/-- A slot that refers to `a` is one of its references. -/
theorem refs_pos {s : S} (hs : s ∈ slots) (href : ref s = some a) : 0 < refs slots ref a :=
  Finset.card_pos.mpr ⟨s, Finset.mem_filter.mpr ⟨hs, href⟩⟩

/-- A write to one slot. -/
theorem refs_update [DecidableEq S] (ref : S → Option A) {s : S} (hs : s ∈ slots) (x : Option A)
    (a : A) :
    refs slots (Function.update ref s x) a + (if ref s = some a then 1 else 0)
      = refs slots ref a + (if x = some a then 1 else 0) := by
  have hsum : ∀ r : S → Option A, refs slots r a
      = (if r s = some a then 1 else 0) + ∑ k ∈ slots.erase s, if r k = some a then 1 else 0 := by
    intro r
    rw [refs, Finset.card_filter]
    exact (Finset.add_sum_erase slots (fun k => if r k = some a then 1 else 0) hs).symm
  have hrest : ∑ k ∈ slots.erase s, (if Function.update ref s x k = some a then 1 else 0)
      = ∑ k ∈ slots.erase s, if ref k = some a then 1 else 0 := by
    refine Finset.sum_congr rfl fun k hk => ?_
    rw [Function.update_of_ne (Finset.ne_of_mem_erase hk)]
  rw [hsum, hsum, hrest, Function.update_self]
  omega

/-! ### The rules -/

/-- The invariant depends on the slots only. -/
theorem Counted.congr (h : Counted count slots ref pending) (href : ∀ s ∈ slots, ref' s = ref s) :
    Counted count slots ref' pending := by
  intro a
  rw [h a, refs_congr href]

/-- New slots are empty. -/
theorem Counted.extend (h : Counted count slots ref pending) (hsub : slots ⊆ slots')
    (hnone : ∀ s ∈ slots', s ∉ slots → ref s = none) : Counted count slots' ref pending := by
  intro a
  rw [h a, refs_extend hsub hnone]

/-- Empty slots may go. -/
theorem Counted.shrink (h : Counted count slots' ref pending) (hsub : slots ⊆ slots')
    (hnone : ∀ s ∈ slots', s ∉ slots → ref s = none) : Counted count slots ref pending := by
  intro a
  rw [h a, refs_extend hsub hnone]

/-- One more reference, which is pending. -/
theorem Counted.acquire (h : Counted count slots ref pending) (a : A) :
    Counted (Function.update count a (count a + 1)) slots ref (a :: pending) := by
  intro b
  by_cases hb : b = a
  · rw [hb, Function.update_self, h a, List.count_cons_self]
    omega
  · rw [Function.update_of_ne hb, h b, List.count_cons_of_ne (Ne.symm hb)]

/-- A pending reference is given up. -/
theorem Counted.release (h : Counted count slots ref (a :: pending)) :
    Counted (Function.update count a (count a - 1)) slots ref pending := by
  intro b
  by_cases hb : b = a
  · rw [hb, Function.update_self, h a, List.count_cons_self]
    omega
  · rw [Function.update_of_ne hb, h b, List.count_cons_of_ne (Ne.symm hb)]

/-- A pending reference has been counted. -/
theorem Counted.pos (h : Counted count slots ref (a :: pending)) : 0 < count a := by
  rw [h a, List.count_cons_self]
  omega

/-- The counts have a bound. -/
theorem Counted.le (h : Counted count slots ref pending) (a : A) :
    count a ≤ slots.card + pending.length := by
  rw [h a]
  exact Nat.add_le_add (refs_le_card slots ref a) List.count_le_length

variable [DecidableEq S] {s : S}

/-- A pending reference goes to an empty slot. -/
theorem Counted.store (h : Counted count slots ref (a :: pending)) (hs : s ∈ slots)
    (href : ref s = none) : Counted count slots (Function.update ref s (some a)) pending := by
  intro b
  have hupdate := refs_update ref hs (some a) b
  have hb := h b
  rw [href] at hupdate
  rw [List.count_cons] at hb
  simp only [Option.some.injEq, reduceCtorEq, if_false, beq_iff_eq] at hupdate hb
  omega

/-- The reference of a slot becomes pending. -/
theorem Counted.load (h : Counted count slots ref pending) (hs : s ∈ slots)
    (href : ref s = some a) : Counted count slots (Function.update ref s none) (a :: pending) := by
  intro b
  have hupdate := refs_update ref hs none b
  have hb := h b
  rw [href] at hupdate
  rw [List.count_cons]
  simp only [Option.some.injEq, reduceCtorEq, if_false, beq_iff_eq] at hupdate ⊢
  omega

/-- A pending reference takes the place of the slot's, which becomes pending. -/
theorem Counted.swap (h : Counted count slots ref (a :: pending)) (hs : s ∈ slots)
    (href : ref s = some b) :
    Counted count slots (Function.update ref s (some a)) (b :: pending) := by
  intro c
  have hupdate := refs_update ref hs (some a) c
  have hc := h c
  rw [href] at hupdate
  rw [List.count_cons] at hc ⊢
  simp only [Option.some.injEq, beq_iff_eq] at hupdate hc ⊢
  omega

end DzOS.Lib
