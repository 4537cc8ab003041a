import Mathlib

/-!
# `DzOS.Lib.Owner`: exclusive ownership

Places hold resources: `holds p n` states that the place `p` holds the resource `n`. `Owns`
is the law of exclusive ownership. Every resource that is held is in use, and no two places
hold the same resource.

Places may give up resources (`Owns.sub`), and a place may take a resource that no place
holds (`Owns.take`). The rules speak about the new places only through what they hold, so
that the same rules serve pointers in blocks and entries in lists.

`Listing` is the law for places that are lists: no list has a member twice, and no member is
in two lists. A member may enter a list (`Listing.append`), leave one (`Listing.erase`), or
go from one list to another or to the end of its own (`Listing.transfer`).
-/

set_option autoImplicit false

namespace DzOS.Lib

variable {P R : Type}

/-- Exclusive ownership of resources by places. -/
structure Owns (holds : P → R → Prop) (used : R → Prop) : Prop where
  used : ∀ p n, holds p n → used n
  inj : ∀ p p' n, holds p n → holds p' n → p = p'

variable {holds holds' : P → R → Prop} {used used' : R → Prop}

/-- Places may give up resources, and a resource that no place holds may leave use. -/
theorem Owns.sub (h : Owns holds used) (hsub : ∀ p n, holds' p n → holds p n)
    (hused : ∀ p n, holds' p n → used n → used' n) : Owns holds' used' where
  used p n hp := hused p n hp (h.used p n (hsub p n hp))
  inj p p' n hp hp' := h.inj p p' n (hsub p n hp) (hsub p' n hp')

/-- A place may take a resource that no place holds. -/
theorem Owns.take (h : Owns holds used) (p₀ : P) (n₀ : R)
    (hsub : ∀ p n, holds' p n → holds p n ∨ p = p₀ ∧ n = n₀) (hfresh : ∀ p, ¬ holds p n₀)
    (hused : ∀ n, used n → used' n) (hused₀ : used' n₀) : Owns holds' used' where
  used p n hp := by
    rcases hsub p n hp with hp | ⟨-, rfl⟩
    · exact hused n (h.used p n hp)
    · exact hused₀
  inj p p' n hp hp' := by
    rcases hsub p n hp with hp | ⟨rfl, rfl⟩ <;> rcases hsub p' n hp' with hp' | ⟨rfl, hn⟩
    · exact h.inj p p' n hp hp'
    · exact absurd (hn ▸ hp) (hfresh p)
    · exact absurd hp' (hfresh p')
    · rfl

/-! ### Lists of members -/

/-- Every member of the lists is in use and is in one list, once. -/
structure Listing {A : Type} (ls : A → List A) (used : A → Prop) : Prop where
  nodup : ∀ f, (ls f).Nodup
  owns : Owns (fun f n => n ∈ ls f) used

section
variable {A : Type} {ls : A → List A} {used used' : A → Prop} {f n : A}

variable [DecidableEq A]

/-- The members of the lists when `n` enters the list of `f`. -/
theorem mem_update_append (ls : A → List A) (f n : A) {g m : A} :
    m ∈ Function.update ls f (ls f ++ [n]) g ↔ m ∈ ls g ∨ g = f ∧ m = n := by
  by_cases hg : g = f
  · subst hg
    simp
  · simp [hg]

section

variable (h : Listing ls used)

include h

/-- The members of the lists when `n` leaves the list of `f`. -/
theorem Listing.mem_erase {l : List A} (hl : l.Perm ((ls f).erase n)) (hn : n ∈ ls f) {g m : A} :
    m ∈ Function.update ls f l g ↔ m ∈ ls g ∧ m ≠ n := by
  by_cases hg : g = f
  · subst hg
    rw [Function.update_self, hl.mem_iff, (h.nodup g).mem_erase_iff]
    exact and_comm
  · rw [Function.update_of_ne hg]
    refine ⟨fun hm => ⟨hm, ?_⟩, fun hm => hm.1⟩
    rintro rfl
    exact hg (h.owns.inj _ _ _ hm hn)

/-- The members of the lists when `n` goes from the list of `f` to the list of `g`, or to the
end of its own. -/
theorem Listing.mem_transfer {g : A} {l : List A} (hn : n ∈ ls f)
    (hl : l.Perm ((Function.update ls g (ls g ++ [n]) f).erase n)) {k m : A} :
    m ∈ Function.update (Function.update ls g (ls g ++ [n])) f l k ↔
      (m ∈ ls k ∧ m ≠ n) ∨ (k = g ∧ m = n) := by
  have hother : ∀ k, k ≠ f → m ∈ ls k → m ≠ n := by
    rintro k hk hm rfl
    exact hk (h.owns.inj _ _ _ hm hn)
  by_cases hfg : f = g
  · -- The list of `f` is the same up to the order.
    subst hfg
    rw [Function.update_self, List.erase_append_left _ hn] at hl
    have hperm : l.Perm (ls f) :=
      hl.trans ((List.perm_append_singleton n _).trans (List.perm_cons_erase hn).symm)
    by_cases hk : k = f
    · subst hk
      rw [Function.update_self, hperm.mem_iff]
      by_cases hmn : m = n
      · simp [hmn, hn]
      · simp [hmn]
    · rw [Function.update_of_ne hk, Function.update_of_ne hk]
      simp only [hk, false_and, or_false]
      exact ⟨fun hm => ⟨hm, hother k hk hm⟩, fun hm => hm.1⟩
  · rw [Function.update_of_ne hfg] at hl
    by_cases hk : k = f
    · subst hk
      rw [Function.update_self, hl.mem_iff, (h.nodup k).mem_erase_iff]
      simp only [hfg, false_and, or_false]
      exact and_comm
    · rw [Function.update_of_ne hk, mem_update_append]
      refine or_congr_left ⟨fun hm => ⟨hm, hother k hk hm⟩, fun hm => hm.1⟩

/-- A member of no list enters the list of `f`. -/
theorem Listing.append (hn : ∀ g, n ∉ ls g) (hu : ∀ m, used m → used' m) (hun : used' n) :
    Listing (Function.update ls f (ls f ++ [n])) used' where
  nodup g := by
    by_cases hg : g = f
    · subst hg
      rw [Function.update_self]
      refine (h.nodup g).append (List.nodup_singleton n) ?_
      simpa using hn g
    · rw [Function.update_of_ne hg]
      exact h.nodup g
  owns := by
    refine h.owns.take f n (fun g m hm => ?_) hn hu hun
    exact (mem_update_append ls f n).mp hm

/-- A member leaves the list of `f`. -/
theorem Listing.erase {l : List A} (hl : l.Perm ((ls f).erase n))
    (hu : ∀ m, m ≠ n → used m → used' m) (hn : n ∈ ls f) :
    Listing (Function.update ls f l) used' where
  nodup g := by
    by_cases hg : g = f
    · subst hg
      rw [Function.update_self]
      exact hl.nodup_iff.mpr ((h.nodup g).erase n)
    · rw [Function.update_of_ne hg]
      exact h.nodup g
  owns := by
    have hmem := fun g m => (h.mem_erase hl hn (g := g) (m := m)).mp
    exact h.owns.sub (fun g m hm => (hmem g m hm).1) fun g m hm => hu m (hmem g m hm).2

/-- A member enters the list of `g` and leaves the list of `f` that it was in. -/
theorem Listing.transfer {g : A} {l : List A} (hn : n ∈ ls f)
    (hl : l.Perm ((Function.update ls g (ls g ++ [n]) f).erase n)) :
    Listing (Function.update (Function.update ls g (ls g ++ [n])) f l) used := by
  by_cases hfg : f = g
  · -- The member goes to the end of its own list, so the list is the same up to the order.
    subst hfg
    have hmem : ∀ k m, m ∈ Function.update (Function.update ls f (ls f ++ [n])) f l k →
        m ∈ ls k := by
      intro k m hm
      rcases (h.mem_transfer hn hl).mp hm with hm | ⟨rfl, rfl⟩
      · exact hm.1
      · exact hn
    rw [Function.update_self, List.erase_append_left _ hn] at hl
    have hperm : l.Perm (ls f) :=
      hl.trans ((List.perm_append_singleton n _).trans (List.perm_cons_erase hn).symm)
    refine ⟨fun k => ?_, h.owns.sub hmem fun _ _ _ hu => hu⟩
    by_cases hk : k = f
    · subst hk
      rw [Function.update_self]
      exact hperm.nodup_iff.mpr (h.nodup k)
    · rw [Function.update_of_ne hk, Function.update_of_ne hk]
      exact h.nodup k
  · rw [Function.update_of_ne hfg] at hl
    have hleft : Listing (Function.update ls f l) fun m => used m ∧ m ≠ n :=
      h.erase hl (fun m hm hu => ⟨hu, hm⟩) hn
    have hgone : ∀ k, n ∉ Function.update ls f l k := fun k hk => (hleft.owns.used k n hk).2 rfl
    have hback := hleft.append (f := g) hgone (fun m hm => hm.1) (h.owns.used f n hn)
    rwa [Function.update_of_ne (Ne.symm hfg), Function.update_comm hfg] at hback

end

end

end DzOS.Lib
