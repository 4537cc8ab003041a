import Mathlib.Data.Finset.Max
import Mathlib.Order.Interval.Finset.Nat

/-!
# `DzOS.Lib.Circular`: circular lists in ascending order

`Circular s next` states that `next` goes around the nodes `s` in ascending order, and from the
greatest one back to the least one. A node is added behind the one in front of its place
(`Circular.insert`), and the next node is taken out (`Circular.erase`). Both speak about the links
after the operation only through the values that the operation writes.

`Before next p b` is the place of a new node, as a walk over the list tests it. Each new node has
one (`Circular.exists_before`), and a walk from a node reaches every node (`Circular.reach`).
-/

set_option autoImplicit false

namespace DzOS.Lib

variable {α : Type} [LinearOrder α]

/-- The place of `b` is behind `p`. -/
def Before (next : α → α) (p b : α) : Prop :=
  (p < b ∧ b < next p) ∨ (next p ≤ p ∧ (p < b ∨ b < next p))

/-- `next` goes around the nodes in ascending order: no node has its place between two others. -/
structure Circular (s : Finset α) (next : α → α) : Prop where
  mem : ∀ x ∈ s, next x ∈ s
  apart : ∀ x ∈ s, ∀ y ∈ s, ¬ Before next x y

variable {s : Finset α} {next next' : α → α} {b p x y : α}

/-- A list of one node. -/
theorem circular_singleton (h : next x = x) : Circular {x} next := by
  have heq : ∀ y ∈ ({x} : Finset α), y = x := fun y hy => Finset.mem_singleton.mp hy
  refine ⟨fun y hy => ?_, fun y hy z hz hbefore => ?_⟩
  · rw [heq y hy, h]
    exact Finset.mem_singleton_self x
  · rw [heq y hy, heq z hz, Before, h] at hbefore
    simp at hbefore

/-- The order depends on the links of the nodes only. -/
theorem Circular.congr (h : Circular s next) (hnext : ∀ x ∈ s, next' x = next x) :
    Circular s next' := by
  refine ⟨fun x hx => ?_, fun x hx y hy => ?_⟩
  · rw [hnext x hx]
    exact h.mem x hx
  · rw [Before, hnext x hx]
    exact h.apart x hx y hy

/-- With a link to `b`, only places in front of `b` are left behind `p`. -/
theorem Before.of_first (hbefore : Before next p b) (hself : next' p = b) (hy : Before next' p y) :
    Before next p y := by
  unfold Before at *
  rw [hself] at hy
  grind

/-- With a link from `b`, only places behind `b` are left in front of the next node. -/
theorem Before.of_second (hbefore : Before next p b) (hnew : next' b = next p)
    (hy : Before next' b y) : Before next p y := by
  unfold Before at *
  rw [hnew] at hy
  grind

/-- A node has no place next to itself. -/
theorem not_before_self : ¬ Before next b b := by
  unfold Before
  grind

theorem not_before_next : ¬ Before next p (next p) := by
  unfold Before
  grind

section

variable (h : Circular s next)

include h

/-- A new node has one place. -/
theorem Circular.place_unique (hx : x ∈ s) (hp : p ∈ s) (hbx : Before next x b)
    (hbp : Before next p b) : x = p := by
  -- Of two nodes with the same place behind them, one would have its place behind the other.
  have hpx := h.apart x hx p hp
  have hxp := h.apart p hp x hx
  unfold Before at *
  grind

/-- A new node behind the one in front of its place. -/
theorem Circular.insert (hp : p ∈ s) (hbefore : Before next p b) (hself : next' p = b)
    (hnew : next' b = next p) (hkeep : ∀ x ∈ s, x ≠ p → next' x = next x) :
    Circular (insert b s) next' := by
  refine ⟨fun x hx => ?_, fun x hx y hy hplace => ?_⟩
  · rcases Finset.mem_insert.mp hx with rfl | hx
    · rw [hnew]
      exact Finset.mem_insert_of_mem (h.mem p hp)
    · by_cases hxp : x = p
      · rw [hxp, hself]
        exact Finset.mem_insert_self b s
      · rw [hkeep x hx hxp]
        exact Finset.mem_insert_of_mem (h.mem x hx)
  · rcases Finset.mem_insert.mp hx with rfl | hmem
    · rcases Finset.mem_insert.mp hy with rfl | hy
      · exact not_before_self hplace
      · exact h.apart p hp y hy (hbefore.of_second hnew hplace)
    · by_cases hxp : x = p
      · subst hxp
        rcases Finset.mem_insert.mp hy with rfl | hy
        · rw [← hself] at hplace
          exact not_before_next hplace
        · exact h.apart x hp y hy (hbefore.of_first hself hplace)
      · have hold : Before next x y := by
          unfold Before at hplace ⊢
          rw [hkeep x hmem hxp] at hplace
          exact hplace
        rcases Finset.mem_insert.mp hy with rfl | hy
        · exact hxp (h.place_unique hmem hp hold hbefore)
        · exact h.apart x hmem y hy hold

/-- Different nodes have different next nodes. -/
theorem Circular.injective (hx : x ∈ s) (hy : y ∈ s) (heq : next x = next y) : x = y := by
  have hxy := h.apart x hx y hy
  have hyx := h.apart y hy x hx
  unfold Before at hxy hyx
  rw [heq] at hxy
  grind

/-- The next node is taken out. -/
theorem Circular.erase (hp : p ∈ s) (hne : next p ≠ p) (hself : next' p = next (next p))
    (hkeep : ∀ x ∈ s, x ≠ p → x ≠ next p → next' x = next x) :
    Circular (s.erase (next p)) next' := by
  have hn := h.mem p hp
  have hnn := h.mem _ hn
  refine ⟨fun x hx => ?_, fun x hx y hy => ?_⟩
  · obtain ⟨hxn, hx⟩ := Finset.mem_erase.mp hx
    by_cases hxp : x = p
    · rw [hxp, hself]
      exact Finset.mem_erase.mpr ⟨fun heq => hne (h.injective hn hp heq), hnn⟩
    · rw [hkeep x hx hxp hxn]
      exact Finset.mem_erase.mpr ⟨fun heq => hxp (h.injective hx hp heq), h.mem x hx⟩
  · obtain ⟨hxn, hx⟩ := Finset.mem_erase.mp hx
    obtain ⟨hyn, hy⟩ := Finset.mem_erase.mp hy
    by_cases hxp : x = p
    · have h1 := h.apart p hp y hy
      have h2 := h.apart _ hn y hy
      unfold Before at *
      rw [hxp, hself]
      grind
    · unfold Before
      rw [hkeep x hx hxp hxn]
      exact h.apart x hx y hy

/-- Every new node has a place. -/
theorem Circular.exists_before (hs : s.Nonempty) (hb : b ∉ s) : ∃ p ∈ s, Before next p b := by
  have hne : ∀ x ∈ s, x ≠ b := fun x hx heq => hb (heq ▸ hx)
  rcases (s.filter (· < b)).eq_empty_or_nonempty with hempty | hlow
  · -- All nodes are greater: the place is behind the greatest one.
    refine ⟨s.max' hs, s.max'_mem hs, .inr ⟨s.le_max' _ (h.mem _ (s.max'_mem hs)), .inr ?_⟩⟩
    have hnot := Finset.filter_eq_empty_iff.mp hempty (h.mem _ (s.max'_mem hs))
    exact lt_of_le_of_ne (not_lt.mp hnot) (hne _ (h.mem _ (s.max'_mem hs))).symm
  · obtain ⟨hp, hlt⟩ := Finset.mem_filter.mp ((s.filter (· < b)).max'_mem hlow)
    refine ⟨_, hp, ?_⟩
    by_cases hwrap : next ((s.filter (· < b)).max' hlow) ≤ (s.filter (· < b)).max' hlow
    · exact .inr ⟨hwrap, .inl hlt⟩
    · refine .inl ⟨hlt, ?_⟩
      by_contra hle
      have hn := h.mem _ hp
      have hbelow := lt_of_le_of_ne (not_lt.mp hle) (hne _ hn)
      exact hwrap (Finset.le_max' _ _ (Finset.mem_filter.mpr ⟨hn, hbelow⟩))

end

/-! ### Walks -/

section

variable (h : Circular s next)

include h

/-- In front of a greater node, the list goes upwards and not beyond it. -/
theorem Circular.next_of_lt (hx : x ∈ s) (hy : y ∈ s) (hlt : x < y) : x < next x ∧ next x ≤ y := by
  have hapart := h.apart x hx y hy
  unfold Before at hapart
  have hup : x < next x := by
    by_contra hnot
    exact hapart (.inr ⟨not_lt.mp hnot, .inl hlt⟩)
  refine ⟨hup, ?_⟩
  by_contra hnot
  exact hapart (.inl ⟨hlt, not_le.mp hnot⟩)

/-- The list wraps behind one node only. -/
theorem Circular.existsUnique_wrap (hs : s.Nonempty) : ∃! x, x ∈ s ∧ next x ≤ x := by
  refine ⟨s.max' hs, ⟨s.max'_mem hs, s.le_max' _ (h.mem _ (s.max'_mem hs))⟩, ?_⟩
  rintro x ⟨hx, hwrap⟩
  -- A node with a greater one has a greater next node.
  refine (s.le_max' x hx).eq_or_lt.resolve_right fun hlt => ?_
  exact absurd (h.next_of_lt hx (s.max'_mem hs) hlt).1 (not_lt.mpr hwrap)

/-- A walk upwards reaches a greater node. -/
theorem Circular.reach_up (hy : y ∈ s) (hx : x ∈ s) (hle : x ≤ y) :
    ∃ k ≤ (s.filter (x < ·)).card, next^[k] x = y := by
  induction hcard : (s.filter (x < ·)).card using Nat.strong_induction_on generalizing x with
  | _ n ih =>
    rcases hle.eq_or_lt with rfl | hlt
    · exact ⟨0, Nat.zero_le _, rfl⟩
    · have hn := h.mem x hx
      obtain ⟨hup, hnext⟩ := h.next_of_lt hx hy hlt
      have hless : (s.filter (next x < ·)).card < (s.filter (x < ·)).card := by
        refine Finset.card_lt_card (Finset.ssubset_iff_subset_ne.mpr ⟨?_, fun heq => ?_⟩)
        · exact Finset.monotone_filter_right s fun z _ hz => hup.trans hz
        · have hin : next x ∈ s.filter (x < ·) := Finset.mem_filter.mpr ⟨hn, hup⟩
          rw [← heq] at hin
          exact lt_irrefl _ (Finset.mem_filter.mp hin).2
      obtain ⟨k, hk, hreach⟩ := ih _ (hcard ▸ hless) hn hnext rfl
      exact ⟨k + 1, by omega, hreach⟩

/-- A walk reaches the node behind the greatest one. -/
theorem Circular.reach_wrap (hx : x ∈ s) :
    ∃ k ≤ (s.filter (x < ·)).card, next (next^[k] x) ≤ next^[k] x ∧ next^[k] x ∈ s := by
  have hs : s.Nonempty := ⟨x, hx⟩
  obtain ⟨k, hk, hreach⟩ := h.reach_up (s.max'_mem hs) hx (s.le_max' x hx)
  refine ⟨k, hk, ?_⟩
  rw [hreach]
  exact ⟨s.le_max' _ (h.mem _ (s.max'_mem hs)), s.max'_mem hs⟩

/-- A walk from a node reaches every node, in two rounds at most. -/
theorem Circular.reach (hx : x ∈ s) (hy : y ∈ s) : ∃ k < 2 * s.card, next^[k] x = y := by
  have hbound : ∀ z ∈ s, (s.filter (z < ·)).card < s.card := by
    intro z hz
    refine Finset.card_lt_card (Finset.ssubset_iff_subset_ne.mpr ⟨Finset.filter_subset _ s, ?_⟩)
    intro heq
    rw [← heq] at hz
    exact lt_irrefl z (Finset.mem_filter.mp hz).2
  obtain ⟨k, hk, hwrap, hlast⟩ := h.reach_wrap hx
  have hmin : next (next^[k] x) ≤ y := by
    by_contra hnot
    exact h.apart _ hlast y hy (.inr ⟨hwrap, .inr (not_le.mp hnot)⟩)
  obtain ⟨j, hj, hreach⟩ := h.reach_up hy (h.mem _ hlast) hmin
  have h1 := hbound x hx
  have h2 := hbound _ (h.mem _ hlast)
  refine ⟨j + (k + 1), by omega, ?_⟩
  rw [Function.iterate_add_apply, Function.iterate_succ_apply']
  exact hreach

/-- The nodes are what a walk from one of them reaches. -/
theorem Circular.mem_iff_reach (hx : x ∈ s) : y ∈ s ↔ ∃ k, next^[k] x = y := by
  constructor
  · intro hy
    obtain ⟨k, -, hreach⟩ := h.reach hx hy
    exact ⟨k, hreach⟩
  · rintro ⟨k, rfl⟩
    induction k with
    | zero => exact hx
    | succ k ih =>
      rw [Function.iterate_succ_apply']
      exact h.mem _ ih

/-- A property that goes from node to node holds for all of them. -/
theorem Circular.forall_of_step {P : α → Prop} (hx : x ∈ s) (hP : P x)
    (hstep : ∀ z ∈ s, P z → P (next z)) : ∀ y ∈ s, P y := by
  intro y hy
  obtain ⟨k, -, rfl⟩ := h.reach hx hy
  have hall : ∀ j, next^[j] x ∈ s ∧ P (next^[j] x) := by
    intro j
    induction j with
    | zero => exact ⟨hx, hP⟩
    | succ j ih =>
      rw [Function.iterate_succ_apply']
      exact ⟨h.mem _ ih.1, hstep _ ih.1 ih.2⟩
  exact (hall k).2

/-- In a list of more than one node, the next node is another one. -/
theorem Circular.next_ne (hx : x ∈ s) (hy : y ∈ s) (hne : y ≠ x) :
    next x ≠ x := fun heq =>
  hne (h.forall_of_step (P := (· = x)) hx rfl (fun z _ hz => by rw [hz, heq]) y hy)

/-- A walk that comes back to its start has been at every node. -/
theorem Circular.covers {k : ℕ} (hx : x ∈ s) (hback : next^[k] (next x) = x) :
    ∀ y ∈ s, ∃ j ≤ k, next^[j] (next x) = y := by
  refine h.forall_of_step (h.mem x hx) ⟨0, Nat.zero_le k, rfl⟩ ?_
  rintro z hz ⟨j, hj, rfl⟩
  rcases hj.eq_or_lt with rfl | hlt
  · rw [hback]
    exact ⟨0, Nat.zero_le _, rfl⟩
  · exact ⟨j + 1, hlt, Function.iterate_succ_apply' next j _⟩

end

end DzOS.Lib
