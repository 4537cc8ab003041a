import Mathlib

/-!
# `DzOS.Lib.Conserve`: a conservation ledger for pools of items

An allocator moves items between pools: a free list, the untouched stock, and what is lent
out. `Conserves whole pools` says that the pools together are a rearrangement of `whole`.
When `whole` has no repetition, the pools then hold every item exactly once: no item is
lost, none is in two pools, and none is twice in one pool.

A step of an allocator rearranges the pools (`Conserves.of_perm`), so each step lemma is
one permutation between the old pools and the new ones.
-/

set_option autoImplicit false

namespace DzOS.Lib

variable {α : Type}

/-- The pools together are a rearrangement of `whole`. -/
def Conserves (whole : List α) (pools : List (List α)) : Prop := pools.flatten.Perm whole

namespace Conserves

variable {whole : List α} {pools pools' : List (List α)}

/-- A rearrangement of the pools conserves the same items. -/
theorem of_perm (h : Conserves whole pools) (hp : pools'.flatten.Perm pools.flatten) :
    Conserves whole pools' := List.Perm.trans hp h

/-- An item belongs to the whole exactly when it is in some pool. -/
theorem mem_iff (h : Conserves whole pools) (x : α) : x ∈ whole ↔ ∃ pool ∈ pools, x ∈ pool := by
  rw [← List.Perm.mem_iff h, List.mem_flatten]

/-- No pool holds an item twice. -/
theorem nodup (h : Conserves whole pools) (hw : whole.Nodup) {pool : List α}
    (hpool : pool ∈ pools) : pool.Nodup :=
  (List.nodup_flatten.mp ((List.Perm.nodup_iff h).mpr hw)).1 pool hpool

/-- No two pools share an item. -/
theorem pairwise_disjoint (h : Conserves whole pools) (hw : whole.Nodup) :
    pools.Pairwise List.Disjoint :=
  (List.nodup_flatten.mp ((List.Perm.nodup_iff h).mpr hw)).2

end Conserves

/-- A permutation between two lists, checked by counting every item. -/
theorem perm_of_count_eq [DecidableEq α] {l l' : List α} (h : ∀ a, l.count a = l'.count a) :
    l.Perm l' := List.perm_iff_count.mpr h

end DzOS.Lib
