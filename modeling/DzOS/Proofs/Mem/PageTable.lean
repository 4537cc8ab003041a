import DzOS.Lib.Mask
import DzOS.Lib.Trie
import DzOS.Mem.Vmm

/-!
# `DzOS.Proofs.Mem.PageTable`: what the tables map, and what `walk` finds

A page is named by its number, the address divided by 4096. `pagePath` is its path through
the four levels, `tableAt` the table of a depth on that path and `leafEntry` the entry of the
last level. The definitions read the tables with `Nat` arithmetic on the page number, and do
not mention `walk`.

`walk_eq` connects the two: inside the user window, `walk` without allocation returns the
slot of the last level on the path of the page.
-/

set_option autoImplicit false

namespace DzOS.Proofs.Mem

open DzOS.Lib DzOS.Mem

variable {level : Nat}

/-! ### The tables as a tree -/

/-- The index of `page` in the table of depth `d`. The root has depth 0. -/
def pagePath (page d : Nat) : Nat := page / 512 ^ (3 - d) % 512

/-- The entry with index `i` of `table`. -/
def tableEntry (mem : Bytes) (table : UInt64) (i : Nat) : UInt64 :=
  readPte mem (table.toNat + 8 * i)

/-- The table that an entry leads to. -/
def nextTable (pte : UInt64) : Option UInt64 :=
  if pteIsPresent pte then some (pteFollow pte) else none

/-- The table of depth `d` on the path of `page`. -/
def tableAt (mem : Bytes) (root : UInt64) (page d : Nat) : Option UInt64 :=
  Trie.node nextTable (tableEntry mem) root (pagePath page) d

/-- The slot of `page` in the last level. -/
def leafSlot (mem : Bytes) (root : UInt64) (page : Nat) : Option Nat :=
  (tableAt mem root page 3).map fun t => t.toNat + 8 * pagePath page 3

/-- The entry of `page` in the last level. -/
def leafEntry (mem : Bytes) (root : UInt64) (page : Nat) : Option UInt64 :=
  (leafSlot mem root page).map (readPte mem)

/-! ### The walk -/

theorem toNat_USERSPACE_VA_MAX : USERSPACE_VA_MAX.toNat = 2 ^ 46 := by decide

theorem toNat_USERSPACE_VA_MIN : USERSPACE_VA_MIN.toNat = 2 ^ 22 := by decide

/-- The index that the source takes from an address, as arithmetic on the page number. -/
theorem toNat_PTE_INDEX_FROM_VA (va : UInt64) (h : level ≤ 3) :
    (PTE_INDEX_FROM_VA va level).toNat = va.toNat / 4096 / 512 ^ level % 512 := by
  have hmask : (((1 : UInt64) <<< 9) - 1) = 511 := by decide
  have hand : ∀ a : UInt64, (a &&& 511).toNat = a.toNat % 512 := by
    intro a
    rw [UInt64.toNat_and]
    exact Nat.and_two_pow_sub_one_eq_mod a.toNat 9
  have hshift : (UInt64.ofNat level * 9).toNat = level * 9 := by
    interval_cases level <;> decide
  have hdiv : ∀ a b : UInt64, b.toNat < 64 → (a >>> b).toNat = a.toNat / 2 ^ b.toNat := by
    intro a b hb
    rw [UInt64.toNat_shiftRight, Nat.mod_eq_of_lt hb, Nat.shiftRight_eq_div_pow]
  unfold PTE_INDEX_FROM_VA
  rw [hmask, hand, hdiv _ _ (by omega), hdiv _ 12 (by decide), hshift]
  have hpow : (2 : Nat) ^ (level * 9) = 512 ^ level := by
    rw [Nat.mul_comm, Nat.pow_mul]
  rw [hpow]
  rfl

/-- The slot that the source computes at `level` is the one on the path of the page. -/
theorem pteSlot_eq (t va : UInt64) {d : Nat} (h : d ≤ 3) :
    pteSlot t va (3 - d) = t.toNat + 8 * pagePath (va.toNat / 4096) d := by
  unfold pteSlot pagePath
  rw [toNat_PTE_INDEX_FROM_VA va (by omega)]

section

variable (s : MemState) (root va : UInt64)

/-- The descent without allocation, from depth `3 - level` on. -/
theorem walkLevels_eq (h : level ≤ 3) (t : UInt64)
    (ht : tableAt s.mem root (va.toNat / 4096) (3 - level) = some t) :
    walkLevels false va level s t = (leafSlot s.mem root (va.toNat / 4096), s) := by
  induction level generalizing t with
  | zero =>
    have hslot := pteSlot_eq t va (Nat.le_refl 3)
    simp only [Nat.sub_self] at hslot
    simp only [Nat.sub_zero] at ht
    simp only [walkLevels, leafSlot, ht, Option.map_some, hslot]
  | succ level ih =>
    have hslot := pteSlot_eq t va (d := 3 - (level + 1)) (by omega)
    rw [show 3 - (3 - (level + 1)) = level + 1 by omega] at hslot
    have hdepth : 3 - level = 3 - (level + 1) + 1 := by omega
    -- The table one level down is the one that the entry of this level leads to.
    have hnext : tableAt s.mem root (va.toNat / 4096) (3 - level) =
        nextTable (readPte s.mem (pteSlot t va (level + 1))) := by
      rw [hdepth, tableAt, Trie.node_succ]
      rw [tableAt] at ht
      rw [ht, hslot]
      rfl
    unfold walkLevels
    simp only
    split
    · rename_i hp
      refine ih (by omega) _ ?_
      rw [hnext, nextTable, if_pos hp]
    · rename_i hp
      have hnone : tableAt s.mem root (va.toNat / 4096) (3 - level) = none := by
        rw [hnext, nextTable, if_neg hp]
      have hleaf : tableAt s.mem root (va.toNat / 4096) 3 = none := by
        by_contra hc
        have := Trie.node_isSome_of_le (Option.isSome_iff_ne_none.mpr hc)
          (show 3 - level ≤ 3 by omega)
        rw [tableAt] at hnone
        simp [hnone] at this
      simp [leafSlot, hleaf]

/-- Inside the user window, `walk` is its loop. -/
theorem walk_window (alloc : Bool) (hlo : 2 ^ 22 ≤ va.toNat) (hhi : va.toNat < 2 ^ 46) :
    walk s root va alloc false = .ok (walkLevels alloc va 3 s root) := by
  have hlo' : ¬ va < USERSPACE_VA_MIN := by
    rw [UInt64.lt_iff_toNat_lt, toNat_USERSPACE_VA_MIN]; omega
  have hhi' : ¬ va ≥ USERSPACE_VA_MAX := by
    rw [ge_iff_le, UInt64.le_iff_toNat_le, toNat_USERSPACE_VA_MAX]; omega
  unfold walk
  rw [if_neg (by simp [hlo', hhi'])]

/-- Inside the user window, `walk` without allocation returns the slot of the last level. -/
theorem walk_eq (hlo : 2 ^ 22 ≤ va.toNat) (hhi : va.toNat < 2 ^ 46) :
    walk s root va false false = .ok (leafSlot s.mem root (va.toNat / 4096), s) := by
  rw [walk_window s root va false hlo hhi, walkLevels_eq s root va (Nat.le_refl 3) root rfl]

/-- Outside the user window, `walk` panics. -/
theorem walk_panic (alloc : Bool) (h : va.toNat < 2 ^ 22 ∨ 2 ^ 46 ≤ va.toNat) :
    walk s root va alloc false = .error "walk" := by
  unfold walk
  rw [if_pos]
  rcases h with h | h
  · have : va < USERSPACE_VA_MIN := by
      rw [UInt64.lt_iff_toNat_lt, toNat_USERSPACE_VA_MIN]; exact h
    simp [this]
  · have : va ≥ USERSPACE_VA_MAX := by
      rw [ge_iff_le, UInt64.le_iff_toNat_le, toNat_USERSPACE_VA_MAX]; exact h
    simp [this]

end

end DzOS.Proofs.Mem
