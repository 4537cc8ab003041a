import DzOS.Lib.Ascent
import DzOS.Proofs.Mem.Kmalloc

/-!
# `DzOS.Proofs.Mem.BlockReuse`: a freed block of pages is not found again

`kfree_pages` pushes the pages of a block one by one, so they lie in `freepages` in descending
order. `alloc_contiguous_from_freelist` looks for pages in ascending order. So it never finds a
block that was freed (`findRun_append`), and `kalloc_pages` depends on what was there before.

`kallocPages_isSome` says when `kalloc_pages` returns a block: there is a run of ascending pages
in the free list (`HasRun`), or a region with room (`HasRegion`). `freed_block_reusable_iff` says
that both have to hold before the block is freed. It also says that a loop that allocates and
frees a block runs out of memory, since each turn takes new pages (`cycles_spec`).
-/

set_option autoImplicit false

namespace DzOS.Proofs.Mem

open DzOS.Lib DzOS.Mem

variable {s s' : MemState} {p q n : UInt64} {k : Nat} {l D F rest : List UInt64}

/-! ### The search in the free list -/

/-- The pointer of the next page. -/
def nextPage (p : UInt64) : UInt64 := p + PAGE_SIZE.toUInt64

/-- The free list holds `n` consecutive pages in ascending order. -/
def HasRun (s : MemState) (n : Nat) : Prop := ∃ q, blockPages q n <:+: s.freepages

theorem nextPage_nextPage (p : UInt64) : nextPage (nextPage p) ≠ p := by
  intro h
  have := congrArg UInt64.toNat h
  rw [nextPage, nextPage, UInt64.toNat_add, UInt64.toNat_add, toNat_PAGE_SIZE_toUInt64] at this
  have := p.toNat_lt
  omega

/-- A block is a page with its successors. -/
theorem blockPages_eq_iterate (p : UInt64) (n : Nat) :
    blockPages p n = List.iterate nextPage p n := by
  induction n generalizing p with
  | zero => rfl
  | succ n ih =>
    rw [blockPages_cons, ih, List.iterate]
    simp [nextPage]

/-- The physical address of a page of a block. -/
theorem V2P_block_page (s : MemState) (p : UInt64) (i : Nat) :
    s.V2P p + UInt64.ofNat i * PAGE_SIZE.toUInt64
      = s.V2P (p + UInt64.ofNat i * PAGE_SIZE.toUInt64) := by
  simp only [MemState.V2P, UInt64.sub_eq_add_neg]
  ac_rfl

/-- The inner loop finds the pages that follow a page. -/
theorem scanRun_eq_some {base : UInt64} {i : Nat} :
    scanRun s (s.V2P base) k i l = some rest ↔
      l = blockPages (base + UInt64.ofNat i * PAGE_SIZE.toUInt64) k ++ rest := by
  induction k generalizing i l with
  | zero => simp [scanRun, blockPages]
  | succ k ih =>
    rw [blockPages_succ]
    cases l with
    | nil => simp [scanRun]
    | cons q next =>
      rw [scanRun, V2P_block_page]
      by_cases hq : s.V2P (base + UInt64.ofNat i * PAGE_SIZE.toUInt64) = s.V2P q
      · rw [if_pos hq, ih, ← V2P_inj hq]
        simp
      · rw [if_neg hq]
        have hne : q ≠ base + UInt64.ofNat i * PAGE_SIZE.toUInt64 := fun h => hq (by rw [h])
        simp [hne]

/-- The search goes on behind a page that starts no run. -/
theorem findRun_skip {it : UInt64} (h : scanRun s (s.V2P it) k 1 l = none) :
    findRun s k (it :: l) = (findRun s k l).map fun r => (r.1, it :: r.2) := by
  rw [findRun, h]
  cases findRun s k l <;> rfl

/-- The search finds something when there is a run. -/
theorem findRun_isSome : (findRun s k l).isSome ↔ ∃ q, blockPages q (k + 1) <:+: l := by
  induction l with
  | nil => simp [findRun, blockPages_cons]
  | cons it next ih =>
    cases hscan : scanRun s (s.V2P it) k 1 next with
    | some rest =>
      rw [findRun, hscan]
      rw [scanRun_eq_some] at hscan
      simp only [Option.isSome_some, true_iff]
      refine ⟨it, [], rest, ?_⟩
      rw [List.nil_append, blockPages_cons, hscan, List.cons_append]
    | none =>
      rw [findRun_skip hscan, Option.isSome_map, ih]
      refine exists_congr fun q => ?_
      rw [List.infix_cons_iff]
      constructor
      · exact Or.inr
      · rintro (⟨rest, hpre⟩ | h)
        · -- A run at the front is what the inner loop looks for.
          rw [blockPages_cons, List.cons_append] at hpre
          obtain ⟨rfl, hnext⟩ := List.cons.inj hpre
          rw [scanRun_eq_some.mpr hnext.symm] at hscan
          cases hscan
        · exact h

/-- The search passes over a part of the free list that has no ascent. -/
theorem findRun_append (hk : 1 ≤ k) (h : NoAscent nextPage D F) :
    findRun s k (D ++ F) = (findRun s k F).map fun r => (r.1, D ++ r.2) := by
  induction D with
  | nil => simp
  | cons it D ih =>
    obtain ⟨hhead, hD⟩ := h
    -- A run from here would start with an ascent.
    have hscan : scanRun s (s.V2P it) k 1 (D ++ F) = none := by
      rw [Option.eq_none_iff_forall_ne_some]
      intro rest hrest
      obtain ⟨m, rfl⟩ := Nat.exists_eq_add_of_le' hk
      rw [scanRun_eq_some, blockPages_succ] at hrest
      rw [hrest] at hhead
      exact hhead (by simp [nextPage])
    rw [List.cons_append, findRun_skip hscan, ih hD, Option.map_map]
    rfl

/-! ### The allocation -/

/-- A number of at least two is neither 0 nor 1. -/
theorem ne_of_two_le (hn : 2 ≤ n.toNat) : n ≠ 0 ∧ n ≠ 1 ∧ ¬ n ≤ 1 := by
  refine ⟨?_, ?_, ?_⟩
  · rintro rfl
    exact absurd hn (by decide)
  · rintro rfl
    exact absurd hn (by decide)
  · rw [UInt64.le_iff_toNat_le]
    show ¬ n.toNat ≤ 1
    omega

/-- `alloc_contiguous_from_freelist` for at least two pages. -/
theorem allocContiguousFromFreelist_isSome (hn : 2 ≤ n.toNat) :
    (allocContiguousFromFreelist s n).1.isSome ↔ HasRun s n.toNat := by
  have hfind := @findRun_isSome s (n.toNat - 1) s.freepages
  rw [show n.toNat - 1 + 1 = n.toNat by omega] at hfind
  rw [HasRun, ← hfind, allocContiguousFromFreelist, if_neg (ne_of_two_le hn).2.2]
  cases findRun s (n.toNat - 1) s.freepages <;> simp

/-- `kalloc_pages` for at least two pages. -/
theorem kallocPages_isSome (hn : 2 ≤ n.toNat) :
    (kallocPages s n).1.isSome ↔ HasRun s n.toNat ∨ HasRegion s n := by
  obtain ⟨hne, hne1, -⟩ := ne_of_two_le hn
  rw [← allocContiguousFromFreelist_isSome hn, ← allocContiguousFromRegions_isSome hne,
    kallocPages, if_neg hne, if_neg hne1]
  rcases hlist : allocContiguousFromFreelist s n with ⟨_ | page, s₁⟩
  · have hs₁ := allocContiguousFromFreelist_none hlist
    subst hs₁
    rcases hreg : allocContiguousFromRegions s₁ n with ⟨_ | page, s₂⟩ <;> simp [hreg]
  · simp

/-! ### Freeing a block -/

/-- The pages of a block that is freed lie in the free list in descending order. -/
theorem kfreePagesFrom_ok {i : Nat} (hhdm : s.hhdmOffset.toNat % 4096 = 0)
    (hp : p.toNat % 4096 = 0) :
    kfreePagesFrom p k i s = .ok { s with freepages :=
      (blockPages (p + UInt64.ofNat i * PAGE_SIZE.toUInt64) k).reverse ++ s.freepages } := by
  induction k generalizing i s with
  | zero => rfl
  | succ k ih =>
    have hpage : (s.V2P (p + UInt64.ofNat i * PAGE_SIZE.toUInt64)).toNat % 4096 = 0 := by
      refine V2P_aligned hhdm ?_
      rw [UInt64.toNat_add, UInt64.toNat_mul, toNat_PAGE_SIZE_toUInt64]
      omega
    rw [kfreePagesFrom, kfree_ok hhdm hpage]
    dsimp only
    rw [ih (s := pushFreePage s _) hhdm, blockPages_succ]
    simp [pushFreePage]

/-- `kfree_pages` of a block. -/
theorem kfreePages_ok (hhdm : s.hhdmOffset.toNat % 4096 = 0) (hp : p.toNat % 4096 = 0) :
    kfreePages s (some p) n = .ok { s with
      freepages := (blockPages p n.toNat).reverse ++ s.freepages } := by
  unfold kfreePages
  dsimp only
  split
  · rename_i hn
    subst hn
    rfl
  · rw [if_neg, kfreePagesFrom_ok hhdm hp]
    · simp
    · rw [ne_eq, not_not, ← UInt64.toNat_inj, toNat_pageOffset, hp]
      rfl

/-- A freed block adds no run to the free list. -/
theorem hasRun_freed (hn : 2 ≤ k) (hout : nextPage p ∉ F) :
    (∃ q, blockPages q k <:+: (blockPages p k).reverse ++ F) ↔ ∃ q, blockPages q k <:+: F := by
  -- The pages lie in descending order, and the front of `F` does not continue them.
  have hdesc : NoAscent nextPage (blockPages p k).reverse F := by
    rw [blockPages_eq_iterate]
    refine noAscent_descending nextPage_nextPage ?_ k
    intro h
    exact hout (List.mem_of_mem_head? h)
  obtain ⟨m, rfl⟩ := Nat.exists_eq_add_of_le' (Nat.le_of_succ_le hn)
  rw [← findRun_isSome (s := MemState.boot Bytes.zero), findRun_append (by omega) hdesc,
    Option.isSome_map, findRun_isSome]

/-! ### Allocating and freeing in a loop -/

/-- A turn of a loop that allocates a block of `n` pages and frees it again. The result is
`none` when there is no block. -/
def cycle (n : UInt64) (s : MemState) : Option MemState :=
  match kallocPages s n with
  | (none, _) => none
  | (some p, s) => (kfreePages s (some p) n).toOption

/-- `k` turns. -/
def cycles (n : UInt64) : Nat → MemState → Option MemState
  | 0, s => some s
  | k + 1, s => (cycles n k s).bind (cycle n)

/-- A block from the free list is the first run. -/
theorem allocContiguousFromFreelist_some (h : allocContiguousFromFreelist s n = (some q, s')) :
    ∃ rest, findRun s (n.toNat - 1) s.freepages = some (q, rest) ∧
      s' = { s with freepages := rest } := by
  unfold allocContiguousFromFreelist at h
  split at h
  · cases h
  · split at h
    · cases h
    · rename_i page rest hfind
      cases h
      exact ⟨rest, hfind, rfl⟩

/-- A block from a region leaves the free list as it is. -/
theorem allocContiguousFromRegions_freepages (h : allocContiguousFromRegions s n = (some q, s')) :
    s'.freepages = s.freepages := by
  unfold allocContiguousFromRegions MemState.carved at h
  split at h
  · cases h
  · dsimp only at h
    split at h
    · cases h
    · cases h
      rfl

/-- The free list after an allocation of at least two pages: what is gone lay behind the part
that has no ascent. -/
theorem kallocPages_freepages (hn : 2 ≤ n.toNat) (hfree : s.freepages = D ++ F)
    (hD : NoAscent nextPage D F) (h : kallocPages s n = (some q, s')) :
    ∃ F', s'.freepages = D ++ F' := by
  obtain ⟨hne, hne1, -⟩ := ne_of_two_le hn
  rw [kallocPages, if_neg hne, if_neg hne1] at h
  rcases hlist : allocContiguousFromFreelist s n with ⟨_ | page, s₁⟩
  · have hs₁ := allocContiguousFromFreelist_none hlist
    subst hs₁
    rw [hlist] at h
    dsimp only at h
    rcases hreg : allocContiguousFromRegions s₁ n with ⟨_ | page, s₂⟩
    · rw [hreg] at h
      cases h
    · rw [hreg] at h
      cases h
      exact ⟨F, (allocContiguousFromRegions_freepages hreg).trans hfree⟩
  · obtain ⟨rest, hfind, rfl⟩ := allocContiguousFromFreelist_some hlist
    rw [hlist] at h
    cases h
    rw [hfree, findRun_append (by omega) hD] at hfind
    obtain ⟨r, -, hr⟩ := Option.map_eq_some_iff.mp hfind
    exact ⟨r.2, (Prod.mk.inj hr).2.symm⟩

/-- The state after some turns: the free list starts with a stack of the blocks that were freed,
and no page is lost. -/
structure Cycled (n : UInt64) (s s' : MemState) (k : Nat) : Prop where
  pages : PagesOk s'
  hhdm : s'.hhdmOffset = s.hhdmOffset
  stock : (stock s').Perm (stock s)
  stacked : ∃ D F, s'.freepages = D ++ F ∧ Stacked nextPage n.toNat D ∧ D.length = k * n.toNat

/-- The allocator stays in order when the same pages are in stock. -/
theorem PagesOk.perm (hok : PagesOk s) (hhdm : s'.hhdmOffset = s.hhdmOffset)
    (hreg : ∀ r ∈ s'.regions, RegionOk r) (hperm : (stock s').Perm (stock s)) : PagesOk s' where
  hhdm := by
    rw [hhdm]
    exact hok.hhdm
  regions := hreg
  nodup := hperm.nodup_iff.mpr hok.nodup
  stockPage p hp := by
    have h := hok.stockPage p (hperm.mem_iff.mp hp)
    rw [MemState.P2V, hhdm]
    exact h

/-- A block that is freed is in stock again. -/
theorem stock_giveBack (h : Lends s s' q k) :
    (stock { s' with freepages := (blockPages q k).reverse ++ s'.freepages }).Perm (stock s) := by
  have hV2P : (blockPages q k).map s'.V2P = blockPages (s.V2P q) k := by
    rw [Ledger.V2P_congr h.hhdm, blockPages, blockPages, List.map_map]
    exact List.map_congr_left fun i _ => (V2P_block_page s q i).symm
  refine List.Perm.trans ?_ h.stock.symm
  show (((blockPages q k).reverse ++ s'.freepages).map s'.V2P ++ _).Perm _
  rw [List.map_append, List.map_reverse, hV2P, List.append_assoc]
  exact (List.reverse_perm _).append_right _

/-- One turn. -/
theorem Cycled.cycle {s₁ : MemState} (h : Cycled n s s₁ k) (hn : 2 ≤ n.toNat)
    (hsize : n.toNat * 4096 < 2 ^ 64) (hsome : (kallocPages s₁ n).1.isSome) :
    ∃ s₂, cycle n s₁ = some s₂ ∧ Cycled n s s₂ (k + 1) := by
  obtain ⟨q, hq⟩ := Option.isSome_iff_exists.mp hsome
  obtain ⟨D, F, hfree, hD, hlen⟩ := h.stacked
  have hq' : kallocPages s₁ n = (some q, (kallocPages s₁ n).2) := by rw [← hq]
  generalize (kallocPages s₁ n).2 = s' at hq'
  have hlends := kallocPages_lends h.pages.regions hsize hq'
  have hnodup : (D ++ F).Nodup := by
    rw [← hfree]
    exact (List.nodup_append.mp h.pages.nodup).1.of_map _
  -- The stack at the front of the free list has no run, so the block came from behind it.
  obtain ⟨F', hfree'⟩ :=
    kallocPages_freepages hn hfree (hD.noAscent hn nextPage_nextPage hnodup) hq'
  have hal : q.toNat % 4096 = 0 := by
    refine h.pages.aligned_of_V2P (hlends.stock.symm.mem_iff.mp (List.mem_append_left _ ?_))
    obtain ⟨m, hm⟩ := Nat.exists_eq_add_of_le' (Nat.le_of_succ_le hn)
    rw [hm, blockPages_cons]
    exact List.mem_cons_self
  have hhdm : s'.hhdmOffset.toNat % 4096 = 0 := by
    rw [hlends.hhdm]
    exact h.pages.hhdm
  have hkfree := kfreePages_ok (n := n) hhdm hal
  have hperm := stock_giveBack hlends
  refine ⟨{ s' with freepages := (blockPages q n.toNat).reverse ++ s'.freepages }, ?_, ?_⟩
  · rw [Mem.cycle, hq']
    dsimp only
    rw [hkfree]
    rfl
  · exact {
      pages := h.pages.perm hlends.hhdm hlends.aligned hperm
      hhdm := hlends.hhdm.trans h.hhdm
      stock := hperm.trans h.stock
      stacked := by
        refine ⟨(blockPages q n.toNat).reverse ++ D, F', ?_, ?_, ?_⟩
        · rw [hfree', List.append_assoc]
        · rw [blockPages_eq_iterate]
          exact hD.push q
        · rw [List.length_append, List.length_reverse, hlen, blockPages, List.length_map,
            List.length_range]
          ring }

/-- As long as the turns have a block, they make a stack of the pages they used. -/
theorem cycles_spec (hok : PagesOk s) (hn : 2 ≤ n.toNat) (hsize : n.toNat * 4096 < 2 ^ 64)
    (k : Nat) :
    (∃ s₁, cycles n k s = some s₁ ∧ Cycled n s s₁ k) ∨
    ∃ j s₁, cycles n j s = some s₁ ∧ Cycled n s s₁ j ∧ (kallocPages s₁ n).1 = none := by
  induction k with
  | zero =>
    refine Or.inl ⟨s, rfl, hok, rfl, List.Perm.refl _, [], s.freepages, rfl, .nil, ?_⟩
    simp
  | succ k ih =>
    rcases ih with ⟨s₁, hs₁, hcycled⟩ | hnone
    · cases halloc : (kallocPages s₁ n).1 with
      | none => exact Or.inr ⟨k, s₁, hs₁, hcycled, halloc⟩
      | some q =>
        obtain ⟨s₂, hs₂, hcycled₂⟩ := hcycled.cycle hn hsize (by rw [halloc]; rfl)
        refine Or.inl ⟨s₂, ?_, hcycled₂⟩
        rw [cycles, hs₁]
        exact hs₂
    · exact Or.inr hnone

/-- The turns end: there is no block left after as many turns as the pages in stock allow. -/
theorem cycles_end (hok : PagesOk s) (hn : 2 ≤ n.toNat) (hsize : n.toNat * 4096 < 2 ^ 64) :
    ∃ k s₁, k * n.toNat ≤ (stock s).length ∧ cycles n k s = some s₁ ∧
      (kallocPages s₁ n).1 = none := by
  have hbound : ∀ j s₁, Cycled n s s₁ j → j * n.toNat ≤ (stock s).length := by
    intro j s₁ h
    obtain ⟨D, F, hfree, -, hlen⟩ := h.stacked
    rw [← h.stock.length_eq, stock, hfree]
    simp only [List.length_append, List.length_map]
    omega
  -- Each turn adds `n` pages to the stack, so there are not that many turns.
  have hlong : (stock s).length < ((stock s).length + 1) * n.toNat := by
    have := Nat.le_mul_of_pos_right ((stock s).length + 1) (show 0 < n.toNat by omega)
    omega
  rcases cycles_spec hok hn hsize ((stock s).length + 1) with ⟨s₁, -, h⟩ | ⟨j, s₁, hs₁, h, hnone⟩
  · have := hbound _ s₁ h
    omega
  · exact ⟨j, s₁, hbound j s₁ h, hs₁, hnone⟩

/-! ### The law of the freed block -/

/-- Take a block of at least two pages that is handed out, and free it. Then `kalloc_pages`
returns a block of that size if and only if the free list held such a run before, or a region
has room. So a freed block is never what it returns, and a loop that allocates and frees such
blocks always ends without memory. -/
theorem freed_block_reusable_iff (s : MemState) (n p : UInt64) (hok : PagesOk s)
    (hn : 2 ≤ n.toNat) (hp : p ≠ 0) (hal : p.toNat % 4096 = 0)
    (hfit : p.toNat + n.toNat * 4096 ≤ 2 ^ 64)
    (hout : ∀ q ∈ blockPages p n.toNat, s.V2P q ∉ stock s) :
    (∃ s', kfreePages s (some p) n = .ok s' ∧
      ((∃ q s'', kallocPages s' n = (some q, s'')) ↔ HasRun s n.toNat ∨ HasRegion s n)) ∧
    ∃ k s₁, k * n.toNat ≤ (stock s).length ∧ cycles n k s = some s₁ ∧
      (kallocPages s₁ n).1 = none := by
  have hpos : 0 < p.toNat := by
    rw [Nat.pos_iff_ne_zero, ne_eq, ← UInt64.toNat_zero, UInt64.toNat_inj]
    exact hp
  refine ⟨⟨_, kfreePages_ok hok.hhdm hal, ?_⟩, cycles_end hok hn (by omega)⟩
  -- The second page of the block is handed out too, so it is not in the free list.
  have hnext : nextPage p ∉ s.freepages := by
    intro h
    refine hout (nextPage p) ?_ (List.mem_append_left _ (List.mem_map_of_mem h))
    rw [blockPages_eq_iterate]
    exact next_mem_iterate hn p
  rw [HasRun, ← hasRun_freed hn hnext]
  refine Iff.trans ?_ (kallocPages_isSome
    (s := { s with freepages := (blockPages p n.toNat).reverse ++ s.freepages }) hn)
  rw [Option.isSome_iff_exists]
  refine exists_congr fun q => ⟨?_, fun h => ⟨_, Prod.ext h rfl⟩⟩
  rintro ⟨s'', h⟩
  rw [h]

/-- `twoPages` after both pages went out as one block. -/
def twoPagesTaken : MemState := (kallocPages twoPages 2).2

/-- The block is freed, and there is no block for the next request. -/
theorem freed_block_lost :
    (kallocPages twoPages 2).1 = some 0x100000 ∧
    ∃ s', kfreePages twoPagesTaken (some 0x100000) 2 = .ok s' ∧ (kallocPages s' 2).1 = none :=
  ⟨by decide, _, rfl, by decide⟩

/-- The law for `twoPagesTaken`. -/
theorem freed_block_reusable_twoPagesTaken :
    (∃ s', kfreePages twoPagesTaken (some 0x100000) 2 = .ok s' ∧
      ((∃ q s'', kallocPages s' 2 = (some q, s'')) ↔
        HasRun twoPagesTaken 2 ∨ HasRegion twoPagesTaken 2)) ∧
    ∃ k s₁, k * 2 ≤ (stock twoPagesTaken).length ∧ cycles 2 k twoPagesTaken = some s₁ ∧
      (kallocPages s₁ 2).1 = none := by
  have hstock : stock twoPagesTaken = [] := by decide
  have hregions : twoPagesTaken.regions = [] := by decide
  refine freed_block_reusable_iff twoPagesTaken 2 0x100000 ⟨by decide, ?_, ?_, ?_⟩ (by decide)
    (by decide) (by decide) (by decide) ?_
  · rw [hregions]
    simp
  · rw [hstock]
    exact List.nodup_nil
  · rw [hstock]
    simp
  · rw [hstock]
    simp

end DzOS.Proofs.Mem
