import DzOS.Proofs.Mem.KmallocLarge

/-!
# `DzOS.Proofs.Mem.KmallocAlign`: the alignment of the kernel heap

A mixed page starts with 16 bytes of `mixed_page_hdr`, and every object has 4 bytes of
`alloc_hdr` in front of it. So the first object of a page lies 20 bytes behind a page boundary,
which is not a multiple of `KM_ALIGN`. A large block has a header of 16 bytes and is aligned.

A run is a list of requests, each for `kmalloc` or `kcmalloc`. `kmalloc_aligned_iff` says which
runs return aligned pointers only: those where no request for at most `KM_MAX_SMALL` bytes ever
gets a page. Up to the first such request the list of mixed pages is empty (`Unmixed`).
-/

set_option autoImplicit false

namespace DzOS.Proofs.Mem

open DzOS.Lib DzOS.Mem

/-- A request for `n` bytes, of `kcmalloc` when they shall be `clear`. -/
structure Request where
  clear : Bool
  n : UInt64

/-- The call for a request. -/
def Request.serve (r : Request) (s : KmState) : Option UInt64 × KmState :=
  if r.clear then kcmalloc s r.n else kmalloc s r.n

/-- The results of a list of requests. -/
def serveAll : KmState → List Request → List (Option UInt64)
  | _, [] => []
  | s, r :: requests => (r.serve s).1 :: serveAll (r.serve s).2 requests

/-- Every request for at most `KM_MAX_SMALL` bytes comes when the page allocator has no page. -/
def NoSmallPage : KmState → List Request → Prop
  | _, [] => True
  | s, r :: requests =>
    (r.n ≤ KM_MAX_SMALL → stock s.mem = []) ∧ NoSmallPage (r.serve s).2 requests

/-- No mixed page was taken yet. -/
structure Unmixed (s : KmState) : Prop where
  pages : PagesOk s.mem
  head : s.mixedPageHead = 0

variable {s s' : KmState} {r : Request} {n p P total : UInt64} {mem : MemState}

/-- `kcmalloc` returns what `kmalloc` returns. -/
theorem kcmalloc_fst (s : KmState) (n : UInt64) : (kcmalloc s n).1 = (kmalloc s n).1 := by
  rw [kcmalloc]
  split <;> rename_i h <;> rw [h]

theorem serve_fst (r : Request) (s : KmState) : (r.serve s).1 = (kmalloc s r.n).1 := by
  rw [Request.serve]
  split
  · exact kcmalloc_fst s r.n
  · rfl

/-- Clearing a block changes neither the pages of the allocator nor the mixed pages. -/
theorem Unmixed.serve (h : Unmixed (kmalloc s r.n).2) : Unmixed (r.serve s).2 := by
  rw [Request.serve]
  split
  · rw [kcmalloc]
    split
    · rename_i hrun
      rw [hrun] at h
      exact h
    · rename_i hrun
      rw [hrun] at h
      exact ⟨⟨h.pages.hhdm, h.pages.regions, h.pages.nodup, h.pages.stockPage⟩, h.head⟩
  · exact h

/-! ### One request -/

/-- The search from `NULL` finds nothing. -/
theorem findMixedPage_null (s : KmState) (total : UInt64) (fuel : Nat) :
    findMixedPage s total fuel 0 = none := by
  cases fuel with
  | zero => rfl
  | succ fuel => rw [findMixedPage, if_pos rfl]

/-- The address of an object in a mixed page. -/
theorem toNat_bump (s : KmState) (P size total : UInt64) (hP : P.toNat % 4096 = 0)
    (hoff : field s P 4 8 = 16) : (bumpMixedPage s P size total).1.toNat = P.toNat + 20 := by
  have hptr : (bumpMixedPage s P size total).1
      = P + (freeOffset s P).toUInt64 + UInt64.ofNat 4 := rfl
  rw [hptr, ahdr_eq, hoff, toNat_page_add hP (by omega)]

/-- A small request, which may ask for 0 bytes. -/
theorem kmalloc_small_le (hn : n ≤ KM_MAX_SMALL) :
    kmalloc s n = kmAllocFromMixedPageLocked s (if n = 0 then 1 else n) := by
  have hle : (if n = 0 then 1 else n) ≤ KM_MAX_SMALL := by
    split
    · decide
    · exact hn
  rw [kmalloc]
  dsimp only
  rw [if_pos hle]

/-- The first small request fails when there is no page. -/
theorem kmalloc_small_none (h : Unmixed s) (hn : n ≤ KM_MAX_SMALL) (hstock : stock s.mem = []) :
    kmalloc s n = (none, s) := by
  rw [kmalloc_small_le hn, kmAllocFromMixedPageLocked]
  dsimp only
  rw [h.head, findMixedPage_null]
  dsimp only
  rcases hpage : kalloc s.mem with ⟨_ | P, mem⟩
  · rw [kmNewMixedPage, hpage, kallocFill_none hpage]
  · have := (kallocFill_lends h.pages.regions hpage).stock.length_eq
    rw [hstock, blockPages_one] at this
    simp at this

/-- The first small request gets an object 20 bytes behind a page boundary when there is a
page. -/
theorem kmalloc_small_some (h : Unmixed s) (hn : n ≤ KM_MAX_SMALL) (hstock : stock s.mem ≠ []) :
    ∃ p, (kmalloc s n).1 = some p ∧ p.toNat % 16 = 4 := by
  rw [kmalloc_small_le hn, kmAllocFromMixedPageLocked]
  dsimp only
  rw [h.head, findMixedPage_null]
  dsimp only
  rcases hpage : kalloc s.mem with ⟨_ | P, mem⟩
  · exact absurd (stock_of_kallocFill_none hpage) hstock
  · have hlends := kallocFill_lends h.pages.regions hpage
    have hP : P.toNat % 4096 = 0 := by
      refine h.pages.aligned_of_V2P (hlends.stock.symm.mem_iff.mp (List.mem_append_left _ ?_))
      rw [blockPages_one]
      exact List.mem_singleton.mpr rfl
    -- The new page becomes the head of the list, with its first object behind the header.
    have hnew : kmNewMixedPage s = (some P, storeHeader
        { s with mem := mem, mixedPages := P :: s.mixedPages } P KM_MAGIC_MIXED.toNat
        MIXED_PAGE_START MIXED_PAGE_START 0) := by
      rw [kmNewMixedPage, hpage]
      rfl
    have hhdm : ({ s with mem := mem, mixedPages := P :: s.mixedPages } :
        KmState).mem.hhdmOffset.toNat % 4096 = 0 := (h.pages.lends hlends).hhdm
    obtain ⟨-, -, -, hoff⟩ :=
      storeHeader_spec hhdm hP KM_MAGIC_MIXED.toNat MIXED_PAGE_START MIXED_PAGE_START 0
    generalize storeHeader { s with mem := mem, mixedPages := P :: s.mixedPages } P
      KM_MAGIC_MIXED.toNat MIXED_PAGE_START MIXED_PAGE_START 0 = s₁ at hnew hoff
    have hoff₁ : field { s₁ with mixedPageHead := P } P 4 8 = 16 := hoff.trans (by decide)
    rw [hnew]
    refine ⟨_, rfl, ?_⟩
    rw [toNat_bump { s₁ with mixedPageHead := P } P _ _ hP hoff₁]
    omega

/-- A large block is aligned, and it takes no mixed page. -/
theorem kmalloc_large_aligned (h : Unmixed s) (hn : ¬ n ≤ KM_MAX_SMALL) :
    Unmixed (kmalloc s n).2 ∧ ∀ p, (kmalloc s n).1 = some p → p.toNat % 16 = 0 := by
  have hlarge : 2048 < n.toNat := by
    rw [UInt64.le_iff_toNat_le] at hn
    exact Nat.lt_of_not_le hn
  rcases hrun : kallocPages s.mem (largePages n) with ⟨_ | base, mem⟩
  · rw [kmalloc_large_none hlarge hrun, kallocPages_none hrun]
    exact ⟨h, fun p hp => by cases hp⟩
  · obtain ⟨hbase, hhdm⟩ := largeBlock_aligned h.pages hrun
    have hsize : (largePages n).toNat * 4096 < 2 ^ 64 := by
      rw [toNat_largePages]
      omega
    have hpages := h.pages.lends (kallocPages_lends h.pages.regions hsize hrun)
    obtain ⟨hwrites, -, -, -⟩ := storeHeader_spec (s := { s with mem := mem }) hpages.hhdm hbase
      KM_MAGIC_LARGE.toNat (largePages n).toNat 0 0
    rw [kmalloc_large_some hlarge hrun]
    refine ⟨⟨⟨hwrites.aligned hpages.hhdm, ?_, ?_, ?_⟩, ?_⟩, ?_⟩
    · rw [hwrites.regions]
      exact hpages.regions
    · rw [hwrites.stock]
      exact hpages.nodup
    · intro q hq
      rw [hwrites.stock] at hq
      rw [MemState.P2V, hwrites.hhdm]
      exact hpages.stockPage q hq
    · rw [hwrites.head]
      exact h.head
    · intro p hp
      cases hp
      rw [show base + sizeofLargeHdr = base + UInt64.ofNat 16 from rfl,
        toNat_page_add hbase (by omega)]
      omega

/-! ### Runs -/

/-- A run without a mixed page returns aligned pointers only as long as no small request gets a
page. -/
theorem serveAll_aligned_iff (h : Unmixed s) (requests : List Request) :
    (∀ p, some p ∈ serveAll s requests → p.toNat % 16 = 0) ↔ NoSmallPage s requests := by
  induction requests generalizing s with
  | nil => simp [serveAll, NoSmallPage]
  | cons r requests ih =>
    rw [NoSmallPage]
    simp only [serveAll, List.mem_cons, serve_fst]
    by_cases hn : r.n ≤ KM_MAX_SMALL
    · by_cases hstock : stock s.mem = []
      · -- The request fails and changes nothing.
        have hnone := kmalloc_small_none h hn hstock
        have hnext : Unmixed (r.serve s).2 := by
          refine Unmixed.serve ?_
          rw [hnone]
          exact h
        rw [← ih hnext, hnone]
        simp [hstock]
      · -- The request gets a page, so its pointer is not aligned.
        obtain ⟨p, hp, hmod⟩ := kmalloc_small_some h hn hstock
        refine iff_of_false ?_ fun hc => hstock (hc.1 hn)
        intro hall
        have := hall p (Or.inl hp.symm)
        omega
    -- A large request is always aligned, so only the rest of the run matters.
    · obtain ⟨hnext, haligned⟩ := kmalloc_large_aligned h hn
      rw [← ih hnext.serve]
      simp only [hn, false_implies, true_and]
      constructor
      · exact fun hall p hp => hall p (Or.inr hp)
      · rintro hall p (hp | hp)
        · exact haligned p hp.symm
        · exact hall p hp

/-- Take a machine whose page allocator is in order, and any list of requests from the start of
the heap on. All pointers that are returned are multiples of 16 if and only if every request for
at most `KM_MAX_SMALL` bytes comes when there is no page left. -/
theorem kmalloc_aligned_iff (mem : MemState) (hok : PagesOk mem) (requests : List Request) :
    (∀ p, some p ∈ serveAll (kmallocInit mem) requests → p.toNat % KM_ALIGN.toNat = 0) ↔
      NoSmallPage (kmallocInit mem) requests :=
  serveAll_aligned_iff ⟨hok, rfl⟩ requests

/-- The first object of a heap with one page. -/
theorem kmalloc_one_byte :
    some 0x1014 ∈ serveAll (kmallocInit onePage) [⟨false, 1⟩] ∧
    (0x1014 : UInt64).toNat % KM_ALIGN.toNat ≠ 0 := by
  decide +kernel

/-- The law for a large request that takes the only page, and a small one that finds none. -/
theorem kmalloc_aligned_onePage :
    (serveAll (kmallocInit onePage) [⟨false, 4000⟩, ⟨true, 1⟩]).length = 2 ∧
      ∀ p, some p ∈ serveAll (kmallocInit onePage) [⟨false, 4000⟩, ⟨true, 1⟩] →
        p.toNat % KM_ALIGN.toNat = 0 := by
  refine ⟨rfl, (kmalloc_aligned_iff onePage pagesOk_onePage _).mpr ⟨?_, ?_, trivial⟩⟩
  · exact fun hn => absurd hn (by decide)
  · intro _
    decide +kernel

end DzOS.Proofs.Mem
