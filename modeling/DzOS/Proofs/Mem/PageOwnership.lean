import DzOS.Lib.Conserve
import DzOS.Proofs.Mem.InitMem

/-!
# `DzOS.Proofs.Mem.PageOwnership`: no page is lost or handed out twice

The page allocator has two stores of free pages, `freepages` and the uncarved parts of
`regions`. `Ledger` adds the blocks that are currently handed out. `Ledger.Inv` is the
conservation law: the freed pages, the uncarved pages and the handed-out pages are together
a rearrangement of the pages that the regions held at first.

Each operation moves one block of consecutive pages between two pools. `carve_spec` says
what leaves the regions, `findRun_spec` what leaves the free list, and
`kfreePagesFrom_spec` what enters it. `Ledger.step_inv` assembles them, and
`pages_conserved` is the law for every reachable state.
-/

set_option autoImplicit false

namespace DzOS.Proofs.Mem

open DzOS.Lib DzOS.Mem

variable {i k n : Nat} {fits : MemRegion → Bool} {l rest whole : List UInt64} {r : MemRegion}
  {va p base : UInt64} {s s' : MemState} {c : UInt8} {regions : List MemRegion}

/-! ### Blocks of pages -/

/-- The physical addresses of `n` consecutive pages from `base`. -/
def blockPages (base : UInt64) (n : Nat) : List UInt64 :=
  (List.range n).map fun i => base + UInt64.ofNat i * PAGE_SIZE.toUInt64

/-- The pages of a region that are not carved yet. -/
def regionPages (r : MemRegion) : List UInt64 :=
  blockPages r.physCur ((r.physEnd.toNat - r.physCur.toNat) / 4096)

/-- A region is a page-aligned range. -/
structure RegionOk (r : MemRegion) : Prop where
  curAligned : r.physCur.toNat % 4096 = 0
  endAligned : r.physEnd.toNat % 4096 = 0
  le : r.physCur.toNat ≤ r.physEnd.toNat

/-- Disjoint, page-aligned ranges. -/
structure RegionsOk (regions : List MemRegion) : Prop where
  aligned : ∀ r ∈ regions, RegionOk r
  disjoint : regions.Pairwise fun r r' => ∀ p, ¬ (HasPage r p ∧ HasPage r' p)

/-- The address of the `i`-th page of a block. -/
theorem toNat_block_page (h : base.toNat + i * 4096 < 2 ^ 64) :
    (base + UInt64.ofNat i * PAGE_SIZE.toUInt64).toNat = base.toNat + i * 4096 := by
  have hi : (UInt64.ofNat i).toNat = i := by
    rw [UInt64.toNat_ofNat']
    omega
  rw [UInt64.toNat_add, UInt64.toNat_mul, hi, toNat_PAGE_SIZE_toUInt64]
  omega

/-- One block splits into two. -/
theorem blockPages_add (base : UInt64) (n m : Nat) :
    blockPages base (n + m)
      = blockPages base n ++ blockPages (base + UInt64.ofNat n * PAGE_SIZE.toUInt64) m := by
  simp only [blockPages, List.range_add, List.map_append, List.map_map]
  congr 1
  refine List.map_congr_left fun i _ => ?_
  simp only [Function.comp, UInt64.ofNat_add, UInt64.add_mul, UInt64.add_assoc]

/-- The first page of a block, and the block behind it. -/
theorem blockPages_cons (base : UInt64) (n : Nat) :
    blockPages base (n + 1)
      = base :: blockPages (base + UInt64.ofNat 1 * PAGE_SIZE.toUInt64) n := by
  rw [Nat.add_comm n 1, blockPages_add]
  simp [blockPages]

/-- The same split for the block from the `i`-th page on. -/
theorem blockPages_succ (base : UInt64) (i n : Nat) :
    blockPages (base + UInt64.ofNat i * PAGE_SIZE.toUInt64) (n + 1)
      = (base + UInt64.ofNat i * PAGE_SIZE.toUInt64)
        :: blockPages (base + UInt64.ofNat (i + 1) * PAGE_SIZE.toUInt64) n := by
  rw [blockPages_cons, UInt64.ofNat_add, UInt64.add_mul, UInt64.add_assoc]

/-- A block that stays inside the address space has no repeated page. -/
theorem nodup_blockPages (h : base.toNat + n * 4096 ≤ 2 ^ 64) : (blockPages base n).Nodup := by
  refine List.Nodup.map_on (fun i hi j hj hij => ?_) List.nodup_range
  have hi' := List.mem_range.mp hi
  have hj' := List.mem_range.mp hj
  have := congrArg UInt64.toNat hij
  rw [toNat_block_page (by omega), toNat_block_page (by omega)] at this
  omega

/-- The pages of a region, as a predicate. -/
theorem mem_regionPages (hr : RegionOk r) (p : UInt64) : p ∈ regionPages r ↔ HasPage r p.toNat := by
  obtain ⟨hcur, hend, hle⟩ := hr
  have hlt := r.physEnd.toNat_lt
  simp only [regionPages, blockPages, List.mem_map, List.mem_range, HasPage]
  constructor
  · rintro ⟨i, hi, rfl⟩
    rw [toNat_block_page (by omega)]
    omega
  · rintro ⟨hal, hlo, hhi⟩
    refine ⟨(p.toNat - r.physCur.toNat) / 4096, by omega, ?_⟩
    apply UInt64.toNat.inj
    rw [toNat_block_page (by omega)]
    omega

/-- Disjoint aligned ranges have no page twice. -/
theorem nodup_regionsPages (h : RegionsOk regions) : (regions.flatMap regionPages).Nodup := by
  rw [List.nodup_flatMap]
  refine ⟨fun r hr => ?_, h.disjoint.imp_of_mem fun {r r'} hr hr' hdis p hp hp' => ?_⟩
  · obtain ⟨hcur, hend, hle⟩ := h.aligned r hr
    have hlt := r.physEnd.toNat_lt
    exact nodup_blockPages (by omega)
  · exact hdis p.toNat ⟨(mem_regionPages (h.aligned r hr) p).mp hp,
      (mem_regionPages (h.aligned r' hr') p).mp hp'⟩

/-- The regions that `init_mem` registers from a map below 4 GiB are disjoint page-aligned
ranges. -/
theorem regionsOk_of_initMem {mem : Bytes} {hhdm : UInt64} {memoryMap : List (Option MemmapEntry)}
    (hmap : MapOk memoryMap) (hlow : ∀ e ∈ usable memoryMap, (∃ p, HoldsPage e p) →
      e.base.toNat + e.length.toNat < 2 ^ 32)
    (h : initMem (MemState.boot mem) hhdm (some memoryMap) = .ok s) : RegionsOk s.regions := by
  obtain ⟨s', hrun, hreg⟩ := initMem_regions mem hhdm hmap.count
  rw [h] at hrun
  cases hrun
  refine ⟨fun r hr => ?_, (intakeExact_of_low hmap hreg hlow).disjoint⟩
  rw [hreg, List.mem_filterMap] at hr
  obtain ⟨e, he, hr⟩ := hr
  obtain ⟨-, hcur, hend⟩ := regionOf_eq_some (hmap.noWrap e he) hr
  exact ⟨by omega, by omega, (regionOf_lt hr).le⟩

/-! ### What leaves the regions -/

/-- Carving `n` pages from the front of a region that has them. -/
theorem regionPages_carve (hn : r.physCur.toNat + n * 4096 ≤ r.physEnd.toNat) :
    regionPages r = blockPages r.physCur n
      ++ regionPages { r with physCur := r.physCur + UInt64.ofNat n * PAGE_SIZE.toUInt64 } := by
  have hlt := r.physEnd.toNat_lt
  have hcur := toNat_block_page (by omega : r.physCur.toNat + n * 4096 < 2 ^ 64)
  have hsplit : (r.physEnd.toNat - r.physCur.toNat) / 4096
      = n + (r.physEnd.toNat - (r.physCur.toNat + n * 4096)) / 4096 := by
    omega
  simp only [regionPages, hcur]
  rw [hsplit, blockPages_add]

/-- A successful walk over the regions takes a block of `n` pages out of them and leaves
aligned ranges behind. The hypothesis on `fits` is that it accepts only regions with `n`
pages left. -/
theorem carve_spec
    (hfits : ∀ r, RegionOk r → fits r = true → r.physCur.toNat + n * 4096 ≤ r.physEnd.toNat)
    {regions' : List MemRegion} {phys : UInt64} (hok : ∀ r ∈ regions, RegionOk r)
    (h : carve fits (UInt64.ofNat n * PAGE_SIZE.toUInt64) regions = some (phys, regions')) :
    (regions.flatMap regionPages).Perm (blockPages phys n ++ regions'.flatMap regionPages) ∧
      (∀ r ∈ regions', RegionOk r) := by
  induction regions generalizing regions' with
  | nil => simp [carve] at h
  | cons it next ih =>
    have hit := hok it List.mem_cons_self
    have hnext : ∀ r ∈ next, RegionOk r := fun r hr => hok r (List.mem_cons_of_mem _ hr)
    have hlt := it.physEnd.toNat_lt
    simp only [carve] at h
    split at h
    · -- The first region has enough pages left.
      rename_i hfit
      have hn := hfits it hit hfit
      have hcur := toNat_block_page (by omega : it.physCur.toNat + n * 4096 < 2 ^ 64)
      rw [List.flatMap_cons, regionPages_carve hn]
      split at h
      · rename_i hge
        cases h
        rw [ge_iff_le, UInt64.le_iff_toNat_le, hcur] at hge
        have hempty : regionPages { it with
            physCur := it.physCur + UInt64.ofNat n * PAGE_SIZE.toUInt64 } = [] := by
          simp only [regionPages, hcur]
          rw [show (it.physEnd.toNat - (it.physCur.toNat + n * 4096)) / 4096 = 0 from by omega]
          rfl
        rw [hempty, List.append_nil]
        exact ⟨List.Perm.refl _, hnext⟩
      · cases h
        rw [List.flatMap_cons, List.append_assoc]
        refine ⟨List.Perm.refl _, fun r hr => ?_⟩
        rcases List.mem_cons.mp hr with rfl | hr
        · obtain ⟨h1, h2, h3⟩ := hit
          exact ⟨by simp only [hcur]; omega, h2, by simp only [hcur]; omega⟩
        · exact hnext r hr
    · -- The walk goes on behind the first region.
      cases hrest : carve fits (UInt64.ofNat n * PAGE_SIZE.toUInt64) next with
      | none => simp [hrest] at h
      | some res =>
        obtain ⟨phys', next'⟩ := res
        rw [hrest] at h
        cases h
        obtain ⟨hperm, hok'⟩ := ih hnext hrest
        refine ⟨?_, fun r hr => ?_⟩
        · simp only [List.flatMap_cons]
          refine (hperm.append_left _).trans ?_
          exact perm_of_count_eq fun a => by simp only [List.count_append]; omega
        · rcases List.mem_cons.mp hr with rfl | hr
          · exact hit
          · exact hok' r hr

/-! ### What leaves the free list -/

/-- A successful scan finds the `k` pages that follow physically. -/
theorem scanRun_spec (h : scanRun s base k i l = some rest) :
    ∃ run, l = run ++ rest ∧
      run.map s.V2P = blockPages (base + UInt64.ofNat i * PAGE_SIZE.toUInt64) k := by
  induction k generalizing i l with
  | zero =>
    cases h
    exact ⟨[], rfl, rfl⟩
  | succ k ih =>
    cases l with
    | nil => simp [scanRun] at h
    | cons q next =>
      simp only [scanRun] at h
      split at h
      · rename_i hq
        obtain ⟨run, rfl, hrun⟩ := ih h
        refine ⟨q :: run, rfl, ?_⟩
        rw [blockPages_succ, List.map_cons, hrun, ← hq]
      · exact absurd h (by simp)

/-- A successful search takes `n + 1` consecutive pages out of the free list. -/
theorem findRun_spec {q : UInt64} (h : findRun s n l = some (q, rest)) :
    (l.map s.V2P).Perm (blockPages (s.V2P q) (n + 1) ++ rest.map s.V2P) := by
  induction l generalizing rest with
  | nil => simp [findRun] at h
  | cons it next ih =>
    simp only [findRun] at h
    cases hscan : scanRun s (s.V2P it) n 1 next with
    | some rest' =>
      rw [hscan] at h
      cases h
      obtain ⟨run, rfl, hrun⟩ := scanRun_spec hscan
      rw [blockPages_cons, List.map_cons, List.map_append, hrun]
      exact List.Perm.refl _
    | none =>
      rw [hscan] at h
      cases hfind : findRun s n next with
      | none => simp [hfind] at h
      | some res =>
        obtain ⟨q', rest'⟩ := res
        rw [hfind] at h
        cases h
        rw [List.map_cons, List.map_cons]
        exact ((ih hfind).cons _).trans List.perm_middle.symm

/-! ### What enters the free list -/

/-- A call of `kfree` that returns pushes its page. -/
theorem kfree_eq_ok (h : kfree s (some va) = .ok s') : s' = pushFreePage s va := by
  simp only [kfree] at h
  split at h
  · exact absurd h (by simp)
  · split at h
    · exact absurd h (by simp)
    · cases h
      rfl

/-- `kfree` does not panic on a page of a page-aligned direct map. -/
theorem kfree_ok {s : MemState} {va : UInt64} (hhdm : s.hhdmOffset.toNat % 4096 = 0)
    (hva : (s.V2P va).toNat % 4096 = 0) : kfree s (some va) = .ok (pushFreePage s va) := by
  have hzero : ∀ a : UInt64, a.toNat % 4096 = 0 → pageOffset a = 0 := fun a ha =>
    UInt64.toNat.inj (by rw [toNat_pageOffset, ha]; rfl)
  have hva' : va.toNat % 4096 = 0 := by
    have h1 := va.toNat_lt
    have h2 := s.hhdmOffset.toNat_lt
    rw [MemState.V2P, UInt64.toNat_sub] at hva
    omega
  simp [kfree, hzero va hva', hzero _ hva]

/-- The loop of `kfree_pages` pushes its block, and changes nothing else. -/
theorem kfreePagesFrom_spec (h : kfreePagesFrom va k i s = .ok s') :
    ∃ pushed, s' = { s with freepages := pushed ++ s.freepages } ∧
      (pushed.map s.V2P).Perm
        (blockPages (s.V2P va + UInt64.ofNat i * PAGE_SIZE.toUInt64) k) := by
  induction k generalizing i s with
  | zero =>
    cases h
    exact ⟨[], rfl, List.Perm.refl _⟩
  | succ k ih =>
    simp only [kfreePagesFrom] at h
    cases hfree : kfree s (some (va + UInt64.ofNat i * PAGE_SIZE.toUInt64)) with
    | error e => simp [hfree] at h
    | ok s₁ =>
      rw [hfree] at h
      have hs₁ := kfree_eq_ok hfree
      obtain ⟨pushed, hs', hperm⟩ := ih h
      rw [hs₁] at hs' hperm
      refine ⟨pushed ++ [va + UInt64.ofNat i * PAGE_SIZE.toUInt64], ?_, ?_⟩
      · rw [hs']
        simp [pushFreePage]
      · rw [List.map_append]
        have hV2P : s.V2P (va + UInt64.ofNat i * PAGE_SIZE.toUInt64)
            = s.V2P va + UInt64.ofNat i * PAGE_SIZE.toUInt64 := by
          simp only [MemState.V2P, UInt64.sub_eq_add_neg]
          ac_rfl
        refine List.perm_append_comm.trans ?_
        rw [blockPages_succ, List.map_singleton, hV2P]
        exact hperm.cons (s.V2P va + UInt64.ofNat i * PAGE_SIZE.toUInt64)

/-! ### The allocation calls -/

/-- The pages that the allocator can still hand out. -/
def stock (s : MemState) : List UInt64 :=
  s.freepages.map s.V2P ++ s.regions.flatMap regionPages

/-- What a successful allocation does: `n` consecutive pages from `p` leave the stock, and
the direct map stays where it is. -/
structure Lends (s s' : MemState) (p : UInt64) (n : Nat) : Prop where
  hhdm : s'.hhdmOffset = s.hhdmOffset
  stock : (stock s).Perm (blockPages (s.V2P p) n ++ stock s')
  aligned : ∀ r ∈ s'.regions, RegionOk r

/-- A block of one page. -/
theorem blockPages_one (base : UInt64) : blockPages base 1 = [base] := by
  simp [blockPages]

/-- The pointer of the physical address of a pointer. -/
@[simp] theorem P2V_V2P (s : MemState) (p : UInt64) : s.P2V (s.V2P p) = p := by
  simp [MemState.V2P, MemState.P2V]

/-- The pointer of a physical address points to it. -/
@[simp] theorem V2P_P2V (s : MemState) (p : UInt64) : s.V2P (s.P2V p) = p := by
  simp [MemState.V2P, MemState.P2V]

/-- `memset` touches neither store of pages. -/
theorem Lends.memset (h : Lends s s' p n) (ptr : UInt64) (c : UInt8) (len : UInt64) :
    Lends s (s'.memset ptr c len) p n :=
  ⟨h.hhdm, h.stock, h.aligned⟩

/-- Popping the free list lends its first page. -/
theorem popFreePage_lends (hok : ∀ r ∈ s.regions, RegionOk r) (h : popFreePage s = (some p, s')) :
    Lends s s' p 1 := by
  unfold popFreePage at h
  split at h
  · exact absurd h (by simp)
  · rename_i q rest hfree
    cases h
    refine ⟨rfl, ?_, hok⟩
    rw [stock, hfree, blockPages_one]
    exact List.Perm.refl _

/-- An empty free list stays as it is. -/
theorem popFreePage_none (h : popFreePage s = (none, s')) : s' = s := by
  unfold popFreePage at h
  split at h
  · cases h
    rfl
  · exact absurd h (by simp)

/-- Carving lends the block it carves. -/
theorem carved_lends (hok : ∀ r ∈ s.regions, RegionOk r)
    (hfits : ∀ r, RegionOk r → fits r = true → r.physCur.toNat + n * 4096 ≤ r.physEnd.toNat)
    (h : s.carved (carve fits (UInt64.ofNat n * PAGE_SIZE.toUInt64) s.regions) = (some p, s')) :
    Lends s s' p n := by
  cases hc : carve fits (UInt64.ofNat n * PAGE_SIZE.toUInt64) s.regions with
  | none => simp [hc, MemState.carved] at h
  | some res =>
    obtain ⟨phys, regions'⟩ := res
    rw [hc] at h
    cases h
    obtain ⟨hperm, hok'⟩ := carve_spec hfits hok hc
    refine ⟨rfl, ?_, hok'⟩
    rw [V2P_P2V]
    refine (hperm.append_left (s.freepages.map s.V2P)).trans ?_
    exact perm_of_count_eq fun a => by
      simp only [stock, List.count_append]
      exact Nat.add_left_comm _ _ _

/-- A walk that finds nothing changes nothing. -/
theorem carved_none {r : Option (UInt64 × List MemRegion)} (h : s.carved r = (none, s')) :
    s' = s := by
  cases r with
  | none =>
    cases h
    rfl
  | some res => simp [MemState.carved] at h

/-- `alloc_from_regions_for_page_cache` lends one page. -/
theorem allocFromRegionsForPageCache_lends (hok : ∀ r ∈ s.regions, RegionOk r)
    (h : allocFromRegionsForPageCache s = (some p, s')) : Lends s s' p 1 := by
  refine carved_lends hok (fun r hr hfit => ?_) h
  obtain ⟨h1, h2, -⟩ := hr
  have := UInt64.lt_iff_toNat_lt.mp (of_decide_eq_true hfit)
  omega

/-- `kalloc` and `kcalloc` lend one page. -/
theorem kallocFill_lends (hok : ∀ r ∈ s.regions, RegionOk r) (h : kallocFill s c = (some p, s')) :
    Lends s s' p 1 := by
  unfold kallocFill at h
  split at h
  · rename_i page s₁ hpop
    cases h
    exact (popFreePage_lends hok hpop).memset _ _ _
  · rename_i s₁ hpop
    cases popFreePage_none hpop
    split at h
    · exact absurd h (by simp)
    · rename_i page s₂ hcarve
      cases h
      exact (allocFromRegionsForPageCache_lends hok hcarve).memset _ _ _

/-- What `kalloc` and `kcalloc` do to the stock: their page leaves it. -/
structure TakesPage (s s' : MemState) (p : UInt64) : Prop where
  inStock : p ∈ stock s
  taken : p ∉ stock s'
  sub : ∀ q ∈ stock s', q ∈ stock s
  nodup : (stock s').Nodup
  length : (stock s).length = (stock s').length + 1

theorem kallocFill_takes (hok : ∀ r ∈ s.regions, RegionOk r) (hnodup : (stock s).Nodup)
    (h : kallocFill s c = (some p, s')) : TakesPage s s' (s.V2P p) := by
  have hstock := (kallocFill_lends hok h).stock
  rw [blockPages_one, List.singleton_append] at hstock
  obtain ⟨htaken, hnodup'⟩ := List.nodup_cons.mp (hstock.nodup_iff.mp hnodup)
  constructor
  · exact hstock.mem_iff.mpr List.mem_cons_self
  · exact htaken
  · intro q hq
    exact hstock.mem_iff.mpr (List.mem_cons_of_mem _ hq)
  · exact hnodup'
  · exact hstock.length_eq

/-- A failing `kalloc` or `kcalloc` changes nothing. -/
theorem kallocFill_none (h : kallocFill s c = (none, s')) : s' = s := by
  unfold kallocFill at h
  split at h
  · exact absurd h (by simp)
  · rename_i s₁ hpop
    cases popFreePage_none hpop
    split at h
    · rename_i s₂ hcarve
      cases h
      exact carved_none hcarve
    · exact absurd h (by simp)

/-- The carving finds something when a region fits. -/
theorem carve_isSome {fits : MemRegion → Bool} {bytes : UInt64} {regions : List MemRegion} :
    (carve fits bytes regions).isSome ↔ ∃ r ∈ regions, fits r = true := by
  induction regions with
  | nil => simp [carve]
  | cons it next ih =>
    rw [carve]
    by_cases hfit : fits it = true
    · rw [if_pos hfit]
      simp only [List.mem_cons, exists_eq_or_imp, hfit, true_or, iff_true]
      split <;> rfl
    · rw [if_neg hfit]
      simp only [List.mem_cons, exists_eq_or_imp, hfit, ← ih]
      cases carve fits bytes next <;> simp

/-- `kalloc` and `kcalloc` fail only when the stock is empty. -/
theorem stock_of_kallocFill_none (h : kallocFill s c = (none, s')) : stock s = [] := by
  unfold kallocFill popFreePage at h
  split at h
  · exact absurd h (by simp)
  · rename_i s₁ hpop
    split at hpop
    · rename_i hfree
      cases hpop
      split at h
      · rename_i s₂ hcarve
        have hnone : carve (fun it => it.physCur < it.physEnd) PAGE_SIZE.toUInt64 s.regions =
            none := by
          unfold allocFromRegionsForPageCache MemState.carved at hcarve
          split at hcarve
          · assumption
          · exact absurd hcarve (by simp)
        have hfits := @carve_isSome (fun it => it.physCur < it.physEnd) PAGE_SIZE.toUInt64 s.regions
        rw [hnone] at hfits
        have hempty : s.regions.flatMap regionPages = [] := by
          refine List.flatMap_eq_nil_iff.mpr fun r hr => ?_
          have hfit : ¬ r.physCur < r.physEnd := fun hlt =>
            nomatch hfits.mpr ⟨r, hr, decide_eq_true hlt⟩
          rw [UInt64.lt_iff_toNat_lt] at hfit
          rw [regionPages, show (r.physEnd.toNat - r.physCur.toNat) / 4096 = 0 by omega]
          rfl
        rw [stock, hfree, hempty]
        rfl
      · exact absurd h (by simp)
    · exact absurd hpop (by simp)

/-- `kalloc` and `kcalloc` write the page that they return, and nothing else. -/
theorem kallocFill_mem (h : kallocFill s c = (some p, s')) :
    ∃ x, s'.mem = s.mem.fill (s.V2P p).toNat 4096 x ∧ (x = 0 ∨ x = c) := by
  unfold kallocFill at h
  split at h
  · rename_i page s₁ hpop
    cases h
    unfold popFreePage at hpop
    split at hpop
    · exact absurd hpop (by simp)
    · cases hpop
      exact ⟨0, rfl, Or.inl rfl⟩
  · rename_i s₁ hpop
    cases popFreePage_none hpop
    split at h
    · exact absurd h (by simp)
    · rename_i page s₂ hcarve
      cases h
      unfold allocFromRegionsForPageCache MemState.carved at hcarve
      split at hcarve
      · exact absurd hcarve (by simp)
      · cases hcarve
        exact ⟨c, rfl, Or.inr rfl⟩

/-- `kalloc_for_page_cache` lends one page. -/
theorem kallocForPageCache_lends (hok : ∀ r ∈ s.regions, RegionOk r)
    (h : kallocForPageCache s = (some p, s')) : Lends s s' p 1 := by
  unfold kallocForPageCache at h
  split at h
  · rename_i page s₁ hpop
    cases h
    exact popFreePage_lends hok hpop
  · rename_i s₁ hpop
    cases popFreePage_none hpop
    exact allocFromRegionsForPageCache_lends hok h

/-- A failing `kalloc_for_page_cache` changes nothing. -/
theorem kallocForPageCache_none (h : kallocForPageCache s = (none, s')) : s' = s := by
  unfold kallocForPageCache at h
  split at h
  · exact absurd h (by simp)
  · rename_i s₁ hpop
    cases popFreePage_none hpop
    exact carved_none h

/-- `alloc_contiguous_from_freelist` lends its run. -/
theorem allocContiguousFromFreelist_lends {n : UInt64} (hok : ∀ r ∈ s.regions, RegionOk r)
    (h : allocContiguousFromFreelist s n = (some p, s')) : Lends s s' p n.toNat := by
  unfold allocContiguousFromFreelist at h
  split at h
  · exact absurd h (by simp)
  · rename_i hn
    split at h
    · exact absurd h (by simp)
    · rename_i page rest hfind
      cases h
      have hn' : n.toNat - 1 + 1 = n.toNat := by
        rw [UInt64.le_iff_toNat_le, UInt64.toNat_one] at hn
        omega
      have hperm := findRun_spec hfind
      rw [hn'] at hperm
      have hall := hperm.append_right (s.regions.flatMap regionPages)
      rw [List.append_assoc] at hall
      exact ⟨rfl, hall, hok⟩

/-- A failing search of the free list changes nothing. -/
theorem allocContiguousFromFreelist_none {n : UInt64}
    (h : allocContiguousFromFreelist s n = (none, s')) : s' = s := by
  unfold allocContiguousFromFreelist at h
  split at h
  · cases h
    rfl
  · split at h
    · cases h
      rfl
    · exact absurd h (by simp)

/-- `alloc_contiguous_from_regions` lends `n` pages when `n` pages fit in the address
space. -/
theorem allocContiguousFromRegions_lends {n : UInt64} (hok : ∀ r ∈ s.regions, RegionOk r)
    (hn : n.toNat * 4096 < 2 ^ 64) (h : allocContiguousFromRegions s n = (some p, s')) :
    Lends s s' p n.toNat := by
  unfold allocContiguousFromRegions at h
  split at h
  · exact absurd h (by simp)
  · have hbytes : UInt64.ofNat n.toNat * PAGE_SIZE.toUInt64 = n * PAGE_SIZE.toUInt64 := by
      rw [UInt64.ofNat_toNat]
    rw [← hbytes] at h
    refine carved_lends hok (fun r hr hfit => ?_) h
    have hle := UInt64.le_iff_toNat_le.mp (of_decide_eq_true hfit)
    have hcur := hr.le
    rw [hbytes, UInt64.toNat_mul, toNat_PAGE_SIZE_toUInt64, Nat.mod_eq_of_lt hn,
      UInt64.toNat_sub_of_le _ _ (UInt64.le_iff_toNat_le.mpr hcur)] at hle
    omega

/-- A failing walk over the regions changes nothing. -/
theorem allocContiguousFromRegions_none {n : UInt64}
    (h : allocContiguousFromRegions s n = (none, s')) : s' = s := by
  unfold allocContiguousFromRegions at h
  split at h
  · cases h
    rfl
  · exact carved_none h

/-- A region has room for `n` pages. -/
def HasRegion (s : MemState) (n : UInt64) : Prop :=
  ∃ r ∈ s.regions, r.physEnd - r.physCur ≥ n * PAGE_SIZE.toUInt64

/-- `alloc_contiguous_from_regions` for at least one page. -/
theorem allocContiguousFromRegions_isSome {n : UInt64} (hn : n ≠ 0) :
    (allocContiguousFromRegions s n).1.isSome ↔ HasRegion s n := by
  have hcarve := @carve_isSome
    (fun it => decide (it.physEnd - it.physCur ≥ n * PAGE_SIZE.toUInt64))
    (n * PAGE_SIZE.toUInt64) s.regions
  simp only [decide_eq_true_eq] at hcarve
  rw [HasRegion, ← hcarve, allocContiguousFromRegions, if_neg hn]
  dsimp only
  cases carve (fun it => decide (it.physEnd - it.physCur ≥ n * PAGE_SIZE.toUInt64))
    (n * PAGE_SIZE.toUInt64) s.regions <;> simp [MemState.carved]

/-- `kalloc_pages` lends `n` consecutive pages. -/
theorem kallocPages_lends {n : UInt64} (hok : ∀ r ∈ s.regions, RegionOk r)
    (hn : n.toNat * 4096 < 2 ^ 64) (h : kallocPages s n = (some p, s')) : Lends s s' p n.toNat := by
  unfold kallocPages at h
  split at h
  · exact absurd h (by simp)
  · split at h
    · rename_i hone
      rw [hone]
      exact kallocFill_lends hok h
    · split at h
      · rename_i pages s₁ hlist
        cases h
        exact (allocContiguousFromFreelist_lends hok hlist).memset _ _ _
      · rename_i s₁ hlist
        cases allocContiguousFromFreelist_none hlist
        split at h
        · rename_i pages s₂ hreg
          cases h
          exact (allocContiguousFromRegions_lends hok hn hreg).memset _ _ _
        · exact absurd h (by simp)

/-- A failing `kalloc_pages` changes nothing. -/
theorem kallocPages_none {n : UInt64} (h : kallocPages s n = (none, s')) : s' = s := by
  unfold kallocPages at h
  split at h
  · cases h
    rfl
  · split at h
    · exact kallocFill_none h
    · split at h
      · exact absurd h (by simp)
      · rename_i s₁ hlist
        cases allocContiguousFromFreelist_none hlist
        split at h
        · exact absurd h (by simp)
        · rename_i s₂ hreg
          cases h
          exact allocContiguousFromRegions_none hreg

/-- `kalloc_for_page_cache` finds a page when `kalloc` does. -/
theorem kallocForPageCache_isSome (s : MemState) (c : UInt8) :
    (kallocForPageCache s).1.isSome = (kallocFill s c).1.isSome := by
  unfold kallocForPageCache kallocFill
  rcases popFreePage s with ⟨_ | page, s₁⟩
  · dsimp only
    rcases allocFromRegionsForPageCache s₁ with ⟨_ | page, s₂⟩
    · rfl
    · rfl
  · rfl

/-- `kalloc` finds a page when there is one in the stock. -/
theorem kallocFill_isSome (h : stock s ≠ []) (c : UInt8) : (kallocFill s c).1.isSome := by
  rcases hcall : kallocFill s c with ⟨_ | page, s'⟩
  · exact absurd (stock_of_kallocFill_none hcall) h
  · rfl

/-- `kalloc_pages` finds a block when a region has the pages. -/
theorem kallocPages_of_region {n : UInt64} (hok : ∀ r ∈ s.regions, RegionOk r) (hpos : 0 < n.toNat)
    (hroom : ∃ r ∈ s.regions, r.physCur.toNat + n.toNat * 4096 ≤ r.physEnd.toNat) :
    (kallocPages s n).1.isSome := by
  obtain ⟨r, hr, hle⟩ := hroom
  have hend := r.physEnd.toNat_lt
  have hne : n ≠ 0 := by
    rintro rfl
    exact absurd hpos (by decide)
  unfold kallocPages
  rw [if_neg hne]
  by_cases hone : n = 1
  · rw [if_pos hone]
    refine kallocFill_isSome (fun hempty => ?_) 2
    have hpage : r.physCur ∈ regionPages r := by
      refine (mem_regionPages (hok r hr) _).mpr ⟨(hok r hr).curAligned, Nat.le_refl _, ?_⟩
      omega
    have hstock : r.physCur ∈ stock s :=
      List.mem_append_right _ (List.mem_flatMap.mpr ⟨r, hr, hpage⟩)
    rw [hempty] at hstock
    exact List.not_mem_nil hstock
  · rw [if_neg hone]
    rcases hlist : allocContiguousFromFreelist s n with ⟨_ | pages, s₁⟩
    · cases allocContiguousFromFreelist_none hlist
      have hregion : HasRegion s n := by
        refine ⟨r, hr, ?_⟩
        rw [ge_iff_le, UInt64.le_iff_toNat_le, UInt64.toNat_mul, toNat_PAGE_SIZE_toUInt64,
          Nat.mod_eq_of_lt (by omega), UInt64.toNat_sub_of_le _ _
            (UInt64.le_iff_toNat_le.mpr (hok r hr).le)]
        omega
      have hsome := (allocContiguousFromRegions_isSome hne).mpr hregion
      dsimp only
      rcases hcarve : allocContiguousFromRegions s n with ⟨_ | pages, s₂⟩
      · rw [hcarve] at hsome
        cases hsome
      · rfl
    · rfl

/-! ### The ledger -/

/-- The allocator together with the blocks that are handed out: pointer and page count. -/
structure Ledger where
  state : MemState
  out : List (UInt64 × Nat)

variable {l l' : Ledger}

/-- The calls of the page allocator. -/
inductive PageOp
  | kalloc
  | kcalloc
  | kallocForPageCache
  | kallocPages (n : UInt64)
  | kfree (page : UInt64)
  | kfreePages (ptr n : UInt64)

namespace Ledger

/-- The ledger after an allocation call: a block that was returned is handed out. -/
def lend (l : Ledger) (n : Nat) : Option UInt64 × MemState → Ledger
  | (some p, s) => { state := s, out := (p, n) :: l.out }
  | (none, s) => { state := s, out := l.out }

/-- The ledger after a freeing call: the block is no longer handed out. -/
def takeBack (l : Ledger) (block : UInt64 × Nat) : Except String MemState → Except String Ledger
  | .ok s => .ok { state := s, out := l.out.erase block }
  | .error e => .error e

/-- One call. -/
def step (l : Ledger) : PageOp → Except String Ledger
  | .kalloc => .ok (l.lend 1 (kalloc l.state))
  | .kcalloc => .ok (l.lend 1 (kcalloc l.state))
  | .kallocForPageCache => .ok (l.lend 1 (kallocForPageCache l.state))
  | .kallocPages n => .ok (l.lend n.toNat (kallocPages l.state n))
  | .kfree page => l.takeBack (page, 1) (kfree l.state (some page))
  | .kfreePages ptr n => l.takeBack (ptr, n.toNat) (kfreePages l.state (some ptr) n)

/-- What the callers respect: no request above `2 ^ 20` pages, and a block is freed only
while it is handed out, with its own size. -/
def Allowed (l : Ledger) : PageOp → Prop
  | .kallocPages n => n.toNat ≤ 2 ^ 20
  | .kfree page => (page, 1) ∈ l.out
  | .kfreePages ptr n => (ptr, n.toNat) ∈ l.out
  | _ => True

/-- The states that the calls reach from `s₀`, with nothing handed out at first. -/
inductive Reachable (s₀ : MemState) : Ledger → Prop
  | init : Reachable s₀ { state := s₀, out := [] }
  | step {l l' : Ledger} {op : PageOp} (h : Reachable s₀ l) (hop : l.Allowed op)
      (hstep : l.step op = .ok l') : Reachable s₀ l'

/-- The freed pages. -/
def freePages (l : Ledger) : List UInt64 := l.state.freepages.map l.state.V2P

/-- The pages that are still in the regions. -/
def uncarvedPages (l : Ledger) : List UInt64 := l.state.regions.flatMap regionPages

/-- The pages that are handed out. -/
def outPages (l : Ledger) : List UInt64 :=
  l.out.flatMap fun b => blockPages (l.state.V2P b.1) b.2

/-- The conservation law: the three pools are a rearrangement of the first pages. -/
structure Inv (whole : List UInt64) (l : Ledger) : Prop where
  conserves : Conserves whole [l.freePages, l.uncarvedPages, l.outPages]
  aligned : ∀ r ∈ l.state.regions, RegionOk r

/-- The pointer conversion depends on the offset of the direct map only. -/
theorem V2P_congr (h : s'.hhdmOffset = s.hhdmOffset) : s'.V2P = s.V2P := by
  funext p
  rw [MemState.V2P, MemState.V2P, h]

/-- An allocation keeps the law. -/
theorem lend_inv {res : Option UInt64 × MemState} (hinv : l.Inv whole)
    (hsome : ∀ p s', res = (some p, s') → Lends l.state s' p n)
    (hnone : ∀ s', res = (none, s') → s' = l.state) : (l.lend n res).Inv whole := by
  obtain ⟨p, s'⟩ := res
  cases p with
  | none =>
    cases hnone s' rfl
    exact hinv
  | some p =>
    obtain ⟨hhdm, hstock, hok⟩ := hsome p s' rfl
    refine ⟨hinv.conserves.of_perm ?_, hok⟩
    refine perm_of_count_eq fun a => ?_
    have hcount := hstock.count_eq a
    simp only [stock, V2P_congr hhdm, List.count_append] at hcount
    simp only [lend, freePages, uncarvedPages, outPages, V2P_congr hhdm, List.flatten_cons,
      List.flatten_nil, List.flatMap_cons, List.count_append, List.append_nil]
    omega

/-- Freeing a block that is handed out keeps the law. -/
theorem takeBack_inv {ptr : UInt64} {res : Except String MemState} (hinv : l.Inv whole)
    (hmem : (ptr, n) ∈ l.out) (hok : ∀ s', res = .ok s' → ∃ pushed,
      s' = { l.state with freepages := pushed ++ l.state.freepages } ∧
        (pushed.map l.state.V2P).Perm (blockPages (l.state.V2P ptr) n))
    (h : l.takeBack (ptr, n) res = .ok l') : l'.Inv whole := by
  cases res with
  | error e => exact absurd h (by simp [takeBack])
  | ok s' =>
    cases h
    obtain ⟨pushed, rfl, hpushed⟩ := hok s' rfl
    refine ⟨hinv.conserves.of_perm ?_, hinv.aligned⟩
    refine perm_of_count_eq fun a => ?_
    have hfree := hpushed.count_eq a
    have hout := ((List.perm_cons_erase hmem).flatMap_right
      fun b => blockPages (l.state.V2P b.1) b.2).count_eq a
    have hV2P : MemState.V2P { l.state with freepages := pushed ++ l.state.freepages }
        = l.state.V2P := rfl
    simp only [List.flatMap_cons, List.count_append] at hout
    simp only [freePages, uncarvedPages, outPages, hV2P, List.map_append, List.flatten_cons,
      List.flatten_nil, List.count_append, List.append_nil]
    omega

/-- Every call keeps the law. -/
theorem step_inv {op : PageOp} (hinv : l.Inv whole) (hop : l.Allowed op)
    (hstep : l.step op = .ok l') : l'.Inv whole := by
  cases op with
  | kalloc =>
    cases hstep
    exact lend_inv hinv (fun p s' => kallocFill_lends hinv.aligned) fun s' => kallocFill_none
  | kcalloc =>
    cases hstep
    exact lend_inv hinv (fun p s' => kallocFill_lends hinv.aligned) fun s' => kallocFill_none
  | kallocForPageCache =>
    cases hstep
    exact lend_inv hinv (fun p s' => kallocForPageCache_lends hinv.aligned)
      fun s' => kallocForPageCache_none
  | kallocPages n =>
    cases hstep
    have hn : n.toNat * 4096 < 2 ^ 64 := by
      have : n.toNat ≤ 2 ^ 20 := hop
      omega
    exact lend_inv hinv (fun p s' => kallocPages_lends hinv.aligned hn)
      fun s' => kallocPages_none
  | kfree page =>
    refine takeBack_inv hinv hop (fun s' hs' => ?_) hstep
    refine ⟨[page], kfree_eq_ok hs', ?_⟩
    rw [blockPages_one]
    exact List.Perm.refl _
  | kfreePages ptr n =>
    refine takeBack_inv hinv hop (fun s' hs' => ?_) hstep
    simp only [kfreePages] at hs'
    split at hs'
    · rename_i hzero
      cases hs'
      refine ⟨[], rfl, ?_⟩
      rw [hzero]
      exact List.Perm.refl _
    · split at hs'
      · exact absurd hs' (by simp)
      · obtain ⟨pushed, hs, hperm⟩ := kfreePagesFrom_spec hs'
        refine ⟨pushed, hs, ?_⟩
        simpa using hperm

/-- The law holds in every reachable state. -/
theorem Reachable.inv {s₀ : MemState} (hfree : s₀.freepages = []) (hreg : RegionsOk s₀.regions)
    (h : Reachable s₀ l) : l.Inv (s₀.regions.flatMap regionPages) := by
  induction h with
  | init =>
    refine ⟨?_, hreg.aligned⟩
    simp [Conserves, freePages, uncarvedPages, outPages, hfree]
  | step _ hop hstep ih => exact step_inv ih hop hstep

end Ledger

/-- No page of an aligned range is the last page of the address space. -/
theorem page_lt_of_mem (hok : ∀ r ∈ regions, RegionOk r) (hp : p ∈ regions.flatMap regionPages) :
    p.toNat + 8192 ≤ 2 ^ 64 := by
  obtain ⟨r, hr, hp⟩ := List.mem_flatMap.mp hp
  obtain ⟨hal, hlo, hhi⟩ := (mem_regionPages (hok r hr) p).mp hp
  have hend := (hok r hr).endAligned
  have hlt := r.physEnd.toNat_lt
  omega

/-- A block none of whose pages is the last page of the address space does not wrap. -/
theorem toNat_block_of_lt (h : ∀ q ∈ blockPages base n, q.toNat + 8192 ≤ 2 ^ 64) :
    ∀ i < n, (base + UInt64.ofNat i * PAGE_SIZE.toUInt64).toNat = base.toNat + i * 4096 := by
  intro i
  induction i with
  | zero => intro _; simp
  | succ i ih =>
    intro hi
    have hprev := h (base + UInt64.ofNat i * PAGE_SIZE.toUInt64)
      (List.mem_map.mpr ⟨i, List.mem_range.mpr (by omega), rfl⟩)
    rw [ih (by omega)] at hprev
    exact toNat_block_page (by omega)

/-- Physical page ownership. From disjoint page-aligned regions and an empty free list, in
every reachable state:

- the free list has no repeated page, and no page is handed out twice;
- the free list, the uncarved parts of the regions and the pages handed out are pairwise
  disjoint, and together they are exactly the first pages of the regions;
- a block that `kalloc_pages` returns consists of `n` consecutive physical pages of the
  regions, none of which is handed out to anyone else;
- the calls for one page return one while there is a free or an uncarved page, and `kalloc_pages`
  returns a block when a region has the pages;
- no pointer that is handed out is `NULL`, unless the direct map has a page of the regions at the
  address 0. -/
theorem pages_conserved (s₀ : MemState) (hfree : s₀.freepages = [])
    (hreg : RegionsOk s₀.regions) (l : Ledger) (h : Ledger.Reachable s₀ l) :
    l.freePages.Nodup ∧ l.outPages.Nodup ∧
    l.freePages.Disjoint l.uncarvedPages ∧ l.freePages.Disjoint l.outPages ∧
    l.uncarvedPages.Disjoint l.outPages ∧
    (∀ p, (p ∈ l.freePages ∨ p ∈ l.uncarvedPages ∨ p ∈ l.outPages) ↔
      ∃ r ∈ s₀.regions, HasPage r p.toNat) ∧
    (∀ (n p : UInt64) (s' : MemState), n.toNat ≤ 2 ^ 20 → kallocPages l.state n = (some p, s') →
      ∀ i < n.toNat, ∃ q, q.toNat = (l.state.V2P p).toNat + i * 4096 ∧
        (∃ r ∈ s₀.regions, HasPage r q.toNat) ∧ q ∉ l.outPages) ∧
    (l.freePages ≠ [] ∨ l.uncarvedPages ≠ [] → (kalloc l.state).1.isSome ∧
      (kcalloc l.state).1.isSome ∧ (kallocForPageCache l.state).1.isSome) ∧
    (∀ n : UInt64, 0 < n.toNat →
      (∃ r ∈ l.state.regions, r.physCur.toNat + n.toNat * 4096 ≤ r.physEnd.toNat) →
        (kallocPages l.state n).1.isSome) ∧
    ((∀ q : UInt64, (∃ r ∈ s₀.regions, HasPage r q.toNat) → l.state.P2V q ≠ 0) →
      ∀ b ∈ l.out, 0 < b.2 → b.1 ≠ 0) := by
  have hinv := Ledger.Reachable.inv hfree hreg h
  have hnodup := nodup_regionsPages hreg
  have hdis := hinv.conserves.pairwise_disjoint hnodup
  simp only [List.pairwise_cons, List.mem_cons, List.not_mem_nil, or_false, forall_eq_or_imp,
    forall_eq, IsEmpty.forall_iff, implies_true, and_true, List.Pairwise.nil] at hdis
  obtain ⟨⟨hfu, hfo⟩, huo⟩ := hdis
  have hwhole : ∀ p : UInt64, p ∈ s₀.regions.flatMap regionPages ↔
      ∃ r ∈ s₀.regions, HasPage r p.toNat := fun p => by
    rw [List.mem_flatMap]
    exact exists_congr fun r => and_congr_right fun hr => mem_regionPages (hreg.aligned r hr) p
  refine ⟨hinv.conserves.nodup hnodup (by simp), hinv.conserves.nodup hnodup (by simp), hfu, hfo,
    huo, fun p => ?_, fun n p s' hn hcall i hi => ?_, fun hsome => ?_,
    fun n => kallocPages_of_region hinv.aligned, fun hmapped b hb hpos => ?_⟩
  · rw [← hwhole, hinv.conserves.mem_iff]
    simp
  · -- The block comes out of the stock, so its pages are first pages that nobody holds.
    have hlend := kallocPages_lends hinv.aligned (by omega) hcall
    have hstock : ∀ q ∈ blockPages (l.state.V2P p) n.toNat,
        q ∈ l.freePages ∨ q ∈ l.uncarvedPages := fun q hq =>
      List.mem_append.mp (hlend.stock.symm.mem_iff.mp (List.mem_append_left _ hq))
    have hfirst : ∀ q ∈ blockPages (l.state.V2P p) n.toNat,
        q ∈ s₀.regions.flatMap regionPages := fun q hq => by
      rw [hinv.conserves.mem_iff]
      rcases hstock q hq with hq | hq
      · exact ⟨_, by simp, hq⟩
      · exact ⟨l.uncarvedPages, by simp, hq⟩
    have hi' : l.state.V2P p + UInt64.ofNat i * PAGE_SIZE.toUInt64
        ∈ blockPages (l.state.V2P p) n.toNat :=
      List.mem_map.mpr ⟨i, List.mem_range.mpr hi, rfl⟩
    refine ⟨_, toNat_block_of_lt (fun q hq => page_lt_of_mem hreg.aligned (hfirst q hq)) i hi,
      (hwhole _).mp (hfirst _ hi'), fun hout => ?_⟩
    rcases hstock _ hi' with hq | hq
    · exact hfo hq hout
    · exact huo hq hout
  · have hstock : stock l.state ≠ [] := by
      intro hempty
      obtain ⟨hfree, huncarved⟩ := List.append_eq_nil_iff.mp hempty
      exact hsome.elim (fun h => h hfree) (fun h => h huncarved)
    refine ⟨kallocFill_isSome hstock 2, kallocFill_isSome hstock 0, ?_⟩
    rw [kallocForPageCache_isSome l.state 2]
    exact kallocFill_isSome hstock 2
  · -- The first page of the block is a page of the regions.
    have hpage : l.state.V2P b.1 ∈ l.outPages := by
      refine List.mem_flatMap.mpr ⟨b, hb, List.mem_map.mpr ⟨0, List.mem_range.mpr hpos, ?_⟩⟩
      simp
    have hfirst : l.state.V2P b.1 ∈ s₀.regions.flatMap regionPages := by
      rw [hinv.conserves.mem_iff]
      exact ⟨l.outPages, by simp, hpage⟩
    have hne := hmapped _ ((hwhole _).mp hfirst)
    rwa [P2V_V2P] at hne

/-- An allocator with two pages at 1 MiB. -/
def twoPages : MemState :=
  { MemState.boot Bytes.zero with regions := [{ physCur := 0x100000, physEnd := 0x102000 }] }

/-- Both pages are handed out as a block. -/
def blockTaken : Ledger := Ledger.lend ⟨twoPages, []⟩ 2 (kallocPages twoPages 2)

/-- The block is free again. -/
def blockFreed : Ledger :=
  ⟨{ blockTaken.state with freepages := [0x101000, 0x100000] }, []⟩

/-- The law at the two-page allocator, after a block of two pages was taken and freed. -/
theorem pages_conserved_twoPages :
    RegionsOk twoPages.regions ∧ Ledger.Reachable twoPages blockFreed ∧
      blockTaken.out = [(0x100000, 2)] ∧ blockFreed.freePages.Nodup ∧
      (kalloc blockFreed.state).1.isSome := by
  have hreg : RegionsOk twoPages.regions :=
    { aligned := fun r hr => by
        rw [List.mem_singleton.mp hr]
        exact ⟨by decide, by decide, by decide⟩
      disjoint := List.pairwise_singleton _ _ }
  have htaken : Ledger.Reachable twoPages blockTaken :=
    @Ledger.Reachable.step twoPages _ _ (.kallocPages 2) Ledger.Reachable.init
      (show (2 : UInt64).toNat ≤ 2 ^ 20 by decide) rfl
  have hfreed : Ledger.Reachable twoPages blockFreed :=
    @Ledger.Reachable.step twoPages _ _ (.kfreePages 0x100000 2) htaken
      (show (0x100000, 2) ∈ [(0x100000, 2)] from List.mem_singleton.mpr rfl) rfl
  have hlaw := pages_conserved twoPages rfl hreg _ hfreed
  exact ⟨hreg, hfreed, rfl, hlaw.1,
    (hlaw.2.2.2.2.2.2.2.1 (Or.inl (List.cons_ne_nil _ _))).1⟩

end DzOS.Proofs.Mem
