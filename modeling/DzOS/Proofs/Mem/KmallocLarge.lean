import DzOS.Proofs.Mem.BlockReuse

/-!
# `DzOS.Proofs.Mem.KmallocLarge`: large blocks of the kernel heap

A request above `KM_MAX_SMALL` bytes gets pages of its own, with `km_large_hdr` at the front.
The number of pages is `PAGE_ROUND_UP(total) / PAGE_SIZE`, and the macro cuts its result to 32
bits. `toNat_largePages` says what comes out for every 64-bit request, also where `km_align_up`
or the sum for the header wraps around.

`kmalloc_large_iff` says for which requests the block is as large as it has to be. `kmfree` gives
back the pages that the header counts, so it returns the pages of the block in every case
(`kmfree_large`).
-/

set_option autoImplicit false

namespace DzOS.Proofs.Mem

open DzOS.Lib DzOS.Mem

variable {s s' s₁ : KmState} {n p base : UInt64} {mem : MemState}

/-- The number of pages that `kmalloc` asks for. -/
def largePages (n : UInt64) : UInt64 :=
  PAGE_ROUND_UP (kmAlignUp n KM_ALIGN + sizeofLargeHdr) / PAGE_SIZE.toUInt64

/-- `km_align_up` to 16 bytes, modulo the word size. -/
theorem toNat_kmAlignUp_mod (n : UInt64) :
    (kmAlignUp n KM_ALIGN).toNat = alignedSize n % 2 ^ 64 := by
  have hlt := n.toNat_lt
  have hsum : (n + (KM_ALIGN - 1)).toNat = (n.toNat + 15) % 2 ^ 64 := by
    rw [UInt64.toNat_add, show (KM_ALIGN - 1).toNat = 15 by decide]
  rw [kmAlignUp, toNat_and_shifted_mask _ _ 60 4 (by decide), hsum, alignedSize]
  omega

/-- `PAGE_ROUND_UP` for every argument: the sum has 64 bits, and the result 32. -/
theorem toNat_PAGE_ROUND_UP_mod (a : UInt64) :
    (PAGE_ROUND_UP a).toNat = (a.toNat + 4095) % 2 ^ 32 / 4096 * 4096 := by
  have hlt := a.toNat_lt
  have hsum : (a + PAGE_SIZE.toUInt64 - 1).toNat = (a.toNat + 4095) % 2 ^ 64 := by
    rw [UInt64.toNat_sub, UInt64.toNat_add, toNat_PAGE_SIZE_toUInt64, UInt64.toNat_one]
    omega
  rw [PAGE_ROUND_UP, toNat_and_shifted_mask _ pageMask 20 12 (by decide), hsum]
  omega

/-- The number of pages for every request. -/
theorem toNat_largePages (n : UInt64) :
    (largePages n).toNat = (alignedSize n + 4111) % 2 ^ 32 / 4096 := by
  have htotal : (kmAlignUp n KM_ALIGN + sizeofLargeHdr).toNat = (alignedSize n + 16) % 2 ^ 64 := by
    rw [UInt64.toNat_add, toNat_kmAlignUp_mod, show sizeofLargeHdr.toNat = 16 from rfl]
    omega
  rw [largePages, UInt64.toNat_div, toNat_PAGE_ROUND_UP_mod, htotal, toNat_PAGE_SIZE_toUInt64]
  omega

/-- The pages hold the request and the header when nothing was cut off. -/
theorem fits_of_le (h : n.toNat ≤ 2 ^ 32 - 4112) :
    n.toNat + 16 ≤ (largePages n).toNat * 4096 := by
  rw [toNat_largePages, alignedSize]
  omega

/-- A request whose number of pages was cut has too few of them. -/
theorem cut_of_lt (h : 2 ^ 32 - 4112 < n.toNat) :
    (largePages n).toNat * 4096 < n.toNat + 16 := by
  rw [toNat_largePages, alignedSize] at *
  omega

/-! ### The run of `kmalloc` -/

/-- A request above `KM_MAX_SMALL`. -/
theorem large_request (hn : 2048 < n.toNat) : n ≠ 0 ∧ ¬ n ≤ KM_MAX_SMALL := by
  constructor
  · rintro rfl
    exact absurd hn (by decide)
  · rw [UInt64.le_iff_toNat_le]
    show ¬ n.toNat ≤ 2048
    omega

/-- A large request when `kalloc_pages` has a block. -/
theorem kmalloc_large_some (hn : 2048 < n.toNat)
    (h : kallocPages s.mem (largePages n) = (some base, mem)) :
    kmalloc s n = (some (base + sizeofLargeHdr),
      storeHeader { s with mem := mem } base KM_MAGIC_LARGE.toNat (largePages n).toNat 0 0) := by
  obtain ⟨hne, hlarge⟩ := large_request hn
  rw [kmalloc, if_neg hne]
  dsimp only
  rw [if_neg hlarge, ← largePages, h]
  rfl

/-- A large request when `kalloc_pages` has no block. -/
theorem kmalloc_large_none (hn : 2048 < n.toNat)
    (h : kallocPages s.mem (largePages n) = (none, mem)) :
    kmalloc s n = (none, { s with mem := mem }) := by
  obtain ⟨hne, hlarge⟩ := large_request hn
  rw [kmalloc, if_neg hne]
  dsimp only
  rw [if_neg hlarge, ← largePages, h]

/-- No block has 0 pages. -/
theorem largePages_pos (h : kallocPages s.mem (largePages n) = (some base, mem)) :
    0 < (largePages n).toNat := by
  rw [Nat.pos_iff_ne_zero]
  intro hzero
  have hn : largePages n = 0 := UInt64.toNat_inj.mp hzero
  rw [hn, kallocPages, if_pos rfl] at h
  cases h

/-- The block starts at a page, and so does the allocator's account of it. -/
theorem largeBlock_aligned (hok : PagesOk s.mem)
    (h : kallocPages s.mem (largePages n) = (some base, mem)) :
    base.toNat % 4096 = 0 ∧ mem.hhdmOffset = s.mem.hhdmOffset := by
  have hpos := largePages_pos h
  -- The number of pages was computed in 32 bits.
  have hsize : (largePages n).toNat * 4096 < 2 ^ 64 := by
    rw [toNat_largePages]
    omega
  have hlends := kallocPages_lends hok.regions hsize h
  refine ⟨hok.aligned_of_V2P (hlends.stock.symm.mem_iff.mp (List.mem_append_left _ ?_)),
    hlends.hhdm⟩
  obtain ⟨m, hm⟩ := Nat.exists_eq_add_of_le' hpos
  rw [hm, blockPages_cons]
  exact List.mem_cons_self

/-! ### The run of `kmfree` -/

/-- The header of the block at `base` is as it was when `kmalloc` left it in the state `s`. -/
structure HeaderKept (s s₁ : KmState) (base : UInt64) : Prop where
  hhdm : s₁.mem.hhdmOffset = s.mem.hhdmOffset
  magic : field s₁ base 4 0 = field s base 4 0
  pages : field s₁ base 4 4 = field s base 4 4

/-- `kmfree` of a large block gives back as many pages as the header says. -/
theorem kmfree_large (hhdm : s₁.mem.hhdmOffset.toNat % 4096 = 0) (hbase : base.toNat % 4096 = 0)
    (hmagic : field s₁ base 4 0 = KM_MAGIC_LARGE.toNat) {k : Nat} (hk : k < 2 ^ 32)
    (hpages : field s₁ base 4 4 = k) :
    kmfree s₁ (base + sizeofLargeHdr) = .ok { s₁ with mem := { s₁.mem with
      freepages := (blockPages base k).reverse ++ s₁.mem.freepages } } := by
  have hptr : (base + sizeofLargeHdr).toNat = base.toNat + 16 := toNat_page_add (a := 16) hbase
    (by omega)
  have hne : base + sizeofLargeHdr ≠ 0 := by
    intro h
    rw [h] at hptr
    exact absurd hptr (by rw [UInt64.toNat_zero]; omega)
  have hpage : pageBase (base + sizeofLargeHdr) = base := by
    rw [← UInt64.toNat_inj, toNat_pageBase, hptr]
    omega
  have hlh : base + sizeofLargeHdr - sizeofLargeHdr = base := by simp
  have hload : s₁.load 4 base = KM_MAGIC_LARGE.toNat := by
    rw [← hmagic, field]
    simp
  have hcount : UInt64.ofNat (s₁.load 4 (base + 4)) = UInt64.ofNat k := by
    rw [← hpages]
    rfl
  have hk' : (UInt64.ofNat k).toNat = k := by
    rw [UInt64.toNat_ofNat']
    omega
  -- The word at the start of the page tells a large block from the other kinds.
  have hkinds : UInt32.ofNat KM_MAGIC_LARGE.toNat ≠ KM_MAGIC_MIXED ∧
      UInt32.ofNat KM_MAGIC_LARGE.toNat ≠ KM_MAGIC_ARENA ∧
      UInt32.ofNat KM_MAGIC_LARGE.toNat ≠ KM_MAGIC_SMALL ∧
      UInt32.ofNat KM_MAGIC_LARGE.toNat = KM_MAGIC_LARGE := by decide
  obtain ⟨hmixed, harena, hsmall, hlarge⟩ := hkinds
  rw [kmfree, if_neg hne]
  simp only [hpage, hload, hlh]
  rw [if_neg hmixed, if_neg harena, if_neg hsmall, if_pos hlarge, if_pos hlarge, hcount,
    kfreePages_ok hhdm hbase, hk']

/-! ### The law of large blocks -/

/-- The request is served as it should be: a block holds it, and `kmfree` gives back the pages of
the block. -/
def LargeServed (s : KmState) (n : UInt64) : Prop :=
  ∀ p s', kmalloc s n = (some p, s') →
    ∃ base mem, kallocPages s.mem (largePages n) = (some base, mem) ∧
      base.toNat ≤ p.toNat ∧ p.toNat + n.toNat ≤ base.toNat + (largePages n).toNat * 4096 ∧
      ∀ s₁, HeaderKept s' s₁ base → kmfree s₁ p = .ok { s₁ with mem := { s₁.mem with
        freepages := (blockPages base (largePages n).toNat).reverse ++ s₁.mem.freepages } }

/-- A block gives back its pages, whether it holds the request or not. -/
theorem kmfree_of_kmalloc (hok : PagesOk s.mem) (hn : 2048 < n.toNat)
    (h : kallocPages s.mem (largePages n) = (some base, mem))
    (hkept : HeaderKept (kmalloc s n).2 s₁ base) :
    kmfree s₁ (base + sizeofLargeHdr) = .ok { s₁ with mem := { s₁.mem with
      freepages := (blockPages base (largePages n).toNat).reverse ++ s₁.mem.freepages } } := by
  obtain ⟨hbase, hhdm⟩ := largeBlock_aligned hok h
  have hhdm' : ({ s with mem := mem } : KmState).mem.hhdmOffset.toNat % 4096 = 0 := by
    show mem.hhdmOffset.toNat % 4096 = 0
    rw [hhdm]
    exact hok.hhdm
  obtain ⟨hwrites, hmagic, hpages, -⟩ :=
    storeHeader_spec hhdm' hbase KM_MAGIC_LARGE.toNat (largePages n).toNat 0 0
  -- The header has 32 bits for the number of pages.
  have hlt : (largePages n).toNat < 2 ^ 32 := by
    rw [toNat_largePages]
    omega
  rw [kmalloc_large_some hn h] at hkept
  refine kmfree_large ?_ hbase ?_ hlt ?_
  · rw [hkept.hhdm]
    exact hwrites.aligned hhdm'
  · rw [hkept.magic, hmagic]
    decide
  · rw [hkept.pages, hpages]
    omega

/-- Take a request above `KM_MAX_SMALL` bytes. It is served as it should be if and only if the
request with its header is not cut to 32 bits, or the cut leaves no page, or there is no block of
the pages that are left. In the last two cases the result is `NULL`. -/
theorem kmalloc_large_iff (s : KmState) (n : UInt64) (hok : PagesOk s.mem)
    (hn : 2048 < n.toNat) :
    (LargeServed s n ∧
      ∀ mem, kallocPages s.mem (largePages n) = (none, mem) → (kmalloc s n).1 = none) ↔
    n.toNat ≤ 2 ^ 32 - 4112 ∨ (alignedSize n + 4111) % 2 ^ 32 < 4096 ∨
      (kallocPages s.mem (UInt64.ofNat ((alignedSize n + 4111) % 2 ^ 32 / 4096))).1 = none := by
  have hcount : UInt64.ofNat ((alignedSize n + 4111) % 2 ^ 32 / 4096) = largePages n := by
    rw [← UInt64.toNat_inj, toNat_largePages, UInt64.toNat_ofNat']
    omega
  rw [hcount]
  constructor
  · rintro ⟨hserved, -⟩
    -- A block of a cut number of pages does not hold the request.
    by_contra! hc
    obtain ⟨hbig, -, hsome⟩ := hc
    obtain ⟨base, hbase⟩ := Option.ne_none_iff_exists'.mp hsome
    have h : kallocPages s.mem (largePages n) = (some base, (kallocPages s.mem (largePages n)).2) :=
      Prod.ext hbase rfl
    obtain ⟨base', mem', h', hlo, hhi, -⟩ := hserved _ _ (kmalloc_large_some hn h)
    rw [h] at h'
    cases h'
    have hptr : (base + sizeofLargeHdr).toNat = base.toNat + 16 :=
      toNat_page_add (a := 16) (largeBlock_aligned hok h).1 (by omega)
    have := cut_of_lt hbig
    omega
  · intro hcond
    refine ⟨?_, fun mem h => by rw [kmalloc_large_none hn h]⟩
    intro p s' hrun
    rcases h : kallocPages s.mem (largePages n) with ⟨_ | base, mem⟩
    · rw [kmalloc_large_none hn h] at hrun
      cases hrun
    · have hptr : (base + sizeofLargeHdr).toNat = base.toNat + 16 :=
        toNat_page_add (a := 16) (largeBlock_aligned hok h).1 (by omega)
      -- There is a block, so the request was not cut.
      have hle : n.toNat ≤ 2 ^ 32 - 4112 := by
        rcases hcond with hle | hzero | hnone
        · exact hle
        · have := largePages_pos h
          rw [toNat_largePages] at this
          omega
        · rw [h] at hnone
          cases hnone
      have hfits := fits_of_le hle
      have hfree := fun s₁ (hkept : HeaderKept (kmalloc s n).2 s₁ base) =>
        kmfree_of_kmalloc hok hn h hkept
      rw [kmalloc_large_some hn h] at hrun hfree
      obtain ⟨rfl, rfl⟩ := Prod.mk.inj hrun |>.imp Option.some.inj id
      exact ⟨base, mem, rfl, by omega, by omega, hfree⟩

/-- A request of 4 GiB gets the only page that there is. -/
theorem kmalloc_four_gib :
    (kmalloc (kmallocInit onePage) 0x100000000).1 = some 0x1010 ∧
    (largePages 0x100000000).toNat = 1 ∧ ¬ LargeServed (kmallocInit onePage) 0x100000000 := by
  have hptr : (kmalloc (kmallocInit onePage) 0x100000000).1 = some 0x1010 := by decide +kernel
  have hpages : (largePages 0x100000000).toNat = 1 := by decide
  refine ⟨hptr, hpages, fun h => ?_⟩
  obtain ⟨base, mem, -, hlo, hhi, -⟩ := h 0x1010 _ (Prod.ext hptr rfl)
  rw [hpages, show (0x100000000 : UInt64).toNat = 0x100000000 from rfl] at hhi
  omega

/-- The pages of `twoPages` are in order. -/
theorem pagesOk_twoPages : PagesOk twoPages := by
  have hstock : stock twoPages = [0x100000, 0x101000] := by rfl
  refine ⟨by decide, fun r hr => ?_, by rw [hstock]; decide, ?_⟩
  · rw [List.mem_singleton.mp hr]
    exact ⟨by decide, by decide, by decide⟩
  · rw [hstock]
    simp only [List.mem_cons, List.not_mem_nil, or_false, forall_eq_or_imp, forall_eq]
    decide

/-- The law for the buffer of a path, which gets both pages of `twoPages`. -/
theorem kmalloc_large_twoPages :
    (kmalloc (kmallocInit twoPages) 4096).1 = some 0x100010 ∧
    LargeServed (kmallocInit twoPages) 4096 :=
  ⟨by decide +kernel,
    ((kmalloc_large_iff (kmallocInit twoPages) 4096 pagesOk_twoPages (by decide)).mpr
      (Or.inl (by decide))).1⟩

end DzOS.Proofs.Mem
