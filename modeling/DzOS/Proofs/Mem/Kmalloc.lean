import DzOS.Lib.Mask
import DzOS.Mem.Kmalloc
import DzOS.Proofs.Mem.PageOwnership

/-!
# `DzOS.Proofs.Mem.Kmalloc`: when the kernel heap stays inside its own pages

`KmRun` is the heap together with the live allocations. Between the calls the rest of the
kernel may do what it likes with memory (`RestOk`), as long as it leaves the headers of the
mixed pages and the mixed pages themselves to `kmalloc.c`.

The search for a mixed page adds `PAGE_SIZE` to the head pointer, so behind the head page it
reads pages that belong to others. `NoForeignFit` says that it does not run into such a page
that looks as if it had room. `kmalloc_sound` says that in every run of calls with
`NoForeignFit` the heap writes and returns only bytes of its own pages and live allocations do
not overlap, and that a call without it writes to a page that is not its own.
-/

set_option autoImplicit false

namespace DzOS.Proofs.Mem

open DzOS.Lib DzOS.Mem

variable {a w fuel v : Nat} {page P n p q total : UInt64} {s s' : KmState} {mem : MemState}

/-! ### Addresses -/

/-- The number of bytes that an object of `n` bytes takes, without its header. -/
def alignedSize (n : UInt64) : Nat := (n.toNat + 15) / 16 * 16

/-- `km_align_up` rounds up to a multiple of 16. -/
theorem toNat_kmAlignUp (h : n.toNat < 2 ^ 63) : (kmAlignUp n KM_ALIGN).toNat = alignedSize n := by
  have hsum : (n + (KM_ALIGN - 1)).toNat = n.toNat + 15 := by
    rw [UInt64.toNat_add, show (KM_ALIGN - 1).toNat = 15 by decide]; omega
  rw [kmAlignUp, toNat_and_shifted_mask _ _ 60 4 (by decide), hsum, alignedSize]
  omega

/-- The 64-bit mask of `kmfree` rounds down to the page. -/
theorem toNat_pageBase (p : UInt64) : (pageBase p).toNat = p.toNat / 4096 * 4096 := by
  have hlt := p.toNat_lt
  rw [pageBase, toNat_and_shifted_mask _ _ 52 12 (by decide)]
  omega

/-- An address inside a page. -/
theorem toNat_page_add (hP : P.toNat % 4096 = 0) (ha : a < 4096) :
    (P + UInt64.ofNat a).toNat = P.toNat + a := by
  have hlt := P.toNat_lt
  rw [UInt64.toNat_add, UInt64.toNat_ofNat']
  omega

/-- The physical address behind an address inside a page. -/
theorem toNat_V2P_page_add {s : MemState} (hhdm : s.hhdmOffset.toNat % 4096 = 0)
    (hP : P.toNat % 4096 = 0) (ha : a < 4096) :
    (s.V2P (P + UInt64.ofNat a)).toNat = (s.V2P P).toNat + a := by
  have hlt := P.toNat_lt
  have hlt' := s.hhdmOffset.toNat_lt
  have hsum := toNat_page_add hP ha
  rw [MemState.V2P, MemState.V2P, UInt64.toNat_sub, UInt64.toNat_sub, hsum]
  omega

/-- The physical address of a page is page-aligned. -/
theorem V2P_aligned {s : MemState} (hhdm : s.hhdmOffset.toNat % 4096 = 0)
    (hP : P.toNat % 4096 = 0) :
    (s.V2P P).toNat % 4096 = 0 := by
  have hlt := P.toNat_lt
  have hlt' := s.hhdmOffset.toNat_lt
  rw [MemState.V2P, UInt64.toNat_sub]
  omega

/-- Different pointers have different physical addresses. -/
theorem V2P_inj {s : MemState} (h : s.V2P p = s.V2P q) : p = q := by
  have := congrArg (· + s.hhdmOffset) h
  simpa [MemState.V2P] using this

/-! ### Loads and stores inside pages -/

/-- The `w`-byte value at offset `a` of the page `P`. -/
def field (s : KmState) (P : UInt64) (w a : Nat) : Nat := s.load w (P + UInt64.ofNat a)

/-- The store lies inside the page. -/
def InPage (P : UInt64) (st : UInt64 × Nat) : Prop :=
  P.toNat ≤ st.1.toNat ∧ st.1.toNat + st.2 ≤ P.toNat + 4096

/-- What a few stores into the page `P` do to the state. -/
structure WritesPage (s s' : KmState) (P : UInt64) : Prop where
  hhdm : s'.mem.hhdmOffset = s.mem.hhdmOffset
  freepages : s'.mem.freepages = s.mem.freepages
  regions : s'.mem.regions = s.mem.regions
  head : s'.mixedPageHead = s.mixedPageHead
  mixedPages : s'.mixedPages = s.mixedPages
  stores : ∃ new, s'.stores = new ++ s.stores ∧ ∀ st ∈ new, InPage P st
  field : ∀ Q w b, Q.toNat % 4096 = 0 → Q ≠ P → b + w ≤ 4096 → b < 4096 →
    field s' Q w b = field s Q w b

/-- The direct map stays aligned. -/
theorem WritesPage.aligned (h : WritesPage s s' P) (hhdm : s.mem.hhdmOffset.toNat % 4096 = 0) :
    s'.mem.hhdmOffset.toNat % 4096 = 0 := by
  rw [h.hhdm]
  exact hhdm

theorem WritesPage.refl (s : KmState) (P : UInt64) : WritesPage s s P :=
  ⟨rfl, rfl, rfl, rfl, rfl, ⟨[], rfl, fun st h => by cases h⟩, fun _ _ _ _ _ _ _ => rfl⟩

theorem WritesPage.trans {s'' : KmState} (h : WritesPage s s' P) (h' : WritesPage s' s'' P) :
    WritesPage s s'' P where
  hhdm := h'.hhdm.trans h.hhdm
  freepages := h'.freepages.trans h.freepages
  regions := h'.regions.trans h.regions
  head := h'.head.trans h.head
  mixedPages := h'.mixedPages.trans h.mixedPages
  stores := by
    obtain ⟨new, hnew, hin⟩ := h.stores
    obtain ⟨new', hnew', hin'⟩ := h'.stores
    refine ⟨new' ++ new, by rw [hnew', hnew, List.append_assoc], fun st hst => ?_⟩
    rcases List.mem_append.mp hst with hst | hst
    · exact hin' st hst
    · exact hin st hst
  field := fun Q w b h1 h2 h3 h4 => (h'.field Q w b h1 h2 h3 h4).trans (h.field Q w b h1 h2 h3 h4)

@[simp] theorem store_mixedPages (s : KmState) (w : Nat) (ptr : UInt64) (v : Nat) :
    (s.store w ptr v).mixedPages = s.mixedPages := rfl

@[simp] theorem store_stores (s : KmState) (w : Nat) (ptr : UInt64) (v : Nat) :
    (s.store w ptr v).stores = (ptr, w) :: s.stores := rfl

/-- The field that was stored. -/
theorem field_store_self (s : KmState) (P : UInt64) (w a v : Nat) :
    field (s.store w (P + UInt64.ofNat a) v) P w a = v % 256 ^ w := by
  show (s.mem.mem.setLE w _ v).getLE w _ = _
  exact Bytes.getLE_setLE_self _ _ _ _

section Store

variable {s : KmState} {P : UInt64} (hhdm : s.mem.hhdmOffset.toNat % 4096 = 0)
  (hP : P.toNat % 4096 = 0)

include hhdm hP

/-- A field keeps its value when a store goes elsewhere. -/
theorem field_store_of_apart {Q : UInt64} {w' b : Nat} (hQ : Q.toNat % 4096 = 0) (ha : a < 4096)
    (haw : a + w ≤ 4096) (hb : b < 4096) (hbw : b + w' ≤ 4096)
    (h : Q ≠ P ∨ b + w' ≤ a ∨ a + w ≤ b) :
    field (s.store w (P + UInt64.ofNat a) v) Q w' b = field s Q w' b := by
  have h1 := toNat_V2P_page_add hhdm hP ha
  have h2 := toNat_V2P_page_add hhdm hQ hb
  have h3 := V2P_aligned hhdm hP
  have h4 := V2P_aligned hhdm hQ
  have hne : Q ≠ P → (s.mem.V2P Q).toNat ≠ (s.mem.V2P P).toNat :=
    fun hne heq => hne (V2P_inj (UInt64.toNat.inj heq))
  show (s.mem.mem.setLE w (s.mem.V2P (P + UInt64.ofNat a)).toNat v).getLE w'
    (s.mem.V2P (Q + UInt64.ofNat b)).toNat =
      s.mem.mem.getLE w' (s.mem.V2P (Q + UInt64.ofNat b)).toNat
  rw [h1, h2, Bytes.getLE_setLE_of_apart]
  rcases h with h | h | h
  · have := hne h
    omega
  all_goals
    by_cases hQP : Q = P
    · subst hQP
      omega
    · have := hne hQP
      omega

/-- A store inside the page. -/
theorem writesPage_store (v : Nat) (ha : a < 4096) (haw : a + w ≤ 4096) :
    WritesPage s (s.store w (P + UInt64.ofNat a) v) P where
  hhdm := rfl
  freepages := rfl
  regions := rfl
  head := rfl
  mixedPages := rfl
  stores := by
    refine ⟨[(P + UInt64.ofNat a, w)], rfl, fun st hst => ?_⟩
    rw [List.mem_singleton.mp hst]
    have := toNat_page_add hP ha
    constructor
    · simp only; omega
    · simp only; omega
  field := fun Q w' b hQ hne hbw hb =>
    field_store_of_apart hhdm hP hQ ha haw hb hbw (Or.inl hne)

/-- What one store into the page `P` does to the state and to the fields of the page. -/
structure Stores (s s' : KmState) (P : UInt64) (w a v : Nat) : Prop where
  writes : WritesPage s s' P
  aligned : s'.mem.hhdmOffset.toNat % 4096 = 0
  self : field s' P w a = v % 256 ^ w
  apart : ∀ w' b, b < 4096 ∧ b + w' ≤ 4096 ∧ (b + w' ≤ a ∨ a + w ≤ b) →
    field s' P w' b = field s P w' b

theorem stores_store (h : s.store w (P + UInt64.ofNat a) v = s') (ha : a < 4096 ∧ a + w ≤ 4096) :
    Stores s s' P w a v := by
  subst h
  exact ⟨writesPage_store hhdm hP v ha.1 ha.2, hhdm, field_store_self s P w a v,
    fun w' b hb => field_store_of_apart hhdm hP hP ha.1 ha.2 hb.1 hb.2.1 (Or.inr hb.2.2)⟩

end Store

/-! ### Allocating from a page -/

/-- The free offset, as a field. -/
theorem toNat_freeOffset (s : KmState) (P : UInt64) : (freeOffset s P).toNat = field s P 4 8 := by
  have hlt := Bytes.getLE_lt s.mem.mem 4 (s.mem.V2P (P + UInt64.ofNat 8)).toNat
  rw [freeOffset, UInt32.toNat_ofNat']
  exact Nat.mod_eq_of_lt hlt

/-- A page with room, in terms of its free offset. -/
theorem fits_iff (s : KmState) (total P : UInt64) :
    mixedPageFits s total P = true ↔
      field s P 4 8 < 3840 ∧ field s P 4 8 + total.toNat ≤ 4096 := by
  have hoff := toNat_freeOffset s P
  have hlt : freeOffset s P < MIXED_PAGE_MAX_USED ↔ field s P 4 8 < 3840 := by
    rw [UInt32.lt_iff_toNat_lt, hoff, show MIXED_PAGE_MAX_USED.toNat = 3840 by decide]
  simp only [mixedPageFits, Bool.and_eq_true, decide_eq_true_eq, ge_iff_le, hlt,
    UInt64.le_iff_toNat_le, UInt32.toNat_toUInt64, UInt32.toNat_sub, hoff,
    show PAGE_SIZE.toNat = 4096 by decide]
  omega

/-- The address of the `alloc_hdr`, `d` bytes further. -/
theorem ahdr_eq (s : KmState) (P : UInt64) (d : Nat) :
    P + (freeOffset s P).toUInt64 + UInt64.ofNat d = P + UInt64.ofNat (field s P 4 8 + d) := by
  have hoff : (freeOffset s P).toUInt64 = UInt64.ofNat (field s P 4 8) := by
    apply UInt64.toNat.inj
    rw [UInt32.toNat_toUInt64, toNat_freeOffset, UInt64.toNat_ofNat']
    have := Bytes.getLE_lt s.mem.mem 4 (s.mem.V2P (P + UInt64.ofNat 8)).toNat
    have hlt : field s P 4 8 < 256 ^ 4 := this
    omega
  rw [hoff, UInt64.ofNat_add, UInt64.add_assoc]

/-- Allocating from a page that has room. -/
theorem bump_spec (size : UInt64) (hhdm : s.mem.hhdmOffset.toNat % 4096 = 0)
    (hP : P.toNat % 4096 = 0) (hoff : 16 ≤ field s P 4 8)
    (hfit : field s P 4 8 + total.toNat ≤ 4096) (htotal : 20 ≤ total.toNat) :
    (bumpMixedPage s P size total).1.toNat = P.toNat + field s P 4 8 + 4 ∧
    WritesPage s (bumpMixedPage s P size total).2 P ∧
    field (bumpMixedPage s P size total).2 P 4 8 = field s P 4 8 + total.toNat ∧
    field (bumpMixedPage s P size total).2 P 4 0 = field s P 4 0 := by
  generalize hf : field s P 4 8 = f at *
  -- The four stores, one after the other.
  generalize hs₁ : s.store 2 (P + UInt64.ofNat f) size.toNat = s₁
  generalize hs₂ : s₁.store 2 (P + UInt64.ofNat (f + 2)) ALLOC_HDR_MAGIC = s₂
  generalize hs₃ : s₂.store 4 (P + UInt64.ofNat 8) (field s₂ P 4 8 + total.toNat) = s₃
  generalize hs₄ : s₃.store 4 (P + UInt64.ofNat 4) (field s₃ P 4 4 + total.toNat) = s₄
  have hbump : bumpMixedPage s P size total = (P + UInt64.ofNat (f + 4), s₄) := by
    have h0 := ahdr_eq s P 0
    have h2 := ahdr_eq s P 2
    have h4 := ahdr_eq s P 4
    rw [hf] at h0 h2 h4
    rw [show UInt64.ofNat 0 = 0 from rfl, UInt64.add_zero, Nat.add_zero] at h0
    rw [← hs₄, ← hs₃, ← hs₂, ← hs₁, ← h4, ← h2, ← h0]
    rfl
  have h₁ := stores_store hhdm hP hs₁ (by omega)
  have h₂ := stores_store h₁.aligned hP hs₂ (by omega)
  have h₃ := stores_store h₂.aligned hP hs₃ (by omega)
  have h₄ := stores_store h₃.aligned hP hs₄ (by omega)
  have hoff₂ : field s₂ P 4 8 = f := by
    rw [h₂.apart 4 8 (by omega), h₁.apart 4 8 (by omega), hf]
  have hoff₃ : field s₃ P 4 8 = f + total.toNat := by
    rw [h₃.self, hoff₂]
    omega
  have hwrites := ((h₁.writes.trans h₂.writes).trans h₃.writes).trans h₄.writes
  rw [hbump]
  refine ⟨by rw [toNat_page_add hP (by omega)]; omega, hwrites, ?_, ?_⟩
  · rw [h₄.apart 4 8 (by omega), hoff₃]
  · rw [h₄.apart 4 0 (by omega), h₃.apart 4 0 (by omega), h₂.apart 4 0 (by omega),
      h₁.apart 4 0 (by omega)]

/-! ### The search -/

/-- The `k`-th page that the search looks at, from `page` on. -/
def nthPage (page : UInt64) (k : Nat) : UInt64 := page + UInt64.ofNat k * PAGE_SIZE.toUInt64

theorem nthPage_zero (page : UInt64) : nthPage page 0 = page := by simp [nthPage]

theorem nthPage_succ (page : UInt64) (k : Nat) :
    nthPage (page + PAGE_SIZE.toUInt64) k = nthPage page (k + 1) := by
  have hone : UInt64.ofNat 1 * PAGE_SIZE.toUInt64 = PAGE_SIZE.toUInt64 := by decide
  rw [nthPage, nthPage, UInt64.ofNat_add, UInt64.add_mul, hone]
  ac_rfl

/-- A page that the search returns has room, and none before it has. -/
theorem findMixedPage_some (hal : page.toNat % 4096 = 0)
    (h : findMixedPage s total fuel page = some q) :
    ∃ k, q = nthPage page k ∧ page.toNat + k * 4096 < 2 ^ 64 ∧ page ≠ 0 ∧
      mixedPageFits s total q = true ∧ ∀ j < k, mixedPageFits s total (nthPage page j) = false := by
  induction fuel generalizing page with
  | zero => cases h
  | succ fuel ih =>
    unfold findMixedPage at h
    split at h
    · cases h
    rename_i hne
    split at h
    · rename_i hfits
      cases h
      refine ⟨0, (nthPage_zero _).symm, ?_, hne, hfits, fun j hj => by omega⟩
      have := q.toNat_lt
      omega
    · rename_i hfits
      simp only at h
      split at h
      · cases h
      have hlt := page.toNat_lt
      have hadd := UInt64.toNat_add page PAGE_SIZE.toUInt64
      rw [toNat_PAGE_SIZE_toUInt64] at hadd
      obtain ⟨k, rfl, hwrap, hne', hq, hbefore⟩ := ih (by omega) h
      have hnext : (page + PAGE_SIZE.toUInt64).toNat = page.toNat + 4096 := by
        have hpos : (page + PAGE_SIZE.toUInt64).toNat ≠ 0 :=
          fun h0 => hne' (UInt64.toNat.inj h0)
        omega
      refine ⟨k + 1, nthPage_succ page k, by omega, hne, hq, fun j hj => ?_⟩
      cases j with
      | zero => rw [nthPage_zero]; simpa using hfits
      | succ j => rw [← nthPage_succ]; exact hbefore j (by omega)

/-- The search finds a page when there is one with room. -/
theorem findMixedPage_complete {k : Nat} (hal : page.toNat % 4096 = 0) (hne : page ≠ 0)
    (hwrap : page.toNat + k * 4096 < 2 ^ 64) (hfuel : k < fuel)
    (hfits : mixedPageFits s total (nthPage page k) = true) :
    ∃ q, findMixedPage s total fuel page = some q := by
  induction fuel generalizing page k with
  | zero => omega
  | succ fuel ih =>
    unfold findMixedPage
    rw [if_neg hne]
    split
    · exact ⟨page, rfl⟩
    · rename_i hnot
      cases k with
      | zero =>
        rw [nthPage_zero] at hfits
        exact absurd hfits hnot
      | succ k =>
        have hnext : (page + PAGE_SIZE.toUInt64).toNat = page.toNat + 4096 := by
          rw [UInt64.toNat_add, toNat_PAGE_SIZE_toUInt64]; omega
        have hoffset : pageOffset (page + PAGE_SIZE.toUInt64) = 0 := by
          apply UInt64.toNat.inj
          rw [toNat_pageOffset, hnext, UInt64.toNat_zero]
          omega
        simp only [hoffset, ne_eq, not_true_eq_false, if_false]
        refine ih (k := k) (by omega) ?_ (by omega) (by omega)
          (by rw [nthPage_succ]; exact hfits)
        intro h0
        rw [h0, UInt64.toNat_zero] at hnext
        omega

/-! ### The invariant of the heap -/

/-- The page allocator is in order: it hands out page-aligned pages, none twice, and none whose
pointer is `NULL`. -/
structure PagesOk (s : MemState) : Prop where
  hhdm : s.hhdmOffset.toNat % 4096 = 0
  regions : ∀ r ∈ s.regions, RegionOk r
  nodup : (stock s).Nodup
  stockPage : ∀ p ∈ stock s, p.toNat % 4096 = 0 ∧ s.P2V p ≠ 0

/-- The pages and stores of the heap are in order. -/
structure HeapOk (s : KmState) : Prop where
  pages : PagesOk s.mem
  aligned : ∀ P ∈ s.mixedPages, P.toNat % 4096 = 0
  nonNull : ∀ P ∈ s.mixedPages, P ≠ 0
  /-- No mixed page can be handed out again. -/
  apart : ∀ P ∈ s.mixedPages, s.mem.V2P P ∉ stock s.mem
  head : s.mixedPageHead = 0 ∨ s.mixedPageHead ∈ s.mixedPages
  magic : ∀ P ∈ s.mixedPages, field s P 4 0 = KM_MAGIC_MIXED.toNat
  offset : ∀ P ∈ s.mixedPages, 16 ≤ field s P 4 8 ∧ field s P 4 8 ≤ 4096
  /-- Every store went to a mixed page. -/
  stores : ∀ st ∈ s.stores, ∃ P ∈ s.mixedPages, InPage P st

/-- Writing to a page touches neither store of pages. -/
theorem WritesPage.stock (h : WritesPage s s' P) : stock s'.mem = stock s.mem := by
  have hV2P : s'.mem.V2P = s.mem.V2P := Ledger.V2P_congr h.hhdm
  rw [DzOS.Proofs.Mem.stock, DzOS.Proofs.Mem.stock, h.freepages, h.regions, hV2P]

/-- It keeps the page allocator in order. -/
theorem PagesOk.writesPage (hok : PagesOk s.mem) (h : WritesPage s s' P) : PagesOk s'.mem where
  hhdm := by rw [h.hhdm]; exact hok.hhdm
  regions := by rw [h.regions]; exact hok.regions
  nodup := by rw [h.stock]; exact hok.nodup
  stockPage := by
    rw [h.stock]
    intro p hp
    rw [MemState.P2V, h.hhdm]
    exact hok.stockPage p hp

/-- Writing to a mixed page keeps the heap in order when it keeps the header in order. -/
theorem HeapOk.writesPage (hok : HeapOk s) (hP : P ∈ s.mixedPages) (h : WritesPage s s' P)
    (hmagic : field s' P 4 0 = KM_MAGIC_MIXED.toNat)
    (hoffset : 16 ≤ field s' P 4 8 ∧ field s' P 4 8 ≤ 4096) : HeapOk s' where
  pages := hok.pages.writesPage h
  aligned := by rw [h.mixedPages]; exact hok.aligned
  nonNull := by rw [h.mixedPages]; exact hok.nonNull
  apart := by
    rw [h.mixedPages, h.stock, Ledger.V2P_congr h.hhdm]
    exact hok.apart
  head := by rw [h.mixedPages, h.head]; exact hok.head
  magic := by
    rw [h.mixedPages]
    intro Q hQ
    by_cases hQP : Q = P
    · rw [hQP]; exact hmagic
    · rw [h.field Q 4 0 (hok.aligned Q hQ) hQP (by omega) (by omega)]
      exact hok.magic Q hQ
  offset := by
    rw [h.mixedPages]
    intro Q hQ
    by_cases hQP : Q = P
    · rw [hQP]; exact hoffset
    · rw [h.field Q 4 8 (hok.aligned Q hQ) hQP (by omega) (by omega)]
      exact hok.offset Q hQ
  stores := by
    obtain ⟨new, hnew, hin⟩ := h.stores
    rw [hnew, h.mixedPages]
    intro st hst
    rcases List.mem_append.mp hst with hst | hst
    · exact ⟨P, hP, hin st hst⟩
    · exact hok.stores st hst

/-! ### A new page -/

/-- The pointer of a page in stock is a multiple of the page size. -/
theorem PagesOk.aligned_of_V2P {s : MemState} (hok : PagesOk s) (hp : s.V2P p ∈ stock s) :
    p.toNat % 4096 = 0 := by
  have h := (hok.stockPage _ hp).1
  have hhdm := hok.hhdm
  have hlt := p.toNat_lt
  have hlt' := s.hhdmOffset.toNat_lt
  rw [MemState.V2P, UInt64.toNat_sub] at h
  omega

/-- The allocator stays in order when it lends pages. -/
theorem PagesOk.lends {s s' : MemState} {n : Nat} (hok : PagesOk s) (h : Lends s s' p n) :
    PagesOk s' where
  hhdm := h.hhdm ▸ hok.hhdm
  regions := h.aligned
  nodup := (List.nodup_append.mp (h.stock.nodup_iff.mp hok.nodup)).2.1
  stockPage q hq := by
    rw [MemState.P2V, h.hhdm]
    exact hok.stockPage q (h.stock.mem_iff.mpr (List.mem_append_right _ hq))

/-- What `kalloc` gives: a page that was in stock. Other pages keep their contents. -/
structure Obtains (s : KmState) (mem : MemState) (P : UInt64) : Prop where
  pages : PagesOk mem
  hhdm : mem.hhdmOffset = s.mem.hhdmOffset
  aligned : P.toNat % 4096 = 0
  nonNull : P ≠ 0
  inStock : s.mem.V2P P ∈ DzOS.Proofs.Mem.stock s.mem
  taken : mem.V2P P ∉ DzOS.Proofs.Mem.stock mem
  sub : ∀ p ∈ DzOS.Proofs.Mem.stock mem, p ∈ DzOS.Proofs.Mem.stock s.mem
  field : ∀ Q w b, Q.toNat % 4096 = 0 → Q ≠ P → b + w ≤ 4096 → b < 4096 →
    DzOS.Proofs.Mem.field { s with mem := mem } Q w b = DzOS.Proofs.Mem.field s Q w b

theorem kalloc_obtains (hok : PagesOk s.mem) (h : kalloc s.mem = (some P, mem)) :
    Obtains s mem P := by
  have hlends := kallocFill_lends hok.regions h
  have hpages := hok.lends hlends
  have hhdm := hlends.hhdm
  obtain ⟨x, hmem, -⟩ := kallocFill_mem h
  obtain ⟨hin, hnotin, hsub, -, -⟩ := kallocFill_takes hok.regions hok.nodup h
  obtain ⟨hal, hnull⟩ := hok.stockPage _ hin
  have hP : P.toNat % 4096 = 0 := hok.aligned_of_V2P hin
  have hV2P : mem.V2P = s.mem.V2P := Ledger.V2P_congr hhdm
  refine ⟨hpages, hhdm, hP, ?_, hin, ?_, hsub, ?_⟩
  · have : s.mem.P2V (s.mem.V2P P) = P := by simp [MemState.P2V, MemState.V2P]
    rwa [this] at hnull
  · rw [hV2P]; exact hnotin
  · intro Q w b hQ hne hbw hb
    show mem.mem.getLE w (mem.V2P (Q + UInt64.ofNat b)).toNat =
      s.mem.mem.getLE w (s.mem.V2P (Q + UInt64.ofNat b)).toNat
    have h1 := toNat_V2P_page_add hok.hhdm hQ hb
    have h2 := V2P_aligned hok.hhdm hQ
    have h3 : (s.mem.V2P Q).toNat ≠ (s.mem.V2P P).toNat :=
      fun heq => hne (V2P_inj (UInt64.toNat.inj heq))
    rw [hV2P, hmem]
    refine Bytes.getLE_congr fun a h4 h5 => Bytes.fill_of_apart ?_
    omega

/-- The four words of a header at the start of a page. -/
def storeHeader (s : KmState) (P : UInt64) (v₀ v₁ v₂ v₃ : Nat) : KmState :=
  (((s.store 4 P v₀).store 4 (P + 4) v₁).store 4 (P + 8) v₂).store 4 (P + 12) v₃

/-- A header is in its page, and its words are there afterwards. -/
theorem storeHeader_spec (hhdm : s.mem.hhdmOffset.toNat % 4096 = 0) (hP : P.toNat % 4096 = 0)
    (v₀ v₁ v₂ v₃ : Nat) :
    WritesPage s (storeHeader s P v₀ v₁ v₂ v₃) P ∧
    field (storeHeader s P v₀ v₁ v₂ v₃) P 4 0 = v₀ % 256 ^ 4 ∧
    field (storeHeader s P v₀ v₁ v₂ v₃) P 4 4 = v₁ % 256 ^ 4 ∧
    field (storeHeader s P v₀ v₁ v₂ v₃) P 4 8 = v₂ % 256 ^ 4 := by
  generalize hs₁ : s.store 4 (P + UInt64.ofNat 0) v₀ = s₁
  generalize hs₂ : s₁.store 4 (P + UInt64.ofNat 4) v₁ = s₂
  generalize hs₃ : s₂.store 4 (P + UInt64.ofNat 8) v₂ = s₃
  generalize hs₄ : s₃.store 4 (P + UInt64.ofNat 12) v₃ = s₄
  have hrun : storeHeader s P v₀ v₁ v₂ v₃ = s₄ := by
    rw [← hs₄, ← hs₃, ← hs₂, ← hs₁]
    simp only [show UInt64.ofNat 0 = 0 from rfl, UInt64.add_zero]
    rfl
  have h₁ := stores_store hhdm hP hs₁ (by omega)
  have h₂ := stores_store h₁.aligned hP hs₂ (by omega)
  have h₃ := stores_store h₂.aligned hP hs₃ (by omega)
  have h₄ := stores_store h₃.aligned hP hs₄ (by omega)
  rw [hrun]
  -- A later word leaves an earlier one alone.
  refine ⟨((h₁.writes.trans h₂.writes).trans h₃.writes).trans h₄.writes, ?_, ?_, ?_⟩
  · rw [h₄.apart 4 0 (by omega), h₃.apart 4 0 (by omega), h₂.apart 4 0 (by omega), h₁.self]
  · rw [h₄.apart 4 4 (by omega), h₃.apart 4 4 (by omega), h₂.self]
  · rw [h₄.apart 4 8 (by omega), h₃.self]

/-- `km_new_mixed_page` adds a page with an empty header to the heap, or it fails and changes
nothing. -/
theorem kmNewMixedPage_spec (hok : HeapOk s) :
    (∃ s', kmNewMixedPage s = (none, s') ∧ s' = s) ∨
    ∃ P s', kmNewMixedPage s = (some P, s') ∧ HeapOk { s' with mixedPageHead := P } ∧
      P ∉ s.mixedPages ∧ s'.mixedPages = P :: s.mixedPages ∧ field s' P 4 8 = 16 ∧
      ∀ Q ∈ s.mixedPages, field s' Q 4 8 = field s Q 4 8 := by
  unfold kmNewMixedPage
  split
  · rename_i mem h
    left
    refine ⟨_, rfl, ?_⟩
    rw [kallocFill_none h]
  · rename_i P mem h
    right
    obtain ⟨hpages, hhdm, hP, hnull, hin, hnotin, hsub, hfield⟩ := kalloc_obtains hok.pages h
    have hnew : P ∉ s.mixedPages := fun hc => hok.apart P hc hin
    generalize hs₀ : ({ s with mem := mem, mixedPages := P :: s.mixedPages } : KmState) = s₀
    have hpages₀ : PagesOk s₀.mem := by rw [← hs₀]; exact hpages
    have hhdm₀ := hpages₀.hhdm
    obtain ⟨hall, hmagic, -, hoffset⟩ :=
      storeHeader_spec hhdm₀ hP KM_MAGIC_MIXED.toNat MIXED_PAGE_START MIXED_PAGE_START 0
    generalize hs₄ : storeHeader s₀ P KM_MAGIC_MIXED.toNat MIXED_PAGE_START MIXED_PAGE_START 0 = s₄
      at hall hmagic hoffset
    replace hmagic : field s₄ P 4 0 = KM_MAGIC_MIXED.toNat := hmagic.trans (by decide)
    replace hoffset : field s₄ P 4 8 = 16 := hoffset.trans (by decide)
    have hold : ∀ Q ∈ s.mixedPages, ∀ b, b + 4 ≤ 4096 → field s₄ Q 4 b = field s Q 4 b := by
      intro Q hQ b hb
      have hne : Q ≠ P := fun hc => hnew (hc ▸ hQ)
      rw [hall.field Q 4 b (hok.aligned Q hQ) hne hb (by omega), ← hs₀]
      exact hfield Q 4 b (hok.aligned Q hQ) hne hb (by omega)
    have hmixed : s₄.mixedPages = P :: s.mixedPages := by rw [hall.mixedPages, ← hs₀]
    have hpages₄ := hpages₀.writesPage hall
    have hstock : stock s₄.mem = stock mem := by rw [hall.stock, ← hs₀]
    have hhdm₄ : s₄.mem.hhdmOffset = mem.hhdmOffset := by rw [hall.hhdm, ← hs₀]
    refine ⟨P, s₄, ?_, ?_, hnew, hmixed, hoffset, fun Q hQ => hold Q hQ 8 (by omega)⟩
    · rw [← hs₄, ← hs₀]
      rfl
    · exact {
        pages := hpages₄
        aligned := by
          simp only [hmixed, List.mem_cons, forall_eq_or_imp]
          exact ⟨hP, hok.aligned⟩
        nonNull := by
          simp only [hmixed, List.mem_cons, forall_eq_or_imp]
          exact ⟨hnull, hok.nonNull⟩
        apart := by
          simp only [hmixed, List.mem_cons, forall_eq_or_imp, hstock, Ledger.V2P_congr hhdm₄]
          refine ⟨hnotin, fun Q hQ hc => hok.apart Q hQ ?_⟩
          rw [Ledger.V2P_congr hhdm] at hc
          exact hsub _ hc
        head := Or.inr (by simp only [hmixed]; exact List.mem_cons_self)
        magic := by
          simp only [hmixed, List.mem_cons, forall_eq_or_imp]
          refine ⟨hmagic, fun Q hQ => ?_⟩
          exact (hold Q hQ 0 (by omega)).trans (hok.magic Q hQ)
        offset := by
          simp only [hmixed, List.mem_cons, forall_eq_or_imp]
          refine ⟨?_, fun Q hQ => ?_⟩
          · show 16 ≤ field s₄ P 4 8 ∧ field s₄ P 4 8 ≤ 4096
            omega
          · show 16 ≤ field s₄ Q 4 8 ∧ field s₄ Q 4 8 ≤ 4096
            rw [hold Q hQ 8 (by omega)]
            exact hok.offset Q hQ
        stores := by
          obtain ⟨new, hnewst, hin⟩ := hall.stores
          simp only [hmixed, hnewst, ← hs₀]
          intro st hst
          rcases List.mem_append.mp hst with hst | hst
          · exact ⟨P, List.mem_cons_self, hin st hst⟩
          · obtain ⟨Q, hQ, hQin⟩ := hok.stores st hst
            exact ⟨Q, List.mem_cons_of_mem _ hQ, hQin⟩ }

/-! ### One call of `kmalloc` -/

/-- The bytes that a request for `n` bytes takes from a mixed page. -/
def totalNeeded (n : UInt64) : UInt64 := sizeofAllocHdr + kmAlignUp n KM_ALIGN

theorem toNat_totalNeeded (h : n.toNat ≤ KM_MAX_SMALL.toNat) :
    (totalNeeded n).toNat = 4 + alignedSize n := by
  have hmax : KM_MAX_SMALL.toNat = 2048 := by decide
  have hal := toNat_kmAlignUp (n := n) (by omega)
  rw [totalNeeded, UInt64.toNat_add, hal, show sizeofAllocHdr.toNat = 4 by decide]
  unfold alignedSize
  omega

/-- The condition under which a request stays inside the heap: when the search reaches a page
that `km_new_mixed_page` did not obtain and that reads as if it had room, it has found one of
its own pages before. -/
def NoForeignFit (s : KmState) (n : UInt64) : Prop :=
  s.mixedPageHead ≠ 0 → ∀ k, s.mixedPageHead.toNat + k * 4096 < 2 ^ 64 →
    mixedPageFits s (totalNeeded n) (nthPage s.mixedPageHead k) = true →
    nthPage s.mixedPageHead k ∉ s.mixedPages →
    ∃ j < k, mixedPageFits s (totalNeeded n) (nthPage s.mixedPageHead j) = true ∧
      nthPage s.mixedPageHead j ∈ s.mixedPages

/-- The head of a heap in order is page-aligned. -/
theorem HeapOk.head_aligned (hok : HeapOk s) : s.mixedPageHead.toNat % 4096 = 0 := by
  rcases hok.head with h | h
  · rw [h]; rfl
  · exact hok.aligned _ h

/-- Under the condition the search finds an own page. -/
theorem find_own (hok : HeapOk s) (hcond : NoForeignFit s n)
    (h : findMixedPage s (totalNeeded n) (2 ^ 52) s.mixedPageHead = some q) :
    q ∈ s.mixedPages ∧ mixedPageFits s (totalNeeded n) q = true := by
  obtain ⟨k, rfl, hwrap, hne, hfits, hbefore⟩ := findMixedPage_some hok.head_aligned h
  refine ⟨?_, hfits⟩
  by_contra hforeign
  obtain ⟨j, hj, hfits', -⟩ := hcond hne k hwrap hfits hforeign
  rw [hbefore j hj] at hfits'
  cases hfits'

/-- Without the condition the search finds a page of somebody else. -/
theorem find_foreign (hok : HeapOk s) (hcond : ¬ NoForeignFit s n) :
    ∃ q, findMixedPage s (totalNeeded n) (2 ^ 52) s.mixedPageHead = some q ∧
      q.toNat % 4096 = 0 ∧ q ∉ s.mixedPages ∧ mixedPageFits s (totalNeeded n) q = true := by
  unfold NoForeignFit at hcond
  push Not at hcond
  obtain ⟨hne, k, hwrap, hfits, hforeign, hfirst⟩ := hcond
  have hal := hok.head_aligned
  obtain ⟨q, hq⟩ := findMixedPage_complete hal hne hwrap (show k < 2 ^ 52 by omega) hfits
  obtain ⟨k', rfl, hwrap', -, hfits', hbefore⟩ := findMixedPage_some hal hq
  have haddr : (nthPage s.mixedPageHead k').toNat = s.mixedPageHead.toNat + k' * 4096 :=
    toNat_block_page hwrap'
  refine ⟨_, hq, by omega, ?_, hfits'⟩
  rcases Nat.lt_trichotomy k' k with hlt | rfl | hgt
  · exact hfirst k' hlt hfits'
  · exact hforeign
  · rw [hbefore k hgt] at hfits
    cases hfits

/-- What a successful request does to the heap: it takes the bytes from the free offset `f` of
the page `P`. -/
structure Takes (s s' : KmState) (n p P : UInt64) (f : Nat) : Prop where
  ok : HeapOk s'
  page : P ∈ s'.mixedPages
  old : ∀ Q ∈ s.mixedPages, Q ∈ s'.mixedPages
  ptr : p.toNat = P.toNat + f + 4
  lo : 16 ≤ f
  offset : field s' P 4 8 = f + 4 + alignedSize n
  own : P ∈ s.mixedPages → field s P 4 8 = f
  others : ∀ Q ∈ s.mixedPages, Q ≠ P → field s' Q 4 8 = field s Q 4 8

/-- Taking from a page of the heap that has room. -/
theorem bump_takes (hok : HeapOk s) (hP : P ∈ s.mixedPages) (hn : 1 ≤ n.toNat)
    (hn' : n.toNat ≤ KM_MAX_SMALL.toNat) (hfit : field s P 4 8 + (totalNeeded n).toNat ≤ 4096) :
    Takes s (bumpMixedPage s P n (totalNeeded n)).2 n (bumpMixedPage s P n (totalNeeded n)).1 P
      (field s P 4 8) := by
  have htotal := toNat_totalNeeded hn'
  have hsize : 16 ≤ alignedSize n := by unfold alignedSize; omega
  obtain ⟨hptr, hwrites, hoffset, hmagic⟩ := bump_spec n hok.pages.hhdm
    (hok.aligned P hP) (hok.offset P hP).1 hfit (by omega)
  have hlo := (hok.offset P hP).1
  exact {
    ok := hok.writesPage hP hwrites (hmagic.trans (hok.magic P hP)) (by omega)
    page := by rw [hwrites.mixedPages]; exact hP
    old := by rw [hwrites.mixedPages]; exact fun Q hQ => hQ
    ptr := hptr
    lo := hlo
    offset := by rw [hoffset, htotal]; omega
    own := fun _ => rfl
    others := fun Q hQ hne => hwrites.field Q 4 8 (hok.aligned Q hQ) hne (by omega) (by omega) }

/-- A small request is served from the mixed pages. -/
theorem kmalloc_small (s : KmState) (hn : 1 ≤ n.toNat) (hn' : n.toNat ≤ KM_MAX_SMALL.toNat) :
    kmalloc s n = kmAllocFromMixedPageLocked s n := by
  have hne : n ≠ 0 := by
    rintro rfl
    exact absurd hn (by decide)
  have hsmall : n ≤ KM_MAX_SMALL := by rw [UInt64.le_iff_toNat_le]; exact hn'
  simp only [kmalloc, if_neg hne, if_pos hsmall]

/-- A request for which the search finds a page. -/
theorem kmAllocFromMixedPageLocked_found
    (h : findMixedPage s (totalNeeded n) (2 ^ 52) s.mixedPageHead = some q) :
    kmAllocFromMixedPageLocked s n =
      (some (bumpMixedPage s q n (totalNeeded n)).1, (bumpMixedPage s q n (totalNeeded n)).2) := by
  rw [kmAllocFromMixedPageLocked]
  simp only [show sizeofAllocHdr + kmAlignUp n KM_ALIGN = totalNeeded n from rfl]
  rw [h]

/-- A request under the condition fails without a change, or takes bytes from an own page. -/
theorem kmalloc_takes (hok : HeapOk s) (hn : 1 ≤ n.toNat) (hn' : n.toNat ≤ KM_MAX_SMALL.toNat)
    (hcond : NoForeignFit s n) :
    kmalloc s n = (none, s) ∨
    ∃ p s' P f, kmalloc s n = (some p, s') ∧ Takes s s' n p P f := by
  have hmax : KM_MAX_SMALL.toNat = 2048 := by decide
  rw [kmalloc_small s hn hn', kmAllocFromMixedPageLocked]
  simp only [show sizeofAllocHdr + kmAlignUp n KM_ALIGN = totalNeeded n from rfl]
  split
  · rename_i P hfind
    obtain ⟨hP, hfits⟩ := find_own hok hcond hfind
    right
    exact ⟨_, _, P, _, rfl, bump_takes hok hP hn hn' ((fits_iff s _ P).mp hfits).2⟩
  · rcases kmNewMixedPage_spec hok with ⟨s', hnew, rfl⟩ |
      ⟨P, s', hnew, hok', hP, hmixed, hoff, hold⟩
    · left
      rw [hnew]
    · right
      rw [hnew]
      have htotal := toNat_totalNeeded hn'
      have hoff' : field { s' with mixedPageHead := P } P 4 8 = 16 := hoff
      have htakes := bump_takes (n := n) hok' (P := P)
        (by simp only [hmixed]; exact List.mem_cons_self) hn hn'
        (by rw [hoff', htotal]; unfold alignedSize; omega)
      rw [hoff'] at htakes
      refine ⟨_, _, P, 16, rfl, ?_⟩
      exact {
        ok := htakes.ok
        page := htakes.page
        old := fun Q hQ => htakes.old Q (by
          simp only [hmixed]
          exact List.mem_cons_of_mem _ hQ)
        ptr := htakes.ptr
        lo := htakes.lo
        offset := htakes.offset
        own := fun hc => absurd hc hP
        others := fun Q hQ hne' => by
          rw [htakes.others Q (by simp only [hmixed]; exact List.mem_cons_of_mem _ hQ) hne']
          exact hold Q hQ }

/-- A request without the condition writes to a page of somebody else. -/
theorem kmalloc_foreign (hok : HeapOk s) (hn : 1 ≤ n.toNat) (hn' : n.toNat ≤ KM_MAX_SMALL.toNat)
    (hcond : ¬ NoForeignFit s n) :
    (kmalloc s n).2.mixedPages = s.mixedPages ∧
      ∃ st ∈ (kmalloc s n).2.stores, ¬ ∃ P ∈ s.mixedPages, InPage P st := by
  obtain ⟨q, hfind, hal, hforeign, hfits⟩ := find_foreign hok hcond
  rw [kmalloc_small s hn hn', kmAllocFromMixedPageLocked_found hfind]
  refine ⟨by simp [bumpMixedPage], (q + (freeOffset s q).toUInt64, 2), by simp [bumpMixedPage], ?_⟩
  rintro ⟨P, hP, hlo, hhi⟩
  -- The `alloc_hdr` is in the page that was found, and pages are aligned.
  have hoff := ((fits_iff s _ q).mp hfits).1
  have haddr := ahdr_eq s q 0
  rw [show UInt64.ofNat 0 = 0 from rfl, UInt64.add_zero, Nat.add_zero] at haddr
  have hq := toNat_page_add hal (show field s q 4 8 < 4096 by omega)
  simp only [haddr, hq] at hlo hhi
  have hPal := hok.aligned P hP
  have hPq : P.toNat = q.toNat := by omega
  exact hforeign (UInt64.toNat.inj hPq ▸ hP)

/-! ### One call of `kmfree` -/

/-- Freeing an object of a mixed page writes to that page, and neither to its magic nor to its
free offset. -/
theorem kmfree_writes (hok : HeapOk s) (hP : P ∈ s.mixedPages) (hlo : P.toNat + 20 ≤ p.toNat)
    (hhi : p.toNat < P.toNat + 4096) :
    ∃ s', kmfree s p = .ok s' ∧ WritesPage s s' P ∧ field s' P 4 0 = field s P 4 0 ∧
      field s' P 4 8 = field s P 4 8 := by
  have hal := hok.aligned P hP
  have hhdm := hok.pages.hhdm
  have hbase : pageBase p = P := by
    apply UInt64.toNat.inj
    rw [toNat_pageBase]
    omega
  have hload : s.load 4 P = KM_MAGIC_MIXED.toNat := by
    have := hok.magic P hP
    rwa [field, show UInt64.ofNat 0 = 0 from rfl, UInt64.add_zero] at this
  have hmagic : UInt32.ofNat (s.load 4 P) = KM_MAGIC_MIXED := by rw [hload]; rfl
  have hne : p ≠ 0 := by
    intro h0
    rw [h0, UInt64.toNat_zero] at hlo
    omega
  have hrun : kmfree s p = .ok (kmFreeFromMixedPageLocked s p) := by
    simp only [kmfree, if_neg hne, hbase, hmagic, if_true]
  have haddr : p - sizeofAllocHdr + 2 = P + UInt64.ofNat (p.toNat - P.toNat - 2) := by
    have hplt := p.toNat_lt
    apply UInt64.toNat.inj
    rw [toNat_page_add hal (by omega), UInt64.toNat_add, UInt64.toNat_sub_of_le _ _ (by
      rw [UInt64.le_iff_toNat_le, show sizeofAllocHdr.toNat = 4 by decide]; omega),
      show sizeofAllocHdr.toNat = 4 by decide, show (2 : UInt64).toNat = 2 by decide]
    omega
  refine ⟨_, hrun, ?_⟩
  unfold kmFreeFromMixedPageLocked
  simp only [hbase, haddr]
  split
  · exact ⟨WritesPage.refl s P, rfl, rfl⟩
  split
  · exact ⟨WritesPage.refl s P, rfl, rfl⟩
  generalize hs₁ : s.store 2 (P + UInt64.ofNat (p.toNat - P.toNat - 2)) 0 = s₁
  have h₁ : WritesPage s s₁ P := hs₁ ▸ writesPage_store hhdm hal _ (by omega) (by omega)
  have hhdm₁ : s₁.mem.hhdmOffset.toNat % 4096 = 0 := h₁.aligned hhdm
  have hkeep₁ : ∀ b, b + 4 ≤ 16 → field s₁ P 4 b = field s P 4 b := by
    intro b hb
    rw [← hs₁, field_store_of_apart hhdm hal hal (by omega) (by omega) (by omega) (by omega)
      (by omega)]
  split
  · rw [show (P + 4 : UInt64) = P + UInt64.ofNat 4 from rfl]
    refine ⟨h₁.trans (writesPage_store hhdm₁ hal _ (by omega) (by omega)), ?_, ?_⟩
    · rw [field_store_of_apart hhdm₁ hal hal (by omega) (by omega) (by omega) (by omega)
        (by omega), hkeep₁ 0 (by omega)]
    · rw [field_store_of_apart hhdm₁ hal hal (by omega) (by omega) (by omega) (by omega)
        (by omega), hkeep₁ 8 (by omega)]
  · exact ⟨h₁, hkeep₁ 0 (by omega), hkeep₁ 8 (by omega)⟩

/-! ### Runs -/

/-- The heap and the live allocations: pointer and requested size. -/
structure KmRun where
  st : KmState
  live : List (UInt64 × UInt64)

variable {r : KmRun}

/-- The calls, and what the rest of the kernel does to memory and to the page allocator. -/
inductive KmCall
  | kmalloc (n : UInt64)
  | kmfree (p : UInt64)
  | rest (mem : MemState)

/-- The byte ranges of two allocations, header and aligned size, do not overlap. -/
def ApartAllocs (a b : UInt64 × UInt64) : Prop :=
  a.1.toNat + alignedSize a.2 + 4 ≤ b.1.toNat ∨ b.1.toNat + alignedSize b.2 + 4 ≤ a.1.toNat

namespace KmRun

/-- One step. -/
def exec (r : KmRun) : KmCall → Except String KmRun
  | .kmalloc n =>
    match kmalloc r.st n with
    | (none, st) => .ok { st := st, live := r.live }
    | (some p, st) => .ok { st := st, live := (p, n) :: r.live }
  | .kmfree p =>
    match kmfree r.st p with
    | .error e => .error e
    | .ok st => .ok { st := st, live := r.live.filter fun a => a.1 ≠ p }
  | .rest mem => .ok { r with st := { r.st with mem := mem } }

/-- What the rest of the kernel leaves alone: the direct map stays, the page allocator stays in
order and does not get a mixed page, and the headers of the mixed pages keep their contents.
Everything else may change, the objects included. -/
structure RestOk (s : KmState) (mem : MemState) : Prop where
  hhdm : mem.hhdmOffset = s.mem.hhdmOffset
  pages : PagesOk mem
  apart : ∀ P ∈ s.mixedPages, mem.V2P P ∉ stock mem
  header : ∀ P ∈ s.mixedPages, ∀ i < 16,
    mem.mem ((mem.V2P P).toNat + i) = s.mem.mem ((s.mem.V2P P).toNat + i)

/-- The steps under consideration. -/
def Allowed (r : KmRun) : KmCall → Prop
  | .kmalloc n => 1 ≤ n.toNat ∧ n.toNat ≤ KM_MAX_SMALL.toNat
  | .kmfree p => ∃ n, (p, n) ∈ r.live
  | .rest mem => RestOk r.st mem

/-- The condition: a request does not run into a page of somebody else. -/
def StaysHome (r : KmRun) : KmCall → Prop
  | .kmalloc n => NoForeignFit r.st n
  | _ => True

/-- The states that allowed steps under the condition reach from `kmalloc_init`. -/
inductive Reachable (mem : MemState) : KmRun → Prop
  | init : Reachable mem { st := kmallocInit mem, live := [] }
  | step {r r' : KmRun} {call : KmCall} (hr : Reachable mem r) (hallowed : r.Allowed call)
      (hhome : r.StaysHome call) (hexec : r.exec call = .ok r') : Reachable mem r'

/-- Every store of the heap is in a mixed page, live allocations are inside mixed pages behind
the page header, and their ranges are pairwise disjoint. -/
structure Sound (r : KmRun) : Prop where
  stores : ∀ st ∈ r.st.stores, ∃ P ∈ r.st.mixedPages, InPage P st
  inside : ∀ a ∈ r.live, ∃ P ∈ r.st.mixedPages, P.toNat + 16 + 4 ≤ a.1.toNat ∧
    a.1.toNat + alignedSize a.2 ≤ P.toNat + 4096
  apart : r.live.Pairwise ApartAllocs

/-- The invariant of a run. -/
structure Inv (r : KmRun) : Prop where
  ok : HeapOk r.st
  inside : ∀ a ∈ r.live, 1 ≤ a.2.toNat ∧ ∃ P ∈ r.st.mixedPages, P.toNat + 20 ≤ a.1.toNat ∧
    a.1.toNat + alignedSize a.2 ≤ P.toNat + field r.st P 4 8
  apart : r.live.Pairwise ApartAllocs

theorem Inv.sound (h : r.Inv) : r.Sound where
  stores := h.ok.stores
  inside := fun a ha => by
    obtain ⟨-, P, hP, h1, h2⟩ := h.inside a ha
    have := (h.ok.offset P hP).2
    exact ⟨P, hP, by omega, by omega⟩
  apart := h.apart

/-- The invariant at the start. -/
theorem inv_init (hpages : PagesOk mem) :
    Inv { st := kmallocInit mem, live := [] } where
  ok := {
    pages := hpages
    aligned := fun P hP => by cases hP
    nonNull := fun P hP => by cases hP
    apart := fun P hP => by cases hP
    head := Or.inl rfl
    magic := fun P hP => by cases hP
    offset := fun P hP => by cases hP
    stores := fun st hst => by cases hst }
  inside := fun a ha => by cases ha
  apart := List.Pairwise.nil

/-- A new allocation keeps the invariant. -/
theorem Inv.takes (h : r.Inv) {f : Nat} (hn : 1 ≤ n.toNat) (ht : Takes r.st s' n p P f) :
    Inv { st := s', live := (p, n) :: r.live } := by
  have hptr := ht.ptr
  have hlo := ht.lo
  have hoff := ht.offset
  have hhi := (ht.ok.offset P ht.page).2
  have hPal := ht.ok.aligned P ht.page
  refine ⟨ht.ok, fun a ha => ?_, List.pairwise_cons.mpr ⟨fun a ha => ?_, h.apart⟩⟩
  · rcases List.mem_cons.mp ha with rfl | ha
    · exact ⟨hn, P, ht.page, by simp only; omega, by simp only; omega⟩
    · obtain ⟨ha1, Q, hQ, h1, h2⟩ := h.inside a ha
      refine ⟨ha1, Q, ht.old Q hQ, h1, ?_⟩
      by_cases hQP : Q = P
      · have := ht.own (hQP ▸ hQ)
        rw [hQP] at h2
        rw [hQP]
        simp only
        omega
      · simp only [ht.others Q hQ hQP]
        exact h2
  · -- In the same page the new bytes are behind the old ones, and pages are disjoint.
    obtain ⟨-, Q, hQ, h1, h2⟩ := h.inside a ha
    have hQal := h.ok.aligned Q hQ
    have hQoff := (h.ok.offset Q hQ).2
    unfold ApartAllocs
    simp only
    by_cases hQP : Q = P
    · have := ht.own (hQP ▸ hQ)
      rw [hQP] at h2
      omega
    · have hne : Q.toNat ≠ P.toNat := fun heq => hQP (UInt64.toNat.inj heq)
      omega

/-- A free keeps the invariant. -/
theorem Inv.writes (h : r.Inv) (hP : P ∈ r.st.mixedPages) (hw : WritesPage r.st s' P)
    (hmagic : field s' P 4 0 = field r.st P 4 0) (hoff : field s' P 4 8 = field r.st P 4 8)
    (keep : UInt64 × UInt64 → Bool) : Inv { st := s', live := r.live.filter keep } := by
  have hfield : ∀ Q ∈ r.st.mixedPages, field s' Q 4 8 = field r.st Q 4 8 := by
    intro Q hQ
    by_cases hQP : Q = P
    · rw [hQP]; exact hoff
    · exact hw.field Q 4 8 (h.ok.aligned Q hQ) hQP (by omega) (by omega)
  refine ⟨h.ok.writesPage hP hw (hmagic.trans (h.ok.magic P hP)) ?_, fun a ha => ?_,
    h.apart.filter _⟩
  · rw [hoff]
    exact h.ok.offset P hP
  · obtain ⟨h0, Q, hQ, h1, h2⟩ := h.inside a (List.mem_of_mem_filter ha)
    exact ⟨h0, Q, by simp only [hw.mixedPages]; exact hQ, h1, by simp only [hfield Q hQ]; exact h2⟩

/-- What the rest of the kernel does keeps the invariant. -/
theorem Inv.rest (h : r.Inv) (hrest : RestOk r.st mem) :
    Inv { r with st := { r.st with mem := mem } } := by
  have hfield : ∀ Q ∈ r.st.mixedPages, ∀ b, b + 4 ≤ 16 →
      field { r.st with mem := mem } Q 4 b = field r.st Q 4 b := by
    intro Q hQ b hb
    have hQal := h.ok.aligned Q hQ
    show mem.mem.getLE 4 (mem.V2P (Q + UInt64.ofNat b)).toNat =
      r.st.mem.mem.getLE 4 (r.st.mem.V2P (Q + UInt64.ofNat b)).toNat
    have h1 := toNat_V2P_page_add h.ok.pages.hhdm hQal (show b < 4096 by omega)
    have hhead := hrest.header Q hQ
    rw [Ledger.V2P_congr hrest.hhdm] at hhead ⊢
    refine Bytes.getLE_congr fun a h2 h3 => ?_
    have := hhead (a - (r.st.mem.V2P Q).toNat) (by omega)
    rwa [Nat.add_sub_cancel' (by omega)] at this
  refine ⟨?_, fun a ha => ?_, h.apart⟩
  · exact {
      pages := hrest.pages
      aligned := h.ok.aligned
      nonNull := h.ok.nonNull
      apart := hrest.apart
      head := h.ok.head
      magic := fun Q hQ => (hfield Q hQ 0 (by omega)).trans (h.ok.magic Q hQ)
      offset := fun Q hQ => by
        rw [hfield Q hQ 8 (by omega)]
        exact h.ok.offset Q hQ
      stores := h.ok.stores }
  · obtain ⟨h0, Q, hQ, h1, h2⟩ := h.inside a ha
    exact ⟨h0, Q, hQ, h1, by rw [hfield Q hQ 8 (by omega)]; exact h2⟩

/-- An allowed step under the condition returns and keeps the invariant. -/
theorem exec_inv {call : KmCall} (h : r.Inv) (hallowed : r.Allowed call)
    (hhome : r.StaysHome call) :
    ∃ r', r.exec call = .ok r' ∧ r'.Inv := by
  cases call with
  | kmalloc n =>
    obtain ⟨hn, hn'⟩ := hallowed
    rcases kmalloc_takes h.ok hn hn' hhome with hrun | ⟨p, s', P, f, hrun, htakes⟩
    · simp only [exec, hrun]
      exact ⟨_, rfl, h⟩
    · simp only [exec, hrun]
      exact ⟨_, rfl, h.takes hn htakes⟩
  | kmfree p =>
    obtain ⟨n, hlive⟩ := hallowed
    obtain ⟨hn, P, hP, h1, h2⟩ := h.inside _ hlive
    have hsize : 16 ≤ alignedSize n := by
      have : 1 ≤ n.toNat := hn
      unfold alignedSize
      omega
    have hoff := (h.ok.offset P hP).2
    simp only at h1 h2
    obtain ⟨s', hrun, hw, hmagic, hoffset⟩ := kmfree_writes h.ok hP h1 (by omega)
    simp only [exec, hrun]
    exact ⟨_, rfl, h.writes hP hw hmagic hoffset _⟩
  | rest mem => exact ⟨_, rfl, h.rest hallowed⟩

/-- The invariant holds in every reachable state. -/
theorem Reachable.inv (hpages : PagesOk mem) (hr : Reachable mem r) : r.Inv := by
  induction hr with
  | init => exact inv_init hpages
  | step _ hallowed hhome hexec ih =>
    obtain ⟨r', hrun, hinv⟩ := exec_inv ih hallowed hhome
    rw [hexec] at hrun
    cases hrun
    exact hinv

end KmRun

/-- In every run from `kmalloc_init` in which no request runs into a page of somebody else, all
stores are in mixed pages and the live allocations are disjoint and inside mixed pages. In each
state of such a run a further request keeps that so if and only if it does not run into a page
of somebody else, and every other allowed step keeps it so. -/
theorem kmalloc_sound (mem : MemState) (hpages : PagesOk mem) (r : KmRun)
    (hr : KmRun.Reachable mem r) :
    r.Sound ∧ ∀ call, r.Allowed call →
      ((∃ r', r.exec call = .ok r' ∧ r'.Sound) ↔ r.StaysHome call) := by
  have hinv := hr.inv hpages
  refine ⟨hinv.sound, fun call hallowed => ⟨?_, fun hhome => ?_⟩⟩
  · rintro ⟨r', hexec, hsound⟩
    cases call with
    | kmalloc n =>
      obtain ⟨hn, hn'⟩ := hallowed
      by_contra hcond
      obtain ⟨hmixed, st, hst, hout⟩ := kmalloc_foreign hinv.ok hn hn' hcond
      have hst' : r'.st = (kmalloc r.st n).2 := by
        simp only [KmRun.exec] at hexec
        split at hexec <;> cases hexec <;> simp_all
      have := hsound.stores st (by rw [hst']; exact hst)
      rw [hst', hmixed] at this
      exact hout this
    | kmfree p => trivial
    | rest mem' => trivial
  · obtain ⟨r', hrun, hinv'⟩ := KmRun.exec_inv hinv hallowed hhome
    exact ⟨r', hrun, hinv'.sound⟩

/-! ### A machine with one free page -/

/-- A machine with one free page, and zeros behind it. -/
def onePage : MemState :=
  { MemState.boot Bytes.zero with regions := [{ physCur := 0x1000, physEnd := 0x2000 }] }

/-- The page allocator of that machine is in order. -/
theorem pagesOk_onePage : PagesOk onePage := by
  have hstock : stock onePage = [0x1000] := by rfl
  refine ⟨by decide, fun r hr => ?_, by rw [hstock]; decide, ?_⟩
  · rw [List.mem_singleton.mp hr]
    exact ⟨by decide, by decide, by decide⟩
  · rw [hstock]
    intro p hp
    rw [List.mem_singleton.mp hp]
    exact ⟨by decide, by decide⟩

/-- The heap of that machine at the start. -/
def emptyRun : KmRun := { st := kmallocInit onePage, live := [] }

/-- The heap after a first request for half a page. -/
def halfFull : KmState := (kmalloc (kmallocInit onePage) 2048).2

/-- The first request. -/
theorem emptyRun_exec :
    emptyRun.exec (.kmalloc 2048) = .ok { st := halfFull, live := [(0x1014, 2048)] } := by
  have hptr : (kmalloc (kmallocInit onePage) 2048).1 = some 0x1014 := by decide +kernel
  have hrun : kmalloc (kmallocInit onePage) 2048 = (some 0x1014, halfFull) :=
    Prod.ext hptr rfl
  simp only [KmRun.exec, emptyRun, hrun]

/-- The second request for half a page does not fit into the page of the heap. The page behind
it is zero, which reads as a free offset of 0, and the heap writes there. -/
theorem kmalloc_writes_foreign :
    PagesOk onePage ∧
    ∃ r₁ r₂, emptyRun.Allowed (.kmalloc 2048) ∧ emptyRun.exec (.kmalloc 2048) = .ok r₁ ∧
      r₁.Allowed (.kmalloc 2048) ∧ r₁.exec (.kmalloc 2048) = .ok r₂ ∧ ¬ r₂.Sound := by
  have hstore : ((0x2000 : UInt64), 2) ∈ (kmalloc halfFull 2048).2.stores := by decide +kernel
  have hmixed : (kmalloc halfFull 2048).2.mixedPages = [0x1000] := by decide +kernel
  have hptr : (kmalloc halfFull 2048).1 = some 0x2004 := by decide +kernel
  have hrun : kmalloc halfFull 2048 = (some 0x2004, (kmalloc halfFull 2048).2) :=
    Prod.ext hptr rfl
  refine ⟨pagesOk_onePage, _,
    { st := (kmalloc halfFull 2048).2, live := [(0x2004, 2048), (0x1014, 2048)] },
    ⟨by decide, by decide⟩, emptyRun_exec, ⟨by decide, by decide⟩, ?_, fun hsound => ?_⟩
  · rw [KmRun.exec, hrun]
  · obtain ⟨P, hP, hin⟩ := hsound.stores _ hstore
    rw [hmixed, List.mem_singleton] at hP
    rw [hP] at hin
    exact absurd hin.2 (by decide)

/-- A second request for 64 bytes. The search finds room in the page of the heap, so it stays
there. -/
theorem kmalloc_sound_secondRequest :
    ∃ r', KmRun.exec { st := halfFull, live := [(0x1014, 2048)] } (.kmalloc 64) = .ok r' ∧
      r'.Sound := by
  have hfirst : KmRun.Reachable onePage { st := halfFull, live := [(0x1014, 2048)] } :=
    @KmRun.Reachable.step onePage emptyRun _ (.kmalloc 2048) .init ⟨by decide, by decide⟩
      (fun hne => absurd rfl hne) emptyRun_exec
  have hhead : halfFull.mixedPageHead = 0x1000 := by decide +kernel
  have hmixed : halfFull.mixedPages = [0x1000] := by decide +kernel
  have hfits : mixedPageFits halfFull (totalNeeded 64) 0x1000 = true := by decide +kernel
  have hnth : nthPage 0x1000 0 = 0x1000 := by decide
  refine ((kmalloc_sound onePage pagesOk_onePage _ hfirst).2 (.kmalloc 64)
    ⟨by decide, by decide⟩).mpr fun _ k _ _ hforeign => ?_
  dsimp only at hforeign ⊢
  rw [hhead, hmixed] at hforeign ⊢
  -- The page of the heap comes before each other one.
  have hown : nthPage 0x1000 0 ∈ [0x1000] := hnth ▸ List.mem_singleton_self _
  refine ⟨0, Nat.pos_of_ne_zero ?_, hnth.symm ▸ hfits, hown⟩
  rintro rfl
  exact hforeign hown

end DzOS.Proofs.Mem
