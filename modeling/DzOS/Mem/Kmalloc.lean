import DzOS.Mem.Mem

/-!
# `DzOS.Mem.Kmalloc`: the kernel heap, `kmalloc.c`

`kmalloc` serves requests up to `KM_MAX_SMALL` bytes from mixed pages and larger ones from
`kalloc_pages`. `kmfree` finds out from the first word of the page what kind of block a
pointer belongs to. The pointers of the source are addresses of the direct map, and `NULL`
is 0. Structures are read and written at the byte offsets that the compiler gives them.

A mixed page starts with `mixed_page_hdr`: `magic`, `used_bytes`, `free_offset` and `pad`, each
of four bytes. An object is preceded by an `alloc_hdr`: `size` and `magic_check`, each of two
bytes. The search for a mixed page with room starts at `mixed_page_head` and adds `PAGE_SIZE`
to the pointer until it wraps to `NULL`.

`mixedPages` and `stores` are history: the pages that `km_new_mixed_page` obtained, and the
address and length of every store of `kmalloc.c`, both with the newest first.
-/

set_option autoImplicit false

namespace DzOS.Mem

open DzOS.Lib

/-! ### Constants -/

/-- `KM_ALIGN`. -/
def KM_ALIGN : UInt64 := 16

/-- `KM_MAX_SMALL`, half a page. -/
def KM_MAX_SMALL : UInt64 := 2048

/-- `KM_MAGIC_SMALL`. -/
def KM_MAGIC_SMALL : UInt32 := 0xC0FFEE11

/-- `KM_MAGIC_LARGE`. -/
def KM_MAGIC_LARGE : UInt32 := 0xC0FFEE22

/-- `KM_MAGIC_ARENA`. -/
def KM_MAGIC_ARENA : UInt32 := 0xC0FFEE33

/-- `KM_MAGIC_MIXED`. -/
def KM_MAGIC_MIXED : UInt32 := 0xC0FFEE44

/-- `ALLOC_HDR_MAGIC`. -/
def ALLOC_HDR_MAGIC : Nat := 0xBEEF

/-- `sizeof(alloc_hdr)`. -/
def sizeofAllocHdr : UInt64 := 4

/-- `sizeof(km_large_hdr)`. -/
def sizeofLargeHdr : UInt64 := 16

/-- `MIXED_PAGE_START`, the size of `mixed_page_hdr`. -/
def MIXED_PAGE_START : Nat := 16

/-- `MIXED_PAGE_MAX_USED`. -/
def MIXED_PAGE_MAX_USED : UInt32 := 3840

/-- `km_align_up`. -/
def kmAlignUp (n a : UInt64) : UInt64 := (n + (a - 1)) &&& ~~~(a - 1)

/-! ### State and memory access -/

/-- The variables of `kmalloc.c` and the memory. `bins i` is `km_bins[i].head`. -/
structure KmState where
  mem : MemState
  bins : Nat → UInt64
  mixedPageHead : UInt64
  mixedPages : List UInt64
  stores : List (UInt64 × Nat)

namespace KmState

/-- The `w`-byte value at the pointer `ptr`. -/
def load (s : KmState) (w : Nat) (ptr : UInt64) : Nat := s.mem.mem.getLE w (s.mem.V2P ptr).toNat

/-- Write the low `w` bytes of `v` at the pointer `ptr`. -/
def store (s : KmState) (w : Nat) (ptr : UInt64) (v : Nat) : KmState :=
  { s with
    mem := { s.mem with mem := s.mem.mem.setLE w (s.mem.V2P ptr).toNat v }
    stores := (ptr, w) :: s.stores }

end KmState

/-- `kmalloc_init`. -/
def kmallocInit (mem : MemState) : KmState where
  mem := mem
  bins := fun _ => 0
  mixedPageHead := 0
  mixedPages := []
  stores := []

/-! ### Mixed pages -/

/-- `km_new_mixed_page`. -/
def kmNewMixedPage (s : KmState) : Option UInt64 × KmState :=
  match kalloc s.mem with
  | (none, mem) => (none, { s with mem := mem })
  | (some page, mem) =>
    let s := { s with mem := mem, mixedPages := page :: s.mixedPages }
    let s := s.store 4 page KM_MAGIC_MIXED.toNat
    let s := s.store 4 (page + 4) MIXED_PAGE_START
    let s := s.store 4 (page + 8) MIXED_PAGE_START
    let s := s.store 4 (page + 12) 0
    (some page, s)

/-- `page->free_offset`. -/
def freeOffset (s : KmState) (page : UInt64) : UInt32 := UInt32.ofNat (s.load 4 (page + 8))

/-- Does `page`, read as a mixed page, have room for `totalNeeded` bytes? The subtraction is
one of 32-bit words. -/
def mixedPageFits (s : KmState) (totalNeeded page : UInt64) : Bool :=
  let available := (PAGE_SIZE - freeOffset s page).toUInt64
  available ≥ totalNeeded && freeOffset s page < MIXED_PAGE_MAX_USED

/-- The search of `km_alloc_from_mixed_page_locked`, from `page` on. It goes on over all addresses
until something looks like a page with room. On the machine a search that comes to the end of the
direct map is a page fault. Here the memory has a byte at every address, so the search goes on, up
to the address 0. -/
def findMixedPage (s : KmState) (totalNeeded : UInt64) : Nat → UInt64 → Option UInt64
  | 0, _ => none
  | fuel + 1, page =>
    if page = 0 then none
    else if mixedPageFits s totalNeeded page then some page
    else
      let page := page + PAGE_SIZE.toUInt64
      if pageOffset page ≠ 0 then none else findMixedPage s totalNeeded fuel page

/-- The allocation from a mixed page: write the `alloc_hdr` and move the free offset. -/
def bumpMixedPage (s : KmState) (page size totalNeeded : UInt64) : UInt64 × KmState :=
  let ahdr := page + (freeOffset s page).toUInt64
  let s := s.store 2 ahdr size.toNat
  let s := s.store 2 (ahdr + 2) ALLOC_HDR_MAGIC
  let ptr := ahdr + sizeofAllocHdr
  let s := s.store 4 (page + 8) (s.load 4 (page + 8) + totalNeeded.toNat)
  let s := s.store 4 (page + 4) (s.load 4 (page + 4) + totalNeeded.toNat)
  (ptr, s)

/-- `km_alloc_from_mixed_page_locked`. The address space has `2 ^ 52` pages, so the search
ends within that many rounds. -/
def kmAllocFromMixedPageLocked (s : KmState) (size : UInt64) : Option UInt64 × KmState :=
  let alignedSize := kmAlignUp size KM_ALIGN
  let totalNeeded := sizeofAllocHdr + alignedSize
  match findMixedPage s totalNeeded (2 ^ 52) s.mixedPageHead with
  | some page =>
    let (ptr, s) := bumpMixedPage s page size totalNeeded
    (some ptr, s)
  | none =>
    match kmNewMixedPage s with
    | (none, s) => (none, s)
    | (some newPage, s) =>
      let (ptr, s) := bumpMixedPage { s with mixedPageHead := newPage } newPage size totalNeeded
      (some ptr, s)

/-- `p & ~((uintptr_t)(PAGE_SIZE - 1))`: here the mask has 64 bits. -/
def pageBase (p : UInt64) : UInt64 := p &&& ~~~((PAGE_SIZE - 1).toUInt64)

/-- `km_free_from_mixed_page_locked`. -/
def kmFreeFromMixedPageLocked (s : KmState) (p : UInt64) : KmState :=
  let ahdr := p - sizeofAllocHdr
  if s.load 2 (ahdr + 2) ≠ ALLOC_HDR_MAGIC then s
  else
    let page := pageBase p
    if s.load 4 page ≠ KM_MAGIC_MIXED.toNat then s
    else
      let s := s.store 2 (ahdr + 2) 0
      let freedSize := sizeofAllocHdr + kmAlignUp (UInt64.ofNat (s.load 2 ahdr)) KM_ALIGN
      if s.load 4 (page + 4) ≥ freedSize.toNat then
        s.store 4 (page + 4) (s.load 4 (page + 4) - freedSize.toNat)
      else s

/-! ### Arenas and slabs

`kmalloc` no longer allocates from them. `kmfree` still frees into them. -/

/-- `arena_objs_base`. `capacity` is at offset 14 of `arena_hdr`, which has 24 bytes. -/
def arenaObjsBase (s : KmState) (a : UInt64) : UInt64 :=
  a + 24 + UInt64.ofNat ((s.load 2 (a + 14) + 63) / 64 * 8)

/-- `km_free_to_arena_locked`. `used_count` is at offset 16. -/
def kmFreeToArenaLocked (s : KmState) (a ptr : UInt64) : KmState :=
  let off := ptr - arenaObjsBase s a
  let idx := (off / KM_ALIGN).toNat % 2 ^ 16
  if idx ≥ s.load 2 (a + 14) then s
  else
    let word := a + 24 + UInt64.ofNat (idx / 64 * 8)
    let mask := ~~~((1 : UInt64) <<< UInt64.ofNat (idx % 64))
    let s := s.store 8 word (UInt64.ofNat (s.load 8 word) &&& mask).toNat
    s.store 2 (a + 16) (s.load 2 (a + 16) + (2 ^ 16 - 1))

/-- `slab_objs_base`. `capacity` is at offset 10 of `slab_hdr`, which has 24 bytes. -/
def slabObjsBase (s : KmState) (h : UInt64) : UInt64 :=
  h + 24 + UInt64.ofNat (s.load 2 (h + 10) * 2)

/-- `slab_index_of`. `obj_size` is at offset 8. A slab has a positive `obj_size`. -/
def slabIndexOf (s : KmState) (h ptr : UInt64) : Nat :=
  ((ptr - slabObjsBase s h).toNat / s.load 2 (h + 8)) % 2 ^ 16

/-- `km_free_to_bin_locked`. `next` is at offset 0, `free_count` at 12 and `top` at 20. -/
def kmFreeToBinLocked (s : KmState) (idx : Nat) (h ptr : UInt64) : Except String KmState :=
  let setHead (s : KmState) (v : UInt64) : KmState :=
    { s with bins := fun i => if i = idx then v else s.bins i }
  let top := s.load 2 (h + 20)
  let s := (s.store 2 (h + 20) (top + 1)).store 2 (h + 24 + UInt64.ofNat (top * 2))
    (slabIndexOf s h ptr)
  let s := s.store 2 (h + 12) (s.load 2 (h + 12) + 1)
  let s := if s.load 2 (h + 12) = 1 then setHead (s.store 8 h (s.bins idx).toNat) h else s
  if s.load 2 (h + 12) = s.load 2 (h + 10) then
    let s := if s.bins idx = h then setHead s (UInt64.ofNat (s.load 8 h)) else s
    match kfree s.mem (some h) with
    | .error e => .error e
    | .ok mem => .ok { s with mem := mem }
  else .ok s

/-! ### The interface -/

/-- `kmalloc`. A large block starts with `km_large_hdr`: `magic`, `pages` and two words of
padding. -/
def kmalloc (s : KmState) (n : UInt64) : Option UInt64 × KmState :=
  let n := if n = 0 then 1 else n
  if n ≤ KM_MAX_SMALL then kmAllocFromMixedPageLocked s n
  else
    let need := kmAlignUp n KM_ALIGN
    let total := need + sizeofLargeHdr
    let pages := PAGE_ROUND_UP total / PAGE_SIZE.toUInt64
    match kallocPages s.mem pages with
    | (none, mem) => (none, { s with mem := mem })
    | (some base, mem) =>
      let s := { s with mem := mem }
      let s := s.store 4 base KM_MAGIC_LARGE.toNat
      let s := s.store 4 (base + 4) pages.toNat
      let s := s.store 4 (base + 8) 0
      let s := s.store 4 (base + 12) 0
      (some (base + sizeofLargeHdr), s)

/-- `kcmalloc`. -/
def kcmalloc (s : KmState) (n : UInt64) : Option UInt64 × KmState :=
  match kmalloc s n with
  | (none, s) => (none, s)
  | (some ptr, s) => (some ptr, { s with mem := s.mem.memset ptr 0 n })

/-- `kmfree`. -/
def kmfree (s : KmState) (p : UInt64) : Except String KmState :=
  if p = 0 then .ok s
  else
    let base := pageBase p
    let magic := UInt32.ofNat (s.load 4 base)
    if magic = KM_MAGIC_MIXED then .ok (kmFreeFromMixedPageLocked s p)
    else if magic = KM_MAGIC_ARENA then .ok (kmFreeToArenaLocked s base p)
    else if magic = KM_MAGIC_SMALL then
      kmFreeToBinLocked s (s.load 2 (base + 14)) base p
    else
      let freed :=
        if magic = KM_MAGIC_LARGE then
          let lh := p - sizeofLargeHdr
          if UInt32.ofNat (s.load 4 lh) = KM_MAGIC_LARGE then
            kfreePages s.mem (some lh) (UInt64.ofNat (s.load 4 (lh + 4)))
          else kfree s.mem (some base)
        else kfree s.mem (some base)
      match freed with
      | .error e => .error e
      | .ok mem => .ok { s with mem := mem }

end DzOS.Mem
