import DzOS.Lib.Bytes
import DzOS.Mem.Page

/-!
# `DzOS.Mem.Mem`: the physical page allocator of `mem.c`

The allocator keeps freed pages on the list `freepages` and lends the rest out of `regions`,
a list of ranges of physical memory that it carves from the front. `initMem` fills `regions`
from the memory map of the bootloader.

Pages are handed out as pointers into the direct map: `P2V` adds `hhdm_offset`, the base of
the direct map in the higher half, so the pointer of a physical page is never `NULL`. The
model keeps the pointer values and writes `none` for `NULL`. The list `freepages` holds the
freed pages in link order, most recent first. In the source the links are stored in the
freed pages themselves. The locks do not appear: each function runs to its end under them.

`panic` ends the kernel. A function that can reach it returns `Except String`, with the text
of the panic.
-/

set_option autoImplicit false

namespace DzOS.Mem

open DzOS.Lib

/-- `struct mem_region`: usable physical memory that is not carved yet, from the next free
page to one past the last page. -/
structure MemRegion where
  physCur : UInt64
  physEnd : UInt64
  deriving DecidableEq, Repr

/-- `STATIC_REGION_POOL_SIZE`. -/
def STATIC_REGION_POOL_SIZE : Nat := 32

/-- The variables of `mem.c`, with the contents `mem` of physical memory. -/
structure MemState where
  hhdmOffset : UInt64
  physMaxEnd : UInt64
  freepages : List UInt64
  regions : List MemRegion
  memInitialized : Bool
  staticRegionPoolIdx : Nat
  mem : Bytes

/-- The state of `mem.c` before `init_mem`, with arbitrary contents of physical memory. -/
def MemState.boot (mem : Bytes) : MemState where
  hhdmOffset := 0
  physMaxEnd := 0
  freepages := []
  regions := []
  memInitialized := false
  staticRegionPoolIdx := 0
  mem := mem

/-- `V2P(ptr)`. -/
def MemState.V2P (s : MemState) (ptr : UInt64) : UInt64 := ptr - s.hhdmOffset

/-- `P2V(ptr)`. -/
def MemState.P2V (s : MemState) (ptr : UInt64) : UInt64 := ptr + s.hhdmOffset

/-- `memset(page, c, len)` on the physical memory behind a pointer of the direct map. -/
def MemState.memset (s : MemState) (ptr : UInt64) (c : UInt8) (len : UInt64) : MemState :=
  { s with mem := s.mem.fill (s.V2P ptr).toNat len.toNat c }

/-! ### The free list -/

/-- `push_free_page`. -/
def pushFreePage (s : MemState) (page : UInt64) : MemState :=
  { s with freepages := page :: s.freepages }

/-- `pop_free_page`. -/
def popFreePage (s : MemState) : Option UInt64 × MemState :=
  match s.freepages with
  | [] => (none, s)
  | p :: rest => (some p, { s with freepages := rest })

/-- `kfree`: push a page to the free list. -/
def kfree (s : MemState) (page : Option UInt64) : Except String MemState :=
  match page with
  | none => .ok s
  | some va =>
    if pageOffset va ≠ 0 then .error "kfree: unaligned page"
    else if pageOffset (s.V2P va) ≠ 0 then .error "kfree: V2P produced unaligned phys"
    else .ok (pushFreePage s va)

/-! ### Carving regions -/

/-- The walk over the regions shared by `alloc_from_regions_for_page_cache` and
`alloc_contiguous_from_regions`: take `bytes` from the front of the first region that
`fits`, and unlink that region when nothing is left of it. -/
def carve (fits : MemRegion → Bool) (bytes : UInt64) :
    List MemRegion → Option (UInt64 × List MemRegion)
  | [] => none
  | it :: next =>
    if fits it then
      let cur := it.physCur + bytes
      if cur ≥ it.physEnd then some (it.physCur, next)
      else some (it.physCur, { it with physCur := cur } :: next)
    else
      match carve fits bytes next with
      | none => none
      | some (phys, next') => some (phys, it :: next')

/-- A carved block as the pointer that the callers return. -/
def MemState.carved (s : MemState) (r : Option (UInt64 × List MemRegion)) :
    Option UInt64 × MemState :=
  match r with
  | none => (none, s)
  | some (phys, regions) => (some (s.P2V phys), { s with regions := regions })

/-- `alloc_from_regions_for_page_cache`. -/
def allocFromRegionsForPageCache (s : MemState) : Option UInt64 × MemState :=
  s.carved (carve (fun it => it.physCur < it.physEnd) PAGE_SIZE.toUInt64 s.regions)

/-- `alloc_contiguous_from_regions`. -/
def allocContiguousFromRegions (s : MemState) (numPages : UInt64) : Option UInt64 × MemState :=
  if numPages = 0 then (none, s)
  else
    let bytesNeeded := numPages * PAGE_SIZE.toUInt64
    s.carved (carve (fun it => it.physEnd - it.physCur ≥ bytesNeeded) bytesNeeded s.regions)

/-! ### Single pages -/

/-- The body shared by `kalloc` and `kcalloc`: a freed page is cleared, and a page from the
regions is filled with `c`. -/
def kallocFill (s : MemState) (c : UInt8) : Option UInt64 × MemState :=
  match popFreePage s with
  | (some page, s) => (some page, s.memset page 0 PAGE_SIZE.toUInt64)
  | (none, s) =>
    match allocFromRegionsForPageCache s with
    | (none, s) => (none, s)
    | (some page, s) => (some page, s.memset page c PAGE_SIZE.toUInt64)

/-- `kalloc`: a page from the regions is filled with the pattern 2. -/
def kalloc (s : MemState) : Option UInt64 × MemState := kallocFill s 2

/-- `kcalloc`: the page is cleared wherever it comes from. -/
def kcalloc (s : MemState) : Option UInt64 × MemState := kallocFill s 0

/-- `kalloc_for_page_cache`: the page is not cleared. -/
def kallocForPageCache (s : MemState) : Option UInt64 × MemState :=
  match popFreePage s with
  | (some page, s) => (some page, s)
  | (none, s) => allocFromRegionsForPageCache s

/-! ### Contiguous pages -/

/-- The inner loop of `alloc_contiguous_from_freelist`: `k` more list entries must be the
pages that follow `basePhys` physically, from the `i`-th on. The result is the list after
them. -/
def scanRun (s : MemState) (basePhys : UInt64) : Nat → Nat → List UInt64 → Option (List UInt64)
  | 0, _, next => some next
  | _ + 1, _, [] => none
  | k + 1, i, q :: next =>
    if basePhys + UInt64.ofNat i * PAGE_SIZE.toUInt64 = s.V2P q then
      scanRun s basePhys k (i + 1) next
    else none

/-- The outer loop of `alloc_contiguous_from_freelist`: the first list entry that starts a
run of `n + 1` physically consecutive pages, with the list without the run. -/
def findRun (s : MemState) (n : Nat) : List UInt64 → Option (UInt64 × List UInt64)
  | [] => none
  | it :: next =>
    match scanRun s (s.V2P it) n 1 next with
    | some rest => some (it, rest)
    | none =>
      match findRun s n next with
      | none => none
      | some (q, rest) => some (q, it :: rest)

/-- `alloc_contiguous_from_freelist`. -/
def allocContiguousFromFreelist (s : MemState) (numPages : UInt64) :
    Option UInt64 × MemState :=
  if numPages ≤ 1 then (none, s)
  else
    match findRun s (numPages.toNat - 1) s.freepages with
    | none => (none, s)
    | some (page, rest) => (some page, { s with freepages := rest })

/-- `kalloc_pages`. -/
def kallocPages (s : MemState) (numPages : UInt64) : Option UInt64 × MemState :=
  if numPages = 0 then (none, s)
  else if numPages = 1 then kalloc s
  else
    match allocContiguousFromFreelist s numPages with
    | (some pages, s) => (some pages, s.memset pages 2 (numPages * PAGE_SIZE.toUInt64))
    | (none, s) =>
      match allocContiguousFromRegions s numPages with
      | (some pages, s) => (some pages, s.memset pages 2 (numPages * PAGE_SIZE.toUInt64))
      | (none, s) => (none, s)

/-- The loop of `kfree_pages`: free `k` pages from the `i`-th on. -/
def kfreePagesFrom (va : UInt64) : Nat → Nat → MemState → Except String MemState
  | 0, _, s => .ok s
  | k + 1, i, s =>
    match kfree s (some (va + UInt64.ofNat i * PAGE_SIZE.toUInt64)) with
    | .error e => .error e
    | .ok s => kfreePagesFrom va k (i + 1) s

/-- `kfree_pages`. -/
def kfreePages (s : MemState) (ptr : Option UInt64) (numPages : UInt64) :
    Except String MemState :=
  match ptr with
  | none => .ok s
  | some va =>
    if numPages = 0 then .ok s
    else if pageOffset va ≠ 0 then .error "kfree_pages: unaligned pointer"
    else kfreePagesFrom va numPages.toNat 0 s

/-! ### The memory map -/

/-- `LIMINE_MEMMAP_USABLE`. -/
def LIMINE_MEMMAP_USABLE : UInt64 := 0

/-- `struct limine_memmap_entry`. -/
structure MemmapEntry where
  base : UInt64
  length : UInt64
  type : UInt64
  deriving DecidableEq, Repr

/-- `append_region`: `none` is the result -1, an exhausted static pool. -/
def appendRegion (s : MemState) (physStart physEnd : UInt64) : Option MemState :=
  if physStart ≥ physEnd then some s
  else
    let r := if s.memInitialized && !s.freepages.isEmpty then kallocForPageCache s else (none, s)
    let region : MemRegion := { physCur := physStart, physEnd := physEnd }
    match r with
    | (some _, s) => some { s with regions := s.regions ++ [region] }
    | (none, s) =>
      if s.staticRegionPoolIdx ≥ STATIC_REGION_POOL_SIZE then none
      else some { s with
        staticRegionPoolIdx := s.staticRegionPoolIdx + 1
        regions := s.regions ++ [region] }

/-- One round of the loop of `init_mem`. -/
def initMemEntry (s : MemState) (entry : Option MemmapEntry) : Except String MemState :=
  match entry with
  | none => .ok s
  | some entry =>
    let last := entry.base + entry.length
    let s := if last > s.physMaxEnd then { s with physMaxEnd := last } else s
    if entry.type ≠ LIMINE_MEMMAP_USABLE then .ok s
    else if entry.length < PAGE_SIZE.toUInt64 then .ok s
    else
      let alignedBase := PAGE_ROUND_UP entry.base
      let last := PAGE_ROUND_DOWN (entry.base + entry.length)
      if alignedBase ≥ last then .ok s
      else
        match appendRegion s alignedBase last with
        | none => .error
            "init_mem: failed to register memory region - increase STATIC_REGION_POOL_SIZE"
        | some s => .ok s

/-- `init_mem`. A second call is ignored. -/
def initMem (s : MemState) (hhdmOffset : UInt64) (memoryMap : Option (List (Option MemmapEntry))) :
    Except String MemState :=
  if s.memInitialized then .ok s
  else
    match memoryMap with
    | none => .error "init_mem: null memory_map"
    | some entries =>
      match entries.foldlM initMemEntry { s with hhdmOffset := hhdmOffset } with
      | .error e => .error e
      | .ok s => .ok { s with memInitialized := true }

end DzOS.Mem
