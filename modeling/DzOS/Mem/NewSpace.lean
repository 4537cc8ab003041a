import DzOS.Mem.AddressSpace

/-!
# `DzOS.Mem.NewSpace`: a new address space and the page allocator, `vmm.c`

`vmmUserPagetableNew` in `DzOS.Mem.AddressSpace` builds the table of a process. Here the same
function keeps the account of the allocator: `PageSupply` has the pages that are allocated, and
the addresses that the next calls of the allocator return. When the list is empty they return
`NULL`.

A call of `kalloc_pages` takes one address, that of the first page, and `kfree_pages` gives back
all pages of the block. Nothing is allocated after a page was given back, so the list can be
fixed in advance.

In both a copied table is a new value. `MemState.copyPagetable` is `copy_pagetable` on the physical
memory that the tables lie in, and takes its pages from the allocator. A table is named there by its
physical address, as in `DzOS.Mem.Vmm`.
-/

set_option autoImplicit false

namespace DzOS.Mem

open DzOS.Lib

/-- The next results of the allocator, and the pages that are allocated. -/
structure PageSupply where
  pages : List UInt64
  allocated : List UInt64

/-- The pages of a block. -/
def pageRun (ptr : UInt64) (numPages : Nat) : List UInt64 :=
  (List.range numPages).map fun i => ptr + UInt64.ofNat i * PAGE_SIZE.toUInt64

namespace PageSupply

/-- `kalloc_pages`. -/
def kallocPages (s : PageSupply) (numPages : Nat) : Option UInt64 × PageSupply :=
  match s.pages with
  | [] => (none, s)
  | ptr :: pages =>
    (some ptr, { pages := pages, allocated := pageRun ptr numPages ++ s.allocated })

/-- `kalloc` and `kcalloc`. -/
def kalloc (s : PageSupply) : Option UInt64 × PageSupply := s.kallocPages 1

/-- `kfree_pages`, where the pointer is not `NULL`. -/
def kfreePages (s : PageSupply) (ptr : Option UInt64) (numPages : Nat) : PageSupply :=
  match ptr with
  | none => s
  | some ptr => { s with allocated := s.allocated.diff (pageRun ptr numPages) }

/-- `kfree`. -/
def kfree (s : PageSupply) (page : UInt64) : PageSupply := s.kfreePages (some page) 1

/-- The loop of `copy_pagetable`. -/
def copyEntries {n : Nat} (copyInner : Nat → PageSupply → Option (PageTree n) × PageSupply)
    (src : Nat → UInt64) : Nat → Nat → (Nat → UInt64) → (Nat → PageTree n) → PageSupply →
      Option (PageTree (n + 1)) × PageSupply
  | 0, _, entry, child, s => (some (.node entry child), s)
  | left + 1, i, entry, child, s =>
    if pteIsPresent (src i) && !pteIsHuge (src i) then
      match s.kalloc with
      | (none, s) => (none, s)
      | (some dstInner, s) =>
        match copyInner i s with
        | (none, s) => (none, s.kfree dstInner)
        | (some inner, s) =>
          copyEntries copyInner src left (i + 1)
            (Function.update entry i (copiedPte (src i) dstInner))
            (Function.update child i inner) s
    else copyEntries copyInner src left (i + 1) entry child s

/-- `copy_pagetable`. -/
def copyPagetable : {n : Nat} → PageTree n → PageSupply → Option (PageTree n) × PageSupply
  | _, .leaves entry, s => (some (.leaves entry), s)
  | _, .node entry child, s =>
    copyEntries (fun i s => copyPagetable (child i) s) entry PAGETABLE_PTE_COUNT 0 entry child s

/-- `failed:` in `vmm_user_pagetable_new`. -/
def freeStacks (s : PageSupply) (userStack intStack syscallStack : Option UInt64) : PageSupply :=
  let s := s.kfreePages userStack (USER_STACK_SIZE / PAGE_SIZE.toUInt64).toNat
  let s := s.kfreePages intStack (INTSTACK_SIZE / PAGE_SIZE.toUInt64).toNat
  s.kfreePages syscallStack (SYSCALLSTACK_SIZE / PAGE_SIZE.toUInt64).toNat

/-- `mapUserStacks`, with the pages that its tables take. -/
def mapUserStacks (s : PageSupply) (t : PageTree 3) (userStack intStack syscallStack : UInt64) :
    Except String (PageTree 3 × PageSupply) :=
  match DzOS.Mem.mapUserStacks t userStack intStack syscallStack s.pages with
  | .error e => .error e
  | .ok (t, pages) =>
    .ok (t, { pages := pages,
              allocated := s.pages.take (s.pages.length - pages.length) ++ s.allocated })

/-- `vmm_user_pagetable_new`. -/
def vmmUserPagetableNew (s : PageSupply) (kernelPagetable : PageTree 3) :
    Except String (Option (PageTree 3) × PageSupply) :=
  match s.kalloc with
  | (none, s) => .ok (none, s)
  | (some _, s) =>
    match s.copyPagetable kernelPagetable with
    | (none, s) => .ok (none, s)
    | (some t, s) =>
      match s.kallocPages (USER_STACK_SIZE / PAGE_SIZE.toUInt64).toNat with
      | (none, s) => .ok (none, s.freeStacks none none none)
      | (some userStack, s) =>
        match s.kallocPages (INTSTACK_SIZE / PAGE_SIZE.toUInt64).toNat with
        | (none, s) => .ok (none, s.freeStacks (some userStack) none none)
        | (some intStack, s) =>
          match s.kallocPages (SYSCALLSTACK_SIZE / PAGE_SIZE.toUInt64).toNat with
          | (none, s) => .ok (none, s.freeStacks (some userStack) (some intStack) none)
          | (some syscallStack, s) =>
            match s.mapUserStacks t userStack intStack syscallStack with
            | .error e => .error e
            | .ok (t, s) => .ok (some t, s)

end PageSupply

/-! ### `copy_pagetable` in memory -/

namespace MemState

/-- `memcpy(dst, src, PAGE_SIZE)` of a table. -/
def copyTable (s : MemState) (dst src : UInt64) : MemState :=
  { s with mem := s.mem.blit dst.toNat (s.mem.slice src.toNat PAGE_SIZE.toNat) }

/-- The loop of `copy_pagetable` over the entries from `i` on. The integer is the return value. -/
def copyEntries (copyInner : MemState → UInt64 → UInt64 → Except String (Int × MemState))
    (dst src : UInt64) : Nat → Nat → MemState → Except String (Int × MemState)
  | 0, _, s => .ok (0, s)
  | left + 1, i, s =>
    let pteSrc := readPte s.mem (src.toNat + 8 * i)
    if pteIsPresent pteSrc && !pteIsHuge pteSrc then
      match kalloc s with
      | (none, s) => .ok (1, s)
      | (some dstInner, s) =>
        let s := s.memset dstInner 0 PAGE_SIZE.toUInt64
        match copyInner s (s.V2P dstInner) (pteFollow pteSrc) with
        | .error e => .error e
        | .ok (r, s) =>
          if r ≠ 0 then
            match kfree s (some dstInner) with
            | .error e => .error e
            | .ok s => .ok (1, s)
          else
            copyEntries copyInner dst src left (i + 1)
              (writePte s (dst.toNat + 8 * i) (copiedPte pteSrc (s.V2P dstInner)))
    else copyEntries copyInner dst src left (i + 1) s

/-- `copy_pagetable`. -/
def copyPagetable : Nat → MemState → UInt64 → UInt64 → Except String (Int × MemState)
  | 0, s, dst, src => .ok (0, s.copyTable dst src)
  | level + 1, s, dst, src =>
    copyEntries (copyPagetable level) dst src PAGETABLE_PTE_COUNT 0 (s.copyTable dst src)

end MemState

end DzOS.Mem
