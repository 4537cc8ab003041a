import DzOS.Lib.Bytes
import DzOS.Mem.AddressSpace

/-!
# `DzOS.Mem.UserSpace`: the user half of an address space, `vmm.c`

`proc_exec` fills an address space that is not the current one. Its table is a `PageTree`, and
the frames behind it are in `mem`, the physical memory. The tables themselves do not appear in
`mem`. `pages` is the supply of the allocator as in `AddressSpace.lean`, and `freed` collects the
pages that are given back. `recycled` tells which pages of the supply come from the list of freed
pages, since the allocator clears those.
-/

set_option autoImplicit false

namespace DzOS.Mem

open DzOS.Lib

/-- An address space with the physical memory, the supply of pages, and the pages given back. -/
structure UserSpace where
  pagetable : PageTree 3
  mem : Bytes
  pages : List UInt64
  freed : List UInt64
  recycled : UInt64 → Bool

/-- `walk` without allocation. -/
def walkUserNoAlloc (t : PageTree 3) (va : UInt64) (io : Bool) : Except String (Option UInt64) :=
  if (!io && va ≥ USERSPACE_VA_MAX) || va < USERSPACE_VA_MIN then .error "walk"
  else .ok (readLeaf t va)

/-- `vmm_walkaddr`: the frame of an address, and 0 when there is none. -/
def walkAddr (t : PageTree 3) (va : UInt64) (user : Bool) : Except String UInt64 :=
  if va ≥ USERSPACE_VA_MAX then .ok 0
  else
    match walkUserNoAlloc t va false with
    | .error e => .error e
    | .ok none => .ok 0
    | .ok (some pte) =>
      if !pteIsPresent pte then .ok 0
      else if pteIsUser pte != user then .ok 0
      else .ok (pteFollow pte)

/-! ### Allocation -/

/-- The loop of `vmm_allocate`: `k` more pages, from the `i`-th on. The integer is the return
value. -/
def allocateFrom (va : UInt64) (permissions : PtePermissions) (clear : Bool) :
    Nat → Nat → UserSpace → Except String (Int × UserSpace)
  | 0, _, s => .ok (0, s)
  | k + 1, i, s =>
    let currentVa := va + UInt64.ofNat i * PAGE_SIZE.toUInt64
    match s.pages with
    | [] => .ok (-1, s)
    | frame :: pages =>
      -- `kcalloc` fills the frame with 0. `kalloc` does so for a recycled page, and fills a new
      -- one with 2.
      let mem := s.mem.fill frame.toNat 4096 (if clear || s.recycled frame then 0 else 2)
      match walkUser s.pagetable currentVa false pages with
      | .error e => .error e
      | .ok (false, t, pages) => .ok (-1, ⟨t, mem, pages, frame :: s.freed, s.recycled⟩)
      | .ok (true, t, pages) =>
        if leafPresent t currentVa then .error "vmm_allocate: remap"
        else
          allocateFrom va permissions clear k (i + 1)
            ⟨writeLeaf t currentVa (buildPte frame permissions), mem, pages, s.freed, s.recycled⟩

/-- `vmm_allocate`. -/
def UserSpace.vmmAllocate (s : UserSpace) (va size : UInt64) (permissions : PtePermissions)
    (clear : Bool) : Except String (Int × UserSpace) :=
  if va % PAGE_SIZE.toUInt64 ≠ 0 then .error "vmm_allocate: va not aligned"
  else if size % PAGE_SIZE.toUInt64 ≠ 0 then .error "vmm_allocate: size not aligned"
  else if size = 0 then .error "vmm_allocate: size"
  else allocateFrom va permissions clear (size / PAGE_SIZE.toUInt64).toNat 0 s

/-- The loop of `vmm_user_sbrk_allocate`. -/
def UserSpace.sbrkAllocateFrom (newSbrk : UInt64) :
    Nat → UInt64 → UserSpace → Except String UserSpace
  | 0, _, s => .ok s
  | fuel + 1, currentlyAllocating, s =>
    if currentlyAllocating < newSbrk then
      match s.vmmAllocate currentlyAllocating PAGE_SIZE.toUInt64 heapPermissions true with
      | .error e => .error e
      | .ok (r, s) =>
        if r < 0 then .error "sbrk: OOM"
        else sbrkAllocateFrom newSbrk fuel (currentlyAllocating + PAGE_SIZE.toUInt64) s
    else .ok s

/-- `vmm_user_sbrk_allocate`: the new break and the new state. -/
def UserSpace.vmmUserSbrkAllocate (s : UserSpace) (oldSbrk delta : UInt64) :
    Except String (UInt64 × UserSpace) :=
  let newSbrk := oldSbrk + delta
  let oldSbrk := PAGE_ROUND_UP oldSbrk
  match UserSpace.sbrkAllocateFrom newSbrk (newSbrk.toNat / 4096 + 1) oldSbrk s with
  | .error e => .error e
  | .ok s => .ok (newSbrk, s)

/-! ### Copying -/

/-- The loop of `vmm_memcpy`. The frame is looked up for `PAGE_ROUND_DOWN` of the address, which
has 32 bits, and the offset in the frame is the difference of the two.

From 4 GiB on this difference is not an offset in the frame, and the store goes to a place 4 GiB and
more behind it. The direct map ends at `memEnd`, so a store behind that faults, and no handler for a
page fault of the kernel is installed. -/
def memcpyFrom (memEnd : Nat) (t : PageTree 3) (userspace : Bool) :
    Nat → UInt64 → List UInt8 → Bytes → Except String (Int × Bytes)
  | 0, _, _, mem => .ok (0, mem)
  | fuel + 1, destination, source, mem =>
    if source = [] then .ok (0, mem)
    else
      let va0 := PAGE_ROUND_DOWN destination
      if va0 ≥ USERSPACE_VA_MAX || va0 < USERSPACE_VA_MIN then .ok (-1, mem)
      else
        match walkUserNoAlloc t va0 false with
        | .error e => .error e
        | .ok none => .ok (-1, mem)
        | .ok (some pte) =>
          if !pteIsPresent pte || pteIsUser pte != userspace || !pteIsWritable pte then
            .ok (-1, mem)
          else
            let n := min (PAGE_SIZE.toUInt64 - (destination - va0)).toNat source.length
            if destination - va0 ≥ PAGE_SIZE.toUInt64 ∧
                memEnd < (pteFollow pte).toNat + (destination - va0).toNat + n then
              .error "vmm_memcpy: page fault"
            else
              memcpyFrom memEnd t userspace fuel (va0 + PAGE_SIZE.toUInt64) (source.drop n)
                (mem.blit (pteFollow pte + (destination - va0)).toNat (source.take n))

/-- `vmm_memcpy`: the return value and the memory. -/
def vmmMemcpy (memEnd : Nat) (t : PageTree 3) (mem : Bytes) (destination : UInt64)
    (source : List UInt8) (userspace : Bool) : Except String (Int × Bytes) :=
  memcpyFrom memEnd t userspace source.length destination source mem

/-- The loop of `vmm_zero`. -/
def zeroFrom (memEnd : Nat) (t : PageTree 3) (last : UInt64) :
    Nat → UInt64 → Bytes → Except String (Int × Bytes)
  | 0, _, mem => .ok (0, mem)
  | fuel + 1, vaddr, mem =>
    if vaddr < last then
      let toWrite := if last - vaddr > PAGE_SIZE.toUInt64 then PAGE_SIZE.toUInt64 else last - vaddr
      match vmmMemcpy memEnd t mem vaddr (List.replicate toWrite.toNat 0) true with
      | .error e => .error e
      | .ok (r, mem) =>
        if r < 0 then .ok (-1, mem) else zeroFrom memEnd t last fuel (vaddr + toWrite) mem
    else .ok (0, mem)

/-- `vmm_zero`: the return value and the memory. -/
def vmmZero (memEnd : Nat) (t : PageTree 3) (mem : Bytes) (vaddr len : UInt64) :
    Except String (Int × Bytes) :=
  zeroFrom memEnd t (vaddr + len) (len.toNat / 4096 + 1) vaddr mem

/-! ### The end of an address space -/

/-- `phys_addr_valid`. -/
def physAddrValid (physMaxEnd pa : UInt64) : Bool := pa < physMaxEnd && pa % PAGE_SIZE.toUInt64 == 0

/-- The range of an entry of a table of the level is outside the user half. -/
def outsideUserspace (initialVa : UInt64) (i level : Nat) : Bool :=
  let low := initialVa ||| (UInt64.ofNat i <<< UInt64.ofNat (level * 9 + 12))
  let high := initialVa ||| (UInt64.ofNat (i + 1) <<< UInt64.ofNat (level * 9 + 12))
  (high ≥ USERSPACE_VA_MAX && low ≥ USERSPACE_VA_MAX) ||
    (high < USERSPACE_VA_MIN && low < USERSPACE_VA_MIN)

/-- `vmm_user_pagetable_free_recursive`: the pages that it frees, with the table at `pagetable`
as the last one. -/
def pagetableFreeRecursive (physMaxEnd : UInt64) :
    {n : Nat} → PageTree n → (pagetable initialVa : UInt64) → List UInt64
  | _, .leaves entry, pagetable, _ =>
    ((List.range PAGETABLE_PTE_COUNT).filter fun i =>
        pteIsPresent (entry i) && physAddrValid physMaxEnd (pteFollow (entry i))).map
      (fun i => pteFollow (entry i)) ++ [pagetable]
  | n + 1, .node entry child, pagetable, initialVa =>
    ((List.range PAGETABLE_PTE_COUNT).flatMap fun i =>
        if !pteIsPresent (entry i) || outsideUserspace initialVa i (n + 1) || pteIsHuge (entry i)
            || !physAddrValid physMaxEnd (pteFollow (entry i)) then []
        else
          pagetableFreeRecursive physMaxEnd (child i) (pteFollow (entry i))
            (initialVa ||| (UInt64.ofNat i <<< UInt64.ofNat ((n + 1) * 9 + 12)))) ++ [pagetable]

/-- `vmm_user_pagetable_free`: the pages that it frees. -/
def vmmUserPagetableFree (physMaxEnd : UInt64) (t : PageTree 3) (pagetable : UInt64) :
    List UInt64 :=
  pagetableFreeRecursive physMaxEnd t pagetable 0

/-! ### The life of an address space -/

/-- An address space with the page of its top table and all pages that were taken for it. -/
structure Lifetime where
  space : UserSpace
  root : UInt64
  taken : List UInt64

/-- A call on an address space, with the pages that the allocator has for it. -/
inductive SpaceCall where
  | allocate (va size : UInt64) (permissions : PtePermissions) (clear : Bool) (pages : List UInt64)
  | sbrkAllocate (oldSbrk delta : UInt64) (pages : List UInt64)

/-- The pages that the allocator has for a call. -/
def SpaceCall.pages : SpaceCall → List UInt64
  | .allocate _ _ _ _ pages => pages
  | .sbrkAllocate _ _ pages => pages

/-- The state after a call: the pages of the supply that are gone were taken. -/
def Lifetime.after (l : Lifetime) (pages : List UInt64) (s : UserSpace) : Lifetime :=
  { l with space := s, taken := l.taken ++ pages.take (pages.length - s.pages.length) }

/-- One call, and `none` when it panics. -/
def lifetimeStep (l : Lifetime) : SpaceCall → Option Lifetime
  | .allocate va size permissions clear pages =>
    match { l.space with pages := pages }.vmmAllocate va size permissions clear with
    | .error _ => none
    | .ok (_, s) => some (l.after pages s)
  | .sbrkAllocate oldSbrk delta pages =>
    match { l.space with pages := pages }.vmmUserSbrkAllocate oldSbrk delta with
    | .error _ => none
    | .ok (_, s) => some (l.after pages s)

end DzOS.Mem
