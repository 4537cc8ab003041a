import DzOS.Lib.Radix
import DzOS.Mem.Vmm

/-!
# `DzOS.Mem.AddressSpace`: the kernel half of the address spaces, `vmm.c`

The page tables of different address spaces do not share memory, so a whole table is a value
here: a `PageTree` has the raw entries, and with each entry the table behind it. The kernel
has one table, and every process has a copy of it.

`pages` lists the physical addresses that the allocator returns in the calls of a function, in
their order. An empty list is out of memory. The functions return the rest of the list. A call
of `kalloc_pages` takes one address, that of its first page. Frames that are given back do not
appear, and neither does the TLB.

`translate` is what the CPU makes of a table.
-/

set_option autoImplicit false

namespace DzOS.Mem

open DzOS.Lib

/-- `PTE_PWT`: write-through. -/
def PTE_PWT : UInt64 := (1 : UInt64) <<< 3

/-- `PTE_PCD`: cache disable. -/
def PTE_PCD : UInt64 := (1 : UInt64) <<< 4

/-- `PTE_PS`: a huge page. -/
def PTE_PS : UInt64 := (1 : UInt64) <<< 7

/-- `KERNEL_VA_MIN`. -/
def KERNEL_VA_MIN : UInt64 := (1 : UInt64) <<< 47

/-- `KERNEL_STACK_BASE`. -/
def KERNEL_STACK_BASE : UInt64 := 0xFFFF900000000000

/-- `KERNEL_STACK_SIZE`. -/
def KERNEL_STACK_SIZE : UInt64 := 0x4000

/-- `KERNEL_STACK_GUARD_SIZE`. -/
def KERNEL_STACK_GUARD_SIZE : UInt64 := PAGE_SIZE.toUInt64

/-- `KERNEL_STACK_TOTAL_SIZE`. -/
def KERNEL_STACK_TOTAL_SIZE : UInt64 := KERNEL_STACK_SIZE + KERNEL_STACK_GUARD_SIZE

/-- `USER_STACK_TOP`. -/
def USER_STACK_TOP : UInt64 := USERSPACE_VA_MAX

/-- `USER_STACK_SIZE`. -/
def USER_STACK_SIZE : UInt64 := 0x8000

/-- `USER_STACK_BOTTOM`. -/
def USER_STACK_BOTTOM : UInt64 := USER_STACK_TOP - USER_STACK_SIZE

/-- `INTSTACK_SIZE`. -/
def INTSTACK_SIZE : UInt64 := 0x8000

/-- `INTSTACK_VIRTUAL_ADDRESS_BOTTOM`. A guard page lies below the user stack. -/
def INTSTACK_VIRTUAL_ADDRESS_BOTTOM : UInt64 :=
  USER_STACK_BOTTOM - PAGE_SIZE.toUInt64 - INTSTACK_SIZE

/-- `SYSCALLSTACK_SIZE`. -/
def SYSCALLSTACK_SIZE : UInt64 := 0x8000

/-- `SYSCALLSTACK_VIRTUAL_ADDRESS_BOTTOM`. -/
def SYSCALLSTACK_VIRTUAL_ADDRESS_BOTTOM : UInt64 :=
  INTSTACK_VIRTUAL_ADDRESS_BOTTOM - PAGE_SIZE.toUInt64 - SYSCALLSTACK_SIZE

/-- `PAGETABLE_PTE_COUNT`. -/
def PAGETABLE_PTE_COUNT : Nat := 512

/-- `pte_is_huge`. -/
def pteIsHuge (pte : UInt64) : Bool := (pte &&& PTE_PS) != 0

/-- Is the page of this entry executable? -/
def pteIsExecutable (pte : UInt64) : Bool := (pte &&& PTE_XD) == 0

/-! ### Tables and walks -/

/-- A page table of a level, with the tables behind its entries. -/
abbrev PageTree := Radix UInt64 Nat

/-- The indices of an address, by level. -/
def vaPath (va : UInt64) (level : Nat) : Nat := (PTE_INDEX_FROM_VA va level).toNat

/-- `*walk(pagetable, va)` without allocation, and `none` for `NULL`. -/
def readLeaf (t : PageTree 3) (va : UInt64) : Option UInt64 := t.leaf pteIsPresent (vaPath va)

/-- `*walk(pagetable, va) = v`. -/
def writeLeaf (t : PageTree 3) (va v : UInt64) : PageTree 3 :=
  t.setLeaf pteIsPresent (vaPath va) v

/-- The loop of a walk with allocation: the missing tables get the entry `flags` with their
address. The result says whether the memory was enough. -/
def extendPath (flags : UInt64) (t : PageTree 3) (va : UInt64) (pages : List UInt64) :
    Bool × PageTree 3 × List UInt64 :=
  t.extend pteIsPresent (fun pa => flags ||| PTE_SET_ADDR pa) 0 (vaPath va) pages

/-- `walk_kernel` with allocation. -/
def walkKernel (t : PageTree 3) (va : UInt64) (pages : List UInt64) :
    Except String (Bool × PageTree 3 × List UInt64) :=
  if va < KERNEL_VA_MIN then .error "walk_kernel: va below kernel min"
  else .ok (extendPath (PTE_P ||| PTE_W) t va pages)

/-- `walk_kernel` without allocation. -/
def walkKernelNoAlloc (t : PageTree 3) (va : UInt64) : Except String (Option UInt64) :=
  if va < KERNEL_VA_MIN then .error "walk_kernel: va below kernel min" else .ok (readLeaf t va)

/-- `walk` with allocation. -/
def walkUser (t : PageTree 3) (va : UInt64) (io : Bool) (pages : List UInt64) :
    Except String (Bool × PageTree 3 × List UInt64) :=
  if (!io && va ≥ USERSPACE_VA_MAX) || va < USERSPACE_VA_MIN then .error "walk"
  else .ok (extendPath (PTE_P ||| PTE_W ||| PTE_U) t va pages)

/-- Is the page of `va` present in the last level? -/
def leafPresent (t : PageTree 3) (va : UInt64) : Bool := (readLeaf t va).any pteIsPresent

/-! ### Kernel mappings -/

/-- The entry that `vmm_map_kernel_pages` builds. -/
def kernelPte (pa : UInt64) (perm : PtePermissions) : UInt64 :=
  let pte := PTE_P ||| PTE_SET_ADDR pa
  let pte := if perm.writable then pte ||| PTE_W else pte
  if !perm.executable then pte ||| PTE_XD else pte

/-- The loop of `vmm_map_kernel_pages`: `k` more pages, from the `i`-th on. The integer is the
return value. -/
def mapKernelPagesFrom (va pa : UInt64) (perm : PtePermissions) :
    Nat → Nat → PageTree 3 → List UInt64 → Except String (Int × PageTree 3 × List UInt64)
  | 0, _, t, pages => .ok (0, t, pages)
  | k + 1, i, t, pages =>
    let currentVa := va + UInt64.ofNat i * PAGE_SIZE.toUInt64
    match walkKernel t currentVa pages with
    | .error e => .error e
    | .ok (false, t, pages) => .ok (-1, t, pages)
    | .ok (true, t, pages) =>
      if leafPresent t currentVa then .error "vmm_map_kernel_pages: remap"
      else
        mapKernelPagesFrom va pa perm k (i + 1)
          (writeLeaf t currentVa (kernelPte (pa + UInt64.ofNat i * PAGE_SIZE.toUInt64) perm)) pages

/-- `vmm_map_kernel_pages`. -/
def vmmMapKernelPages (t : PageTree 3) (va pa size : UInt64) (perm : PtePermissions)
    (pages : List UInt64) : Except String (Int × PageTree 3 × List UInt64) :=
  if va % PAGE_SIZE.toUInt64 ≠ 0 ∨ pa % PAGE_SIZE.toUInt64 ≠ 0 ∨ size % PAGE_SIZE.toUInt64 ≠ 0 then
    .error "vmm_map_kernel_pages: alignment"
  else mapKernelPagesFrom va pa perm (size / PAGE_SIZE.toUInt64).toNat 0 t pages

/-- `kernel_pagetable` with `io_memmap_current_address`. -/
structure KernelSpace where
  kernelPagetable : PageTree 3
  ioMemmapCurrentAddress : UInt64

/-- The entry that `vmm_io_memmap` builds. -/
def ioPte (pa : UInt64) : UInt64 :=
  PTE_P ||| PTE_W ||| PTE_PWT ||| PTE_PCD ||| PTE_XD ||| PTE_SET_ADDR pa

/-- The loop of `vmm_io_memmap`. The first component is `false` when it returns `NULL`. -/
def ioMemmapFrom (va pa : UInt64) :
    Nat → Nat → PageTree 3 → List UInt64 → Except String (Bool × PageTree 3)
  | 0, _, t, _ => .ok (true, t)
  | k + 1, i, t, pages =>
    let currentVa := va + UInt64.ofNat i * PAGE_SIZE.toUInt64
    match walkUser t currentVa true pages with
    | .error e => .error e
    | .ok (false, t, _) => .ok (false, t)
    | .ok (true, t, pages) =>
      if leafPresent t currentVa then .error "vmm_io_memmap: remap"
      else
        ioMemmapFrom va pa k (i + 1)
          (writeLeaf t currentVa (ioPte (pa + UInt64.ofNat i * PAGE_SIZE.toUInt64))) pages

/-- `vmm_io_memmap`: the address of the mapping, or `none` for `NULL`, and the new state. -/
def vmmIoMemmap (k : KernelSpace) (pa size : UInt64) (pages : List UInt64) :
    Except String (Option UInt64 × KernelSpace) :=
  if pa % PAGE_SIZE.toUInt64 ≠ 0 then .error "vmm_io_memmap: pa not aligned"
  else if size % PAGE_SIZE.toUInt64 ≠ 0 then .error "vmm_io_memmap: size not aligned"
  else if size = 0 then .error "vmm_io_memmap: size"
  else
    let va := k.ioMemmapCurrentAddress
    match ioMemmapFrom va pa (size / PAGE_SIZE.toUInt64).toNat 0 k.kernelPagetable pages with
    | .error e => .error e
    | .ok (ok, t) =>
      .ok (if ok then some va else none,
        { kernelPagetable := t, ioMemmapCurrentAddress := k.ioMemmapCurrentAddress + size })

/-! ### Kernel stacks -/

/-- The address of the slot `i` of the kernel stacks. -/
def kernelStackVa (i : Nat) : UInt64 :=
  KERNEL_STACK_BASE + UInt64.ofNat i * KERNEL_STACK_TOTAL_SIZE

/-- The `k`-th page of the stack in the slot `i`, above the guard page. The loops of the source
count `stack_remaining` down from `KERNEL_STACK_SIZE`. -/
def stackPageVa (i k : Nat) : UInt64 :=
  kernelStackVa i + KERNEL_STACK_GUARD_SIZE + UInt64.ofNat k * PAGE_SIZE.toUInt64

/-- The number of pages of a stack. -/
def STACK_PAGES : Nat := (KERNEL_STACK_SIZE / PAGE_SIZE.toUInt64).toNat

/-- The permissions of a stack page. -/
def stackPermissions : PtePermissions :=
  { writable := true, executable := false, userspace := false }

/-- The loop of `vmm_allocate_proc_kernel_stack`: `left` more pages, from the `k`-th on. -/
def mapStackPages (i : Nat) :
    Nat → Nat → PageTree 3 → List UInt64 → Except String (PageTree 3 × List UInt64)
  | 0, _, t, pages => .ok (t, pages)
  | left + 1, k, t, pages =>
    match pages with
    | [] => .error "vmm_allocate_proc_kernel_stack: out of memory for stack pages"
    | kernelPa :: pages =>
      match vmmMapKernelPages t (stackPageVa i k) kernelPa PAGE_SIZE.toUInt64 stackPermissions
          pages with
      | .error e => .error e
      | .ok (r, t, pages) =>
        if r < 0 then .error "vmm_allocate_proc_kernel_stack: failed to map stack page"
        else mapStackPages i left (k + 1) t pages

/-- `vmm_allocate_proc_kernel_stack`: the top of the stack and the new table. The guard page
gets an entry that is not present. -/
def vmmAllocateProcKernelStack (t : PageTree 3) (i : Nat) (pages : List UInt64) :
    Except String (UInt64 × PageTree 3 × List UInt64) :=
  match walkKernel t (kernelStackVa i) pages with
  | .error e => .error e
  | .ok (false, _, _) =>
    .error "vmm_allocate_proc_kernel_stack: failed to allocate guard page PTE"
  | .ok (true, _, []) => .error "vmm_allocate_proc_kernel_stack: out of memory for guard page"
  | .ok (true, t, guardPage :: pages) =>
    let t := writeLeaf t (kernelStackVa i) (PTE_SET_ADDR guardPage)
    match mapStackPages i STACK_PAGES 0 t pages with
    | .error e => .error e
    | .ok (t, pages) =>
      .ok (kernelStackVa i + KERNEL_STACK_GUARD_SIZE + KERNEL_STACK_SIZE, t, pages)

/-- The loop of `vmm_free_proc_kernel_stack`. -/
def unmapStackPages (i : Nat) : Nat → Nat → PageTree 3 → Except String (PageTree 3)
  | 0, _, t => .ok t
  | left + 1, k, t =>
    match walkKernelNoAlloc t (stackPageVa i k) with
    | .error e => .error e
    | .ok pte =>
      if pte.any pteIsPresent then
        unmapStackPages i left (k + 1) (writeLeaf t (stackPageVa i k) 0)
      else .error "vmm_free_proc_kernel_stack: missing PTE for stack page"

/-- `vmm_free_proc_kernel_stack`. -/
def vmmFreeProcKernelStack (t : PageTree 3) (i : Nat) : Except String (PageTree 3) :=
  match walkKernelNoAlloc t (kernelStackVa i) with
  | .error e => .error e
  | .ok guardPte =>
    let t := if guardPte.isSome then writeLeaf t (kernelStackVa i) 0 else t
    unmapStackPages i STACK_PAGES 0 t

/-! ### The table of a process -/

/-- The entry of a copied table: its address, with the permissions of the original. -/
def copiedPte (pteSrc dstInner : UInt64) : UInt64 :=
  let pte := PTE_P ||| PTE_SET_ADDR dstInner
  let pte := if pteIsWritable pteSrc then pte ||| PTE_W else pte
  let pte := if pteIsUser pteSrc then pte ||| PTE_U else pte
  if (pteSrc &&& PTE_XD) != 0 then pte ||| PTE_XD else pte

/-- The loop of `copy_pagetable` over the entries from `i` on: `entry` and `child` are the
table that is built, which starts as a copy of the source. The result is `none` when memory is
out. -/
def copyEntries {n : Nat}
    (copyInner : Nat → List UInt64 → Option (PageTree n × List UInt64)) (src : Nat → UInt64) :
    Nat → Nat → (Nat → UInt64) → (Nat → PageTree n) → List UInt64 →
      Option (PageTree (n + 1) × List UInt64)
  | 0, _, entry, child, pages => some (.node entry child, pages)
  | left + 1, i, entry, child, pages =>
    if pteIsPresent (src i) && !pteIsHuge (src i) then
      match pages with
      | [] => none
      | dstInner :: pages =>
        match copyInner i pages with
        | none => none
        | some (inner, pages) =>
          copyEntries copyInner src left (i + 1)
            (Function.update entry i (copiedPte (src i) dstInner))
            (Function.update child i inner) pages
    else copyEntries copyInner src left (i + 1) entry child pages

/-- `copy_pagetable`. -/
def copyPagetable : {n : Nat} → PageTree n → List UInt64 → Option (PageTree n × List UInt64)
  | _, .leaves entry, pages => some (.leaves entry, pages)
  | _, .node entry child, pages =>
    copyEntries (fun i pages => copyPagetable (child i) pages) entry PAGETABLE_PTE_COUNT 0 entry
      child pages

/-- The loop of `vmm_map_pages`: `k` more pages, from the `i`-th on. -/
def mapPagesFrom (va pa : UInt64) (permissions : PtePermissions) :
    Nat → Nat → PageTree 3 → List UInt64 → Except String (Int × PageTree 3 × List UInt64)
  | 0, _, t, pages => .ok (0, t, pages)
  | k + 1, i, t, pages =>
    let currentVa := va + UInt64.ofNat i * PAGE_SIZE.toUInt64
    match walkUser t currentVa false pages with
    | .error e => .error e
    | .ok (false, t, pages) => .ok (-1, t, pages)
    | .ok (true, t, pages) =>
      if leafPresent t currentVa then .error "vmm_map_pages: remap"
      else
        mapPagesFrom va pa permissions k (i + 1)
          (writeLeaf t currentVa
            (buildPte (pa + UInt64.ofNat i * PAGE_SIZE.toUInt64) permissions)) pages

/-- `vmm_map_pages`. -/
def vmmMapPages (t : PageTree 3) (va size pa : UInt64) (permissions : PtePermissions)
    (pages : List UInt64) : Except String (Int × PageTree 3 × List UInt64) :=
  if pa % PAGE_SIZE.toUInt64 ≠ 0 then .error "vmm_map_pages: pa not aligned"
  else if va % PAGE_SIZE.toUInt64 ≠ 0 then .error "vmm_map_pages: va not aligned"
  else if size % PAGE_SIZE.toUInt64 ≠ 0 then .error "vmm_map_pages: size not aligned"
  else if size = 0 then .error "vmm_map_pages: size"
  else mapPagesFrom va pa permissions (size / PAGE_SIZE.toUInt64).toNat 0 t pages

/-- The three stacks that `vmm_user_pagetable_new` maps. The return values of `vmm_map_pages`
are ignored. -/
def mapUserStacks (t : PageTree 3) (userStack intStack syscallStack : UInt64)
    (pages : List UInt64) : Except String (PageTree 3 × List UInt64) := do
  let (_, t, pages) ← vmmMapPages t USER_STACK_BOTTOM USER_STACK_SIZE userStack
    { writable := true, executable := false, userspace := true } pages
  let (_, t, pages) ← vmmMapPages t INTSTACK_VIRTUAL_ADDRESS_BOTTOM INTSTACK_SIZE intStack
    { writable := true, executable := false, userspace := false } pages
  let (_, t, pages) ← vmmMapPages t SYSCALLSTACK_VIRTUAL_ADDRESS_BOTTOM SYSCALLSTACK_SIZE
    syscallStack { writable := true, executable := false, userspace := false } pages
  return (t, pages)

/-- `vmm_user_pagetable_new`: the table of a new process, or `none` for `NULL`. -/
def vmmUserPagetableNew (kernelPagetable : PageTree 3) (pages : List UInt64) :
    Except String (Option (PageTree 3) × List UInt64) :=
  match pages with
  | [] => .ok (none, [])
  | _ :: pages =>
    match copyPagetable kernelPagetable pages with
    | none => .ok (none, [])
    | some (t, userStack :: intStack :: syscallStack :: pages) => do
      let (t, pages) ← mapUserStacks t userStack intStack syscallStack pages
      return (some t, pages)
    | some (_, _) => .ok (none, [])

/-! ### What the CPU sees -/

/-- The page of an address: its frame, the level of the entry that maps it, and what may be
done with it. -/
structure Translation where
  frame : UInt64
  level : Nat
  writable : Bool
  user : Bool
  executable : Bool
  deriving DecidableEq, Repr

/-- The walk of the CPU from a table on. A permission holds when every entry of the walk gives
it. An entry of level 1 or 2 may map a huge page. -/
def translateFrom : {n : Nat} → PageTree n → (Nat → Nat) → Bool → Bool → Bool → Option Translation
  | _, .leaves e, p, w, u, x =>
    let pte := e (p 0)
    if pteIsPresent pte then
      some {
        frame := pteFollow pte
        level := 0
        writable := w && pteIsWritable pte
        user := u && pteIsUser pte
        executable := x && pteIsExecutable pte }
    else none
  | n + 1, .node e c, p, w, u, x =>
    let pte := e (p (n + 1))
    let w := w && pteIsWritable pte
    let u := u && pteIsUser pte
    let x := x && pteIsExecutable pte
    if !pteIsPresent pte then none
    else if pteIsHuge pte then
      if n + 1 < 3 then
        some { frame := pteFollow pte, level := n + 1, writable := w, user := u, executable := x }
      else none
    else translateFrom (c (p (n + 1))) p w u x

/-- An address is canonical when its upper 17 bits are equal. -/
def canonical (va : UInt64) : Bool := va < (1 : UInt64) <<< 47 || va ≥ 0xFFFF800000000000

/-- The translation of an address. -/
def translate (t : PageTree 3) (va : UInt64) : Option Translation :=
  if canonical va then translateFrom t (vaPath va) true true true else none

end DzOS.Mem
