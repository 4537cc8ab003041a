import DzOS.Mem.AddressSpace

/-!
# `DzOS.Mem.KernelSpace`: physical ranges and released stacks, `vmm.c`

`vmm_map_physical` maps a range of physical memory with `vmm_io_memmap`. It rounds with
`~(PAGE_SIZE - 1)`, which has 32 bits.

`vmmFreeProcKernelStackFrames` is `vmm_free_proc_kernel_stack` with the frames that it gives
to `kfree`, in their order. `stackStep` is a call for one of the kernel stacks.
-/

set_option autoImplicit false

namespace DzOS.Mem

open DzOS.Lib

/-- `vmm_map_physical`. A mapping that fails counts as the address 0. -/
def vmmMapPhysical (k : KernelSpace) (physStart physEnd : UInt64) (pages : List UInt64) :
    Except String (UInt64 × KernelSpace) :=
  if physEnd ≤ physStart then .error "vmm_map_physical: invalid range"
  else
    let alignedStart := physStart &&& pageMask
    let offset := physStart - alignedStart
    let size := physEnd - alignedStart
    let size := if size % PAGE_SIZE.toUInt64 ≠ 0 then PAGE_ROUND_UP size else size
    match vmmIoMemmap k alignedStart size pages with
    | .error e => .error e
    | .ok (va, k) => .ok (va.getD 0 + offset, k)

/-- The loop of `vmm_free_proc_kernel_stack`. -/
def freeStackPages (i : Nat) : Nat → Nat → PageTree 3 → Except String (PageTree 3 × List UInt64)
  | 0, _, t => .ok (t, [])
  | left + 1, k, t =>
    match walkKernelNoAlloc t (stackPageVa i k) with
    | .error e => .error e
    | .ok none => .error "vmm_free_proc_kernel_stack: missing PTE for stack page"
    | .ok (some pte) =>
      if !pteIsPresent pte then .error "vmm_free_proc_kernel_stack: missing PTE for stack page"
      else
        match freeStackPages i left (k + 1) (writeLeaf t (stackPageVa i k) 0) with
        | .error e => .error e
        | .ok (t, frames) => .ok (t, pteFollow pte :: frames)

/-- `vmm_free_proc_kernel_stack`: the new table and the frames that go to `kfree`. -/
def vmmFreeProcKernelStackFrames (t : PageTree 3) (i : Nat) :
    Except String (PageTree 3 × List UInt64) :=
  match walkKernelNoAlloc t (kernelStackVa i) with
  | .error e => .error e
  | .ok none => freeStackPages i STACK_PAGES 0 t
  | .ok (some guardPte) =>
    match freeStackPages i STACK_PAGES 0 (writeLeaf t (kernelStackVa i) 0) with
    | .error e => .error e
    | .ok (t, frames) => .ok (t, pteFollow guardPte :: frames)

/-- A call for a kernel stack: `vmm_allocate_proc_kernel_stack` with the pages that it gets, or
`vmm_free_proc_kernel_stack`. -/
inductive StackCall
  | allocate (i : Nat) (pages : List UInt64)
  | free (i : Nat)

/-- The slot of a call. -/
def StackCall.slot : StackCall → Nat
  | .allocate i _ => i
  | .free i => i

/-- The table after a call, or `none` when it panics. -/
def stackStep (t : PageTree 3) : StackCall → Option (PageTree 3)
  | .allocate i pages => (vmmAllocateProcKernelStack t i pages).toOption.map fun r => r.2.1
  | .free i => (vmmFreeProcKernelStackFrames t i).toOption.map fun r => r.1

/-- Does the entry that maps the page switch its cache off? -/
def cacheDisabledFrom : {n : Nat} → PageTree n → (Nat → Nat) → Bool
  | _, .leaves e, p => (e (p 0) &&& PTE_PCD) != 0
  | n + 1, .node e c, p =>
    if pteIsHuge (e (p (n + 1))) then (e (p (n + 1)) &&& PTE_PCD) != 0
    else cacheDisabledFrom (c (p (n + 1))) p

/-- Is the page of an address uncached? -/
def cacheDisabled (t : PageTree 3) (va : UInt64) : Bool := cacheDisabledFrom t (vaPath va)

/-- The physical address of `va`. The page of an entry of level `n` has `4096 * 512 ^ n` bytes. -/
def physicalAddress (tr : Translation) (va : UInt64) : Nat :=
  tr.frame.toNat / (4096 * 512 ^ tr.level) * (4096 * 512 ^ tr.level) +
    va.toNat % (4096 * 512 ^ tr.level)

end DzOS.Mem
