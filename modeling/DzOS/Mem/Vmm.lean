import DzOS.Mem.Mem

/-!
# `DzOS.Mem.Vmm`: page tables and user memory, `vmm.c`

A page table is a 4 KiB page of 512 eight-byte entries. The source holds a table as its
direct-map pointer (`pagetable_t`). The model names it by the physical address behind that
pointer, and a page-table entry by its physical address. `readPte` and `writePte` access an
entry in physical memory.

`walk` is the four-level descent. Loops over addresses carry a number of rounds as fuel, and
the callers pass a number that the loop cannot exceed.
-/

set_option autoImplicit false

namespace DzOS.Mem

open DzOS.Lib

/-- `USERSPACE_VA_MAX`. -/
def USERSPACE_VA_MAX : UInt64 := (1 : UInt64) <<< 46

/-- `USERSPACE_VA_MIN`. -/
def USERSPACE_VA_MIN : UInt64 := (1 : UInt64) <<< 22

/-- `PTE_P`: present. -/
def PTE_P : UInt64 := (1 : UInt64) <<< 0

/-- `PTE_W`: writable. -/
def PTE_W : UInt64 := (1 : UInt64) <<< 1

/-- `PTE_U`: user-accessible. -/
def PTE_U : UInt64 := (1 : UInt64) <<< 2

/-- `PTE_XD`: execute disable. -/
def PTE_XD : UInt64 := (1 : UInt64) <<< 63

/-- `PTE_ADDR_MASK`. -/
def PTE_ADDR_MASK : UInt64 := 0x000FFFFFFFFFF000

/-- `PTE_SET_ADDR(addr)`. -/
def PTE_SET_ADDR (addr : UInt64) : UInt64 := addr &&& PTE_ADDR_MASK

/-- `PTE_INDEX_FROM_VA(va, level)`. -/
def PTE_INDEX_FROM_VA (va : UInt64) (level : Nat) : UInt64 :=
  ((va >>> 12) >>> (UInt64.ofNat level * 9)) &&& (((1 : UInt64) <<< 9) - 1)

/-- `pte_follow`, the macro `PTE_ADDR(pte)`. -/
def pteFollow (pte : UInt64) : UInt64 := pte &&& PTE_ADDR_MASK

/-- `pte_is_present`. -/
def pteIsPresent (pte : UInt64) : Bool := (pte &&& PTE_P) != 0

/-- `pte_is_user`. -/
def pteIsUser (pte : UInt64) : Bool := (pte &&& PTE_U) != 0

/-- `pte_is_writable`. -/
def pteIsWritable (pte : UInt64) : Bool := (pte &&& PTE_W) != 0

/-- `pte_permissions`. -/
structure PtePermissions where
  writable : Bool
  executable : Bool
  userspace : Bool

/-- The physical address of `&pagetable[PTE_INDEX_FROM_VA(va, level)]`. -/
def pteSlot (pagetable va : UInt64) (level : Nat) : Nat :=
  pagetable.toNat + 8 * (PTE_INDEX_FROM_VA va level).toNat

/-- `*pte`. -/
def readPte (mem : Bytes) (slot : Nat) : UInt64 := UInt64.ofNat (mem.getLE 8 slot)

/-- `*pte = v`. -/
def writePte (s : MemState) (slot : Nat) (v : UInt64) : MemState :=
  { s with mem := s.mem.setLE 8 slot v.toNat }

/-! ### The walk -/

/-- The loop of `walk`, from `level` down to 1. The result is the entry of level 0. -/
def walkLevels (alloc : Bool) (va : UInt64) :
    Nat → MemState → UInt64 → Option Nat × MemState
  | 0, s, pagetable => (some (pteSlot pagetable va 0), s)
  | level + 1, s, pagetable =>
    let slot := pteSlot pagetable va (level + 1)
    let pte := readPte s.mem slot
    if pteIsPresent pte then walkLevels alloc va level s (pteFollow pte)
    else if !alloc then (none, s)
    else
      match kalloc s with
      | (none, s) => (none, s)
      | (some page, s) =>
        let s := s.memset page 0 PAGE_SIZE.toUInt64
        let s := writePte s slot (PTE_P ||| PTE_W ||| PTE_U ||| PTE_SET_ADDR (s.V2P page))
        walkLevels alloc va level s (s.V2P page)

/-- `walk`. -/
def walk (s : MemState) (pagetable va : UInt64) (alloc io : Bool) :
    Except String (Option Nat × MemState) :=
  if (!io && va ≥ USERSPACE_VA_MAX) || va < USERSPACE_VA_MIN then .error "walk"
  else .ok (walkLevels alloc va 3 s pagetable)

/-- `vmm_walkaddr`. The walk does not allocate, so the state is the old one. -/
def vmmWalkaddr (s : MemState) (pagetable va : UInt64) (user : Bool) : Except String UInt64 :=
  if va ≥ USERSPACE_VA_MAX then .ok 0
  else
    match walk s pagetable va false false with
    | .error e => .error e
    | .ok (none, _) => .ok 0
    | .ok (some slot, s) =>
      let pte := readPte s.mem slot
      if !pteIsPresent pte then .ok 0
      else if pteIsUser pte != user then .ok 0
      else .ok (pteFollow pte)

/-! ### Allocation -/

/-- The entry that `vmm_allocate` and `vmm_map_pages` build for a frame. -/
def buildPte (frame : UInt64) (permissions : PtePermissions) : UInt64 :=
  let pte := PTE_P ||| PTE_SET_ADDR frame
  let pte := if permissions.writable then pte ||| PTE_W else pte
  let pte := if !permissions.executable then pte ||| PTE_XD else pte
  if permissions.userspace then pte ||| PTE_U else pte

/-- The loop of `vmm_allocate`: `k` more pages, from the `i`-th on. The integer is the return
value. -/
def vmmAllocateFrom (pagetable va : UInt64) (permissions : PtePermissions) (clear : Bool) :
    Nat → Nat → MemState → Except String (Int × MemState)
  | 0, _, s => .ok (0, s)
  | k + 1, i, s =>
    let currentVa := va + UInt64.ofNat i * PAGE_SIZE.toUInt64
    match (if clear then kcalloc s else kalloc s) with
    | (none, s) => .ok (-1, s)
    | (some frame, s) =>
      match walk s pagetable currentVa true false with
      | .error e => .error e
      | .ok (none, s) =>
        match kfree s (some frame) with
        | .error e => .error e
        | .ok s => .ok (-1, s)
      | .ok (some slot, s) =>
        if pteIsPresent (readPte s.mem slot) then .error "vmm_allocate: remap"
        else
          vmmAllocateFrom pagetable va permissions clear k (i + 1)
            (writePte s slot (buildPte (s.V2P frame) permissions))

/-- `vmm_allocate`. -/
def vmmAllocate (s : MemState) (pagetable va size : UInt64) (permissions : PtePermissions)
    (clear : Bool) : Except String (Int × MemState) :=
  if va % PAGE_SIZE.toUInt64 ≠ 0 then .error "vmm_allocate: va not aligned"
  else if size % PAGE_SIZE.toUInt64 ≠ 0 then .error "vmm_allocate: size not aligned"
  else if size = 0 then .error "vmm_allocate: size"
  else
    vmmAllocateFrom pagetable va permissions clear (size / PAGE_SIZE.toUInt64).toNat 0 s

/-! ### Mapping given frames -/

/-- The loop of `vmm_map_pages`: `k` more pages, from the `i`-th on. The integer is the return
value. -/
def MemState.mapPagesFrom (pagetable va pa : UInt64) (permissions : PtePermissions) :
    Nat → Nat → MemState → Except String (Int × MemState)
  | 0, _, s => .ok (0, s)
  | k + 1, i, s =>
    let currentVa := va + UInt64.ofNat i * PAGE_SIZE.toUInt64
    let currentPa := pa + UInt64.ofNat i * PAGE_SIZE.toUInt64
    match walk s pagetable currentVa true false with
    | .error e => .error e
    | .ok (none, s) => .ok (-1, s)
    | .ok (some slot, s) =>
      if pteIsPresent (readPte s.mem slot) then .error "vmm_map_pages: remap"
      else
        mapPagesFrom pagetable va pa permissions k (i + 1)
          (writePte s slot (buildPte currentPa permissions))

/-- `vmm_map_pages`. -/
def MemState.vmmMapPages (s : MemState) (pagetable va size pa : UInt64)
    (permissions : PtePermissions) : Except String (Int × MemState) :=
  if pa % PAGE_SIZE.toUInt64 ≠ 0 then .error "vmm_map_pages: pa not aligned"
  else if va % PAGE_SIZE.toUInt64 ≠ 0 then .error "vmm_map_pages: va not aligned"
  else if size % PAGE_SIZE.toUInt64 ≠ 0 then .error "vmm_map_pages: size not aligned"
  else if size = 0 then .error "vmm_map_pages: size"
  else
    MemState.mapPagesFrom pagetable va pa permissions (size / PAGE_SIZE.toUInt64).toNat 0 s

/-! ### The program break -/

/-- The permissions of a heap page. -/
def heapPermissions : PtePermissions := { writable := true, executable := false, userspace := true }

/-- The loop of `vmm_user_sbrk_allocate`. -/
def sbrkAllocateFrom (pagetable newSbrk : UInt64) :
    Nat → UInt64 → MemState → Except String MemState
  | 0, _, s => .ok s
  | fuel + 1, currentlyAllocating, s =>
    if currentlyAllocating < newSbrk then
      match vmmAllocate s pagetable currentlyAllocating PAGE_SIZE.toUInt64 heapPermissions true with
      | .error e => .error e
      | .ok (r, s) =>
        if r < 0 then .error "sbrk: OOM"
        else
          sbrkAllocateFrom pagetable newSbrk fuel (currentlyAllocating + PAGE_SIZE.toUInt64) s
    else .ok s

/-- `vmm_user_sbrk_allocate`: the new break and the new state. -/
def vmmUserSbrkAllocate (s : MemState) (pagetable oldSbrk delta : UInt64) :
    Except String (UInt64 × MemState) :=
  let newSbrk := oldSbrk + delta
  let oldSbrk := PAGE_ROUND_UP oldSbrk
  match sbrkAllocateFrom pagetable newSbrk (newSbrk.toNat / 4096 + 1) oldSbrk s with
  | .error e => .error e
  | .ok s => .ok (newSbrk, s)

/-- The loop of `vmm_user_sbrk_deallocate`. The second component of the result lists the pages
that the loop unmapped, each with the entry it held, in order. -/
def sbrkDeallocateFrom (pagetable newSbrk : UInt64) :
    Nat → UInt64 → MemState → Except String (MemState × List (UInt64 × UInt64))
  | 0, _, s => .ok (s, [])
  | fuel + 1, currentlyDeallocating, s =>
    if currentlyDeallocating > newSbrk then
      match walk s pagetable currentlyDeallocating false false with
      | .error e => .error e
      | .ok (none, _) => .error "vmm_user_sbrk_deallocate: non-existant page"
      | .ok (some slot, s) =>
        let pte := readPte s.mem slot
        let s := writePte s slot 0
        match kfree s (some (s.P2V (pteFollow pte))) with
        | .error e => .error e
        | .ok s =>
          match sbrkDeallocateFrom pagetable newSbrk fuel
              (currentlyDeallocating - PAGE_SIZE.toUInt64) s with
          | .error e => .error e
          | .ok (s, unmapped) => .ok (s, (currentlyDeallocating, pte) :: unmapped)
    else .ok (s, [])

/-- `vmm_user_sbrk_deallocate`: the new break and the new state, with the list of the pages
that were unmapped and their entries. -/
def vmmUserSbrkDeallocate (s : MemState) (pagetable oldSbrk delta : UInt64) :
    Except String (UInt64 × MemState × List (UInt64 × UInt64)) :=
  let newSbrk := oldSbrk - delta
  let oldSbrk := PAGE_ROUND_DOWN oldSbrk
  match sbrkDeallocateFrom pagetable newSbrk (oldSbrk.toNat / 4096 + 1) oldSbrk s with
  | .error e => .error e
  | .ok (s, unmapped) => .ok (newSbrk, s, unmapped)

/-! ### User pointers and strings -/

/-- The loop of `vmm_validate_user_ptr`. -/
def validatePages (s : MemState) (pagetable : UInt64) (writable : Bool) (pageEnd : UInt64) :
    Nat → UInt64 → Except String Bool
  | 0, _ => .ok true
  | fuel + 1, va =>
    if va < pageEnd then
      match walk s pagetable va false false with
      | .error e => .error e
      | .ok (none, _) => .ok false
      | .ok (some slot, s') =>
        let pte := readPte s'.mem slot
        if !pteIsPresent pte then .ok false
        else if !pteIsUser pte then .ok false
        else if writable && !pteIsWritable pte then .ok false
        else validatePages s pagetable writable pageEnd fuel (va + PAGE_SIZE.toUInt64)
    else .ok true

/-- `vmm_validate_user_ptr`. -/
def vmmValidateUserPtr (s : MemState) (pagetable ptr len : UInt64) (writable : Bool) :
    Except String Bool :=
  if ptr = 0 || len = 0 then .ok false
  else
    let start := ptr
    let last := start + len
    if last < start then .ok false
    else if start ≥ USERSPACE_VA_MAX || last > USERSPACE_VA_MAX then .ok false
    else if start < USERSPACE_VA_MIN then .ok false
    else
      let pageStart := PAGE_ROUND_DOWN start
      let pageEnd := PAGE_ROUND_UP last
      validatePages s pagetable writable pageEnd (pageEnd.toNat / 4096 + 1) pageStart

/-- The page check at the top of the loop of `vmm_copy_user_string`: is the page a present
user page? -/
def userPagePresent (s : MemState) (pagetable page : UInt64) : Except String Bool :=
  match walk s pagetable page false false with
  | .error e => .error e
  | .ok (none, _) => .ok false
  | .ok (some slot, s) =>
    let pte := readPte s.mem slot
    .ok (pteIsPresent pte && pteIsUser pte)

/-- The loop of `vmm_copy_user_string`, with `r` bytes left before the last byte of the
buffer. The result is the return value and the buffer. -/
def copyUserStringFrom (s : MemState) (pagetable userAddr : UInt64) :
    Nat → Nat → UInt64 → Bool → Bytes → Except String (Int × Bytes)
  | 0, copied, _, _, kernelBuf => .ok (-1, kernelBuf.setLE 1 copied 0)
  | r + 1, copied, currentPage, currentPageValid, kernelBuf =>
    let va := userAddr + UInt64.ofNat copied
    let crossed := PAGE_ROUND_DOWN va ≠ currentPage
    let currentPage := if crossed then PAGE_ROUND_DOWN va else currentPage
    let currentPageValid := if crossed then false else currentPageValid
    match (if currentPageValid then .ok true else userPagePresent s pagetable currentPage) with
    | .error e => .error e
    | .ok false => .ok (-1, kernelBuf)
    | .ok true =>
      match vmmWalkaddr s pagetable va true with
      | .error e => .error e
      | .ok pa =>
        if pa = 0 then .ok (-1, kernelBuf)
        else
          let c := s.mem pa.toNat
          let kernelBuf := kernelBuf.setLE 1 copied c.toNat
          if c = 0 then .ok (Int.bmod copied (2 ^ 32), kernelBuf)
          else copyUserStringFrom s pagetable userAddr r (copied + 1) currentPage true kernelBuf

/-- `vmm_copy_user_string`. The return value is an `int`, so a length is cut to 32 bits. -/
def vmmCopyUserString (s : MemState) (pagetable userStr : UInt64) (kernelBuf : Option Bytes)
    (maxLen : UInt64) : Except String (Int × Option Bytes) :=
  match kernelBuf with
  | none => .ok (-1, none)
  | some buf =>
    if userStr = 0 || maxLen = 0 then .ok (-1, some buf)
    else if userStr ≥ USERSPACE_VA_MAX || userStr < USERSPACE_VA_MIN then .ok (-1, some buf)
    else
      match copyUserStringFrom s pagetable userStr (maxLen.toNat - 1) 0
          (PAGE_ROUND_DOWN userStr) false buf with
      | .error e => .error e
      | .ok (r, buf) => .ok (r, some buf)

end DzOS.Mem
