import DzOS.Lib.Bytes
import DzOS.Lib.Outcome

/-!
# `DzOS.Libc.Malloc`: `malloc`, `free` and `realloc` of the user library

The memory of a process is a byte store, and a `Header *` is the address of its first byte: `s.ptr`
is at the offset 0 and `s.size`, in units of 16 bytes, at the offset 8. `Heap` also has the variable
`freep` and the end of the heap. `base` has a fixed address in front of the heap.

A loop over the free list has a fuel. `Stop` lists how a call ends without a result: a loop that
does not end, an access to the address 0 or to a page without memory, and a panic of the kernel.
The arithmetic on a `Header *` wraps at the end of the addresses (`advance`), so a block of `2 ^ 60`
units ends where it starts.

`System` is what the process relies on: the system call `sbrk` returns the old end of the heap, or
-1 for no memory, or it does not return.
-/

set_option autoImplicit false

namespace DzOS.Libc

open DzOS.Lib

/-- How a call ends without a result. -/
inductive Stop where
  | hang
  | null
  | pageFault
  | panic
  deriving DecidableEq, Repr

/-- The result of `sbrk` when there is no memory: `(char *)-1`. -/
def NO_MEMORY : Nat := 0xffffffffffffffff

/-- The end of the addresses. -/
def ADDRESS_END : Nat := 0x10000000000000000

/-- The end of the addresses of a user process. -/
def HEAP_MAX : Nat := 0x8000000000000000

/-- `PAGE_ROUND_UP`. -/
def pageRoundUp (a : Nat) : Nat := (a + 4095) / 4096 * 4096

/-- What the system gives a process: the address of `base`, the start of the heap, and `sbrk` with
the end of the heap before and after the call. It is `none` when the kernel panics. After a negative
amount nothing is left of the heap. -/
structure System where
  base : Nat
  initial : Nat
  sbrk : Nat → Int → Option (Nat × Nat)
  base_pos : 0 < base
  base_below : base + 16 ≤ initial
  initial_page : pageRoundUp initial = initial
  initial_lt : initial < HEAP_MAX
  returns : ∀ brk howMuch p brk', sbrk brk howMuch = some (p, brk') →
    (p = NO_MEMORY ∧ brk' = brk) ∨ p = brk
  grows : ∀ brk howMuch brk', sbrk brk howMuch = some (brk, brk') → 0 < howMuch →
    brk' = brk + howMuch.toNat ∧ brk' < HEAP_MAX
  keeps : ∀ brk brk', sbrk brk 0 = some (brk, brk') → brk' = brk
  shrinks : ∀ brk howMuch brk', sbrk brk howMuch = some (brk, brk') → howMuch < 0 → brk' ≤ initial

/-- `proc_sbrk`, for a process whose heap starts at `initial` and can have memory up to `limit`. -/
def procSbrk (initial limit brk : Nat) (howMuch : Int) : Option (Nat × Nat) :=
  if howMuch > 0 then
    if brk + howMuch.toNat ≤ limit then some (brk, brk + howMuch.toNat) else none
  else if howMuch < 0 then
    let howMuch :=
      if initial ≤ ((brk + howMuch) % ADDRESS_END).toNat then (initial : Int) - brk else howMuch
    some (brk, ((brk + howMuch) % ADDRESS_END).toNat)
  else some (brk, brk)

/-- The memory, `freep`, where 0 is `NULL`, and the end of the heap. -/
structure Heap where
  mem : Bytes
  freep : Nat
  brk : Nat

/-! ### Headers -/

/-- `p->s.ptr`. -/
def Heap.ptr (h : Heap) (p : Nat) : Nat := h.mem.getLE 8 p

/-- `p->s.size`. -/
def Heap.size (h : Heap) (p : Nat) : Nat := h.mem.getLE 8 (p + 8)

/-- `p->s.ptr = v`. -/
def Heap.setPtr (h : Heap) (p v : Nat) : Heap := { h with mem := h.mem.setLE 8 p v }

/-- `p->s.size = v`. -/
def Heap.setSize (h : Heap) (p v : Nat) : Heap := { h with mem := h.mem.setLE 8 (p + 8) v }

/-- `p + n` for a `Header *`. -/
def advance (p n : Nat) : Nat := (p + 16 * n) % ADDRESS_END

/-! ### `free` -/

/-- The loop of `free`: the node in front of `bp`. -/
def findPlace (h : Heap) (bp : Nat) : Nat → Nat → Except Stop Nat
  | 0, _ => .error .hang
  | fuel + 1, p =>
    -- The condition of the loop, and then the `break` at the wrap of the list.
    if bp > p ∧ bp < h.ptr p then .ok p
    else if p ≥ h.ptr p ∧ (bp > p ∨ bp < h.ptr p) then .ok p
    else findPlace h bp fuel (h.ptr p)

/-- The block at `bp` with the one behind it, when there is no gap. -/
def joinNext (h : Heap) (p bp : Nat) : Heap :=
  if advance bp (h.size bp) = h.ptr p then
    let h := h.setSize bp (h.size bp + h.size (h.ptr p))
    h.setPtr bp (h.ptr (h.ptr p))
  else h.setPtr bp (h.ptr p)

/-- The block at `p` with the one at `bp`, when there is no gap. -/
def joinPrev (h : Heap) (p bp : Nat) : Heap :=
  if advance p (h.size p) = bp then
    let h := h.setSize p (h.size p + h.size bp)
    h.setPtr p (h.ptr bp)
  else h.setPtr p bp

/-- `free`. The list has fewer nodes than the heap has bytes. -/
def free (h : Heap) (ap : Nat) : Except Stop Heap :=
  if ap = 0 then .ok h
  else do
    let bp := ap - 16
    let p ← findPlace h bp (2 * h.brk) h.freep
    return { joinPrev (joinNext h p bp) p bp with freep := p }

/-! ### `malloc` -/

/-- `sbrk`. -/
def System.callSbrk (k : System) (brk : Nat) (howMuch : Int) : Except Stop (Nat × Nat) :=
  (k.sbrk brk howMuch).elim (.error .panic) .ok

/-- `morecore`: the node with the new memory, or 0. -/
def morecore (k : System) (h : Heap) (nu : Nat) : Except Stop (Nat × Heap) := do
  let nu := if nu < 4096 then 4096 else nu
  -- `sbrk` takes an `int64_t`, so a large amount is negative.
  let (hp, brk) ← k.callSbrk h.brk (Int.bmod (nu * 16) ADDRESS_END)
  let h := { h with brk := brk }
  if hp = NO_MEMORY then return (0, h)
  -- The store to the header needs its page.
  else if pageRoundUp brk < hp + 16 then .error .pageFault
  else do
    let h := h.setSize hp nu
    let h ← free h (hp + 16)
    return (h.freep, h)

/-- The branch of `malloc` for a node that is large enough. -/
def takeFrom (h : Heap) (nunits prevp p : Nat) : Nat × Heap :=
  if h.size p = nunits then
    let h := h.setPtr prevp (h.ptr p)
    (p + 16, { h with freep := prevp })
  else
    let h := h.setSize p (h.size p - nunits)
    -- The node keeps the start of the block, and the request gets its end.
    let p := advance p (h.size p)
    let h := h.setSize p nunits
    (p + 16, { h with freep := prevp })

/-- The loop of `malloc`. -/
def mallocLoop (k : System) (nunits : Nat) : Nat → Heap → Nat → Nat → Except Stop (Nat × Heap)
  | 0, _, _, _ => .error .hang
  | fuel + 1, h, prevp, p =>
    if h.size p ≥ nunits then .ok (takeFrom h nunits prevp p)
    else if p = h.freep then do
      let (p, h) ← morecore k h nunits
      -- `p = p->s.ptr` runs behind `morecore` too, so the new block is not tried first.
      if p = 0 then return (0, h) else mallocLoop k nunits fuel h p (h.ptr p)
    else mallocLoop k nunits fuel h p (h.ptr p)

/-- The units of a request, with its header. -/
def nunits (nbytes : Nat) : Nat := (nbytes + 16 - 1) % ADDRESS_END / 16 + 1

/-- The start of `malloc`: the list is only `base` at first. -/
def initList (k : System) (h : Heap) : Heap :=
  if h.freep = 0 then { (h.setPtr k.base k.base).setSize k.base 0 with freep := k.base } else h

/-- `malloc`: the address of the block, or 0. Two rounds over the list are enough. -/
def malloc (k : System) (h : Heap) (nbytes : Nat) : Except Stop (Nat × Heap) :=
  let h := initList k h
  mallocLoop k (nunits nbytes) (4 * h.brk) h h.freep (h.ptr h.freep)

/-! ### `calloc` and `realloc` -/

/-- `memset` with 0. Behind the last page of the heap there is no memory. -/
def clear (h : Heap) (data n : Nat) : Except Stop Heap :=
  if pageRoundUp h.brk < data + n then .error .pageFault
  else .ok { h with mem := h.mem.fill data n 0 }

/-- `calloc`. -/
def calloc (k : System) (h : Heap) (nmemb size : Nat) : Except Stop (Nat × Heap) := do
  let n := nmemb * size % ADDRESS_END
  let (data, h) ← malloc k h n
  if data = 0 then return (0, h)
  else do
    let h ← clear h data n
    return (data, h)

/-- The loop of `memcpy`. -/
def copyBytes (mem : Bytes) (dest src : Nat) : Nat → Bytes
  | 0 => mem
  | n + 1 =>
    let mem := copyBytes mem dest src n
    mem.set (dest + n) (mem (src + n))

/-- `memcpy`. -/
def memcpy (h : Heap) (dest src n : Nat) : Except Stop Heap :=
  if dest = 0 ∧ 0 < n then .error .null
  else if pageRoundUp h.brk < dest + n then .error .pageFault
  else .ok { h with mem := copyBytes h.mem dest src n }

/-- `realloc`. -/
def realloc (k : System) (h : Heap) (ptr size : Nat) : Except Stop (Nat × Heap) :=
  if ptr = 0 then malloc k h size
  else if size = 0 then do
    let h ← free h ptr
    return (0, h)
  else
    let header := ptr - 16
    -- `size` counts bytes, and the size of the header counts units.
    if size = h.size header then .ok (ptr, h)
    else do
      let (newData, h) ← malloc k h size
      let h ← memcpy h newData ptr (if size < h.size header then size else h.size header)
      -- The old block is not freed.
      return (newData, h)

end DzOS.Libc
