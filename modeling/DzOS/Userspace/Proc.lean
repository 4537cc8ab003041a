import DzOS.Mem.Vmm

/-!
# `DzOS.Userspace.Proc`: the program break of a process, `proc.c`

`proc_sbrk` moves `current_sbrk` of the running process and leaves the pages to `vmm.c`. The
amount is an `int64_t` and the break a `uint64_t`, so the test for the lower bound adds and
compares modulo 2⁶⁴.
-/

set_option autoImplicit false

namespace DzOS.Userspace

open DzOS.Mem

/-- The fields of `struct process` that `proc_sbrk` uses. -/
structure DataSegment where
  pagetable : UInt64
  initialDataSegment : UInt64
  currentSbrk : UInt64
  deriving DecidableEq, Repr

/-- What a call of `proc_sbrk` leaves: the pointer that it returns, the process and the memory.
`unmapped` are the pages that the call unmapped, each with the entry it held. -/
structure SbrkResult where
  before : UInt64
  proc : DataSegment
  state : MemState
  unmapped : List (UInt64 × UInt64)

/-- `proc_sbrk`. An error is a panic. -/
def procSbrk (s : MemState) (p : DataSegment) (howMuch : Int64) : Except String SbrkResult :=
  let before := p.currentSbrk
  if howMuch > 0 then
    match vmmUserSbrkAllocate s p.pagetable p.currentSbrk howMuch.toUInt64 with
    | .error e => .error e
    | .ok (newSbrk, s) => .ok ⟨before, { p with currentSbrk := newSbrk }, s, []⟩
  else if howMuch < 0 then
    let howMuch :=
      if p.initialDataSegment ≤ p.currentSbrk + howMuch.toUInt64 then
        (p.initialDataSegment - p.currentSbrk).toInt64
      else howMuch
    match vmmUserSbrkDeallocate s p.pagetable p.currentSbrk (-howMuch).toUInt64 with
    | .error e => .error e
    | .ok (newSbrk, s, unmapped) => .ok ⟨before, { p with currentSbrk := newSbrk }, s, unmapped⟩
  else .ok ⟨before, p, s, []⟩

end DzOS.Userspace
