import DzOS.Mem.Kmalloc

/-!
# `DzOS.Mem.Slab`: the slab allocator of `kmalloc.c`

A slab is a page with the objects of one size class. It starts with `slab_hdr`, which has 24 bytes:
`next` at the offset 0, `obj_size` at 8, `capacity` at 10, `free_count` at 12, `class_idx` at 14,
`magic` at 16 and `top` at 20. Behind it is the stack of the indices of the free objects, two bytes
each, and behind the stack are the objects.

The slabs of a class are on the list of its bin while they have free objects. `kmFreeToBinLocked` is
in `DzOS.Mem.Kmalloc`, because `kmfree` still calls it.
-/

set_option autoImplicit false

namespace DzOS.Mem

open DzOS.Lib

/-- `KM_NUM_BINS`. -/
def KM_NUM_BINS : Nat := 8

/-- `km_class_idx_to_size`. -/
def kmClassIdxToSize (idx : Nat) : Nat := 16 <<< idx

/-! ### The fields of a slab -/

namespace Slab

/-- `h->next`. -/
def next (s : KmState) (h : UInt64) : UInt64 := UInt64.ofNat (s.load 8 h)

/-- `h->obj_size`. -/
def objSize (s : KmState) (h : UInt64) : Nat := s.load 2 (h + 8)

/-- `h->capacity`. -/
def capacity (s : KmState) (h : UInt64) : Nat := s.load 2 (h + 10)

/-- `h->free_count`. -/
def freeCount (s : KmState) (h : UInt64) : Nat := s.load 2 (h + 12)

/-- `h->top`. -/
def top (s : KmState) (h : UInt64) : Nat := s.load 2 (h + 20)

/-- `slab_stack_ptr(h)[i]`. -/
def stk (s : KmState) (h : UInt64) (i : Nat) : Nat := s.load 2 (h + 24 + UInt64.ofNat (i * 2))

/-- `h->next = n`. -/
def setNext (s : KmState) (h n : UInt64) : KmState := s.store 8 h n.toNat

/-- `h->capacity = v`. -/
def setCapacity (s : KmState) (h : UInt64) (v : Nat) : KmState := s.store 2 (h + 10) v

/-- `h->free_count = v`. -/
def setFreeCount (s : KmState) (h : UInt64) (v : Nat) : KmState := s.store 2 (h + 12) v

/-- `h->top = v`. -/
def setTop (s : KmState) (h : UInt64) (v : Nat) : KmState := s.store 2 (h + 20) v

/-- `slab_stack_ptr(h)[i] = v`. -/
def setStk (s : KmState) (h : UInt64) (i v : Nat) : KmState :=
  s.store 2 (h + 24 + UInt64.ofNat (i * 2)) v

end Slab

/-- `bin->head = h`. -/
def KmState.setHead (s : KmState) (idx : Nat) (h : UInt64) : KmState :=
  { s with bins := fun i => if i = idx then h else s.bins i }

/-- `slab_obj_at`. -/
def slabObjAt (s : KmState) (h : UInt64) (idx : Nat) : UInt64 :=
  slabObjsBase s h + UInt64.ofNat (idx * Slab.objSize s h)

/-- `km_owner_slab`. -/
def kmOwnerSlab (p : UInt64) : UInt64 := pageBase p

/-! ### A new slab -/

/-- The initializer `(slab_hdr){ … }` of `km_new_slab`. -/
def initSlabHdr (s : KmState) (h : UInt64) (objSize classIdx : Nat) : KmState :=
  let s := Slab.setNext s h 0
  let s := s.store 2 (h + 8) objSize
  let s := Slab.setCapacity s h 0
  let s := Slab.setFreeCount s h 0
  let s := s.store 2 (h + 14) classIdx
  let s := s.store 4 (h + 16) KM_MAGIC_SMALL.toNat
  Slab.setTop s h 0

/-- The variable `cap` of `km_new_slab`. The first value counts two bytes of the stack for each
object, and the second one is for the rest of the page behind such a stack. -/
def slabCap (objSize : Nat) : Nat :=
  let cap := (4096 - 24) / (objSize + 2)
  (4096 - (24 + cap * 2)) / objSize

/-- The loop of `km_new_slab`, with the first `i` entries of the stack. -/
def fillStack (h : UInt64) (cap : Nat) : Nat → KmState → KmState
  | 0, s => s
  | i + 1, s => Slab.setStk (fillStack h cap i s) h i (cap - 1 - i)

/-- `km_new_slab`. -/
def kmNewSlab (s : KmState) (classIdx : Nat) : Option UInt64 × KmState :=
  match kalloc s.mem with
  | (none, mem) => (none, { s with mem := mem })
  | (some h, mem) =>
    let objSize := kmClassIdxToSize classIdx
    let s := initSlabHdr { s with mem := mem } h objSize classIdx
    let cap := slabCap objSize
    let s := Slab.setCapacity s h cap
    let s := Slab.setFreeCount s h cap
    let s := Slab.setTop s h cap
    (some h, fillStack h cap cap s)

/-! ### `km_alloc_from_bin_locked` -/

/-- A new slab as the head of the bin. -/
def addSlab (s : KmState) (idx : Nat) : Option UInt64 × KmState :=
  match kmNewSlab s idx with
  | (none, s) => (none, s)
  | (some h, s) => (some h, (Slab.setNext s h 0).setHead idx h)

/-- The first slab of the bin. -/
def firstSlab (s : KmState) (idx : Nat) : Option UInt64 × KmState :=
  if s.bins idx = 0 then addSlab s idx else (some (s.bins idx), s)

/-- The slab behind `h`, or a new one, if `h` has no free object. -/
def slabWithRoom (s : KmState) (idx : Nat) (h : UInt64) : Option UInt64 × KmState :=
  if Slab.top s h = 0 then
    let n := Slab.next s h
    if n = 0 then addSlab s idx else (some n, s.setHead idx n)
  else (some h, s)

/-- The end of `km_alloc_from_bin_locked`: the object on top of the stack of `h`. A slab without
free objects leaves the list if another one is behind it. -/
def takeObject (s : KmState) (idx : Nat) (h : UInt64) : UInt64 × KmState :=
  -- `--h->top`, as a 16-bit word
  let s := Slab.setTop s h (Slab.top s h + (2 ^ 16 - 1))
  let i := Slab.stk s h (Slab.top s h)
  let s := Slab.setFreeCount s h (Slab.freeCount s h + (2 ^ 16 - 1))
  if Slab.top s h = 0 then
    let n := Slab.next s h
    if n = 0 then
      let s := s.setHead idx h
      (slabObjAt s h i, s)
    else
      let s := Slab.setNext (s.setHead idx n) h 0
      (slabObjAt s h i, s)
  else (slabObjAt s h i, s)

/-- `km_alloc_from_bin_locked`. -/
def kmAllocFromBinLocked (s : KmState) (idx : Nat) : Option UInt64 × KmState :=
  match firstSlab s idx with
  | (none, s) => (none, s)
  | (some h, s) =>
    match slabWithRoom s idx h with
    | (none, s) => (none, s)
    | (some h, s) =>
      let (p, s) := takeObject s idx h
      (some p, s)

end DzOS.Mem
