import DzOS.Lib.Chain
import DzOS.Lib.Run
import DzOS.Proofs.Mem.SlabPage

/-!
# `DzOS.Proofs.Mem.SlabBin`: when the bins of the slab allocator stay in order

A run allocates objects of one size class and frees them. In between, the rest of the kernel may do
what it likes with memory, as long as it leaves the bin, the headers and the stacks alone
(`RestOk`).

A slab without free objects leaves the list, except for the last one, which stays the head. When the
first object on it is freed, it becomes the head again, and then the list has a cycle. A slab whose
objects are all free is given back, but only the head is unlinked before. `FreeOk` says that neither
of the two happens. `slabs_wellFormed_iff` says that the bin is in order throughout a run exactly if
each call of the run is of this kind.
-/

set_option autoImplicit false

namespace DzOS.Proofs.Mem

open DzOS.Lib DzOS.Mem

variable {p : UInt64}

/-! ### Runs -/

/-- The heap, the live objects of the class, and the pages that `km_new_slab` got for it and that
are not given back. -/
structure SlabRun where
  st : KmState
  live : List UInt64
  slabs : List UInt64

/-- A call of the allocator, or a step of the rest of the kernel. -/
inductive SlabCall where
  | alloc
  | free (p : UInt64)
  | rest (st : KmState)

/-- The state after a call, or `none` when an object is freed that is not live. -/
def slabStep (idx : ℕ) (r : SlabRun) : SlabCall → Option SlabRun
  | .alloc =>
    match kmAllocFromBinLocked r.st idx with
    | (none, st) => some { r with st := st }
    | (some p, st) => some ⟨st, p :: r.live, r.slabs.insert (kmOwnerSlab p)⟩
  | .free p =>
    if p ∈ r.live then
      (kmFreeToBinLocked r.st idx (kmOwnerSlab p) p).toOption.map fun st =>
        ⟨st, r.live.erase p, if st.mem.freepages = r.st.mem.freepages then r.slabs
          else r.slabs.erase (kmOwnerSlab p)⟩
    else none
  | .rest st => some { r with st := st }

/-- The start of a run. -/
def noSlabs (mem : MemState) : SlabRun := ⟨kmallocInit mem, [], []⟩

/-- What the rest of the kernel leaves alone: the bin, and the header and the stack of each slab. It
does not give back a slab either. -/
structure RestOk (idx : ℕ) (r : SlabRun) (st : KmState) : Prop where
  pages : PagesOk st.mem
  hhdm : st.mem.hhdmOffset = r.st.mem.hhdmOffset
  bin : st.bins idx = r.st.bins idx
  apart : ∀ h ∈ r.slabs, st.mem.V2P h ∉ stock st.mem
  words : ∀ h ∈ r.slabs, ∀ w a, a + w ≤ 24 + 2 * Slab.capacity r.st h →
    field st h w a = field r.st h w a

/-- The calls that can happen. -/
def SlabCall.Allowed (idx : ℕ) (r : SlabRun) : SlabCall → Prop
  | .rest st => RestOk idx r st
  | _ => True

/-! ### The property -/

/-- The indices on the stack of a slab. -/
def freeStack (s : KmState) (h : UInt64) : List ℕ :=
  (List.range (Slab.top s h)).map (Slab.stk s h)

/-- The stack of a slab has each free object once. -/
structure StackOk (s : KmState) (live : List UInt64) (h : UInt64) : Prop where
  top : Slab.top s h = Slab.freeCount s h
  count : Slab.freeCount s h ≤ Slab.capacity s h
  nodup : (freeStack s h).Nodup
  mem : ∀ i, i ∈ freeStack s h ↔ i < Slab.capacity s h ∧ slabObjAt s h i ∉ live

/-- The bin is in order: its list ends, has no cycle and no page that was given back, and has each
slab with a free object. The stacks have the free objects, and the live objects are different. -/
structure WellFormed (idx : ℕ) (r : SlabRun) : Prop where
  list : ∃ l, Chain 0 (Slab.next r.st) (r.st.bins idx) l ∧ l.Nodup ∧
    (∀ h ∈ l, h ∈ r.slabs ∧ h ∉ r.st.mem.freepages) ∧
    ∀ h ∈ r.slabs, (∃ i < Slab.capacity r.st h, slabObjAt r.st h i ∉ r.live) → h ∈ l
  stack : ∀ h ∈ r.slabs, StackOk r.st r.live h
  live : r.live.Nodup

/-- The list of the bin. It has at most as many pages as there are slabs. -/
def binList (idx : ℕ) (r : SlabRun) : List UInt64 :=
  follow 0 (Slab.next r.st) r.slabs.length (r.st.bins idx)

/-- When an object is freed on a slab without free objects, the slab is not on the list. When it is
the last object of its slab, the slab is the head, or it was not on the list, because it has one
object only. -/
def FreeOk (idx : ℕ) (r : SlabRun) : SlabCall → Prop
  | .free p =>
    (Slab.freeCount r.st (kmOwnerSlab p) = 0 → kmOwnerSlab p ∉ binList idx r) ∧
    (Slab.freeCount r.st (kmOwnerSlab p) + 1 = Slab.capacity r.st (kmOwnerSlab p) →
      Slab.freeCount r.st (kmOwnerSlab p) = 0 ∨ r.st.bins idx = kmOwnerSlab p)
  | _ => True

/-! ### Objects -/

/-- The sizes of a slab of the class. -/
structure Sized (idx : ℕ) (s : KmState) (h : UInt64) : Prop where
  page : h.toNat % 4096 = 0
  objSize : Slab.objSize s h = kmClassIdxToSize idx
  capacity : Slab.capacity s h = slabCap (kmClassIdxToSize idx)

variable {idx i j : ℕ} {s s' : KmState} {g h : UInt64} {live live' : List UInt64} {r r' : SlabRun}
  {l l' slabs : List UInt64}

theorem toNat_slabObjAt (hidx : idx < KM_NUM_BINS) (hs : Sized idx s h)
    (hi : i < Slab.capacity s h) : (slabObjAt s h i).toNat =
      h.toNat + (24 + Slab.capacity s h * 2 + i * kmClassIdxToSize idx) ∧
      24 + Slab.capacity s h * 2 + i * kmClassIdxToSize idx + kmClassIdxToSize idx ≤ 4096 := by
  obtain ⟨hsize, -, hfits⟩ := class_fits hidx
  rw [← hs.capacity] at hfits
  have hstep : i * kmClassIdxToSize idx + kmClassIdxToSize idx ≤
      Slab.capacity s h * kmClassIdxToSize idx := by
    rw [← Nat.succ_mul]
    exact Nat.mul_le_mul_right _ hi
  have haddr : slabObjAt s h i =
      h + UInt64.ofNat (24 + Slab.capacity s h * 2 + i * kmClassIdxToSize idx) := by
    rw [UInt64.ofNat_add, UInt64.ofNat_add, ← UInt64.add_assoc, ← UInt64.add_assoc, ← hs.objSize]
    rfl
  rw [haddr]
  exact ⟨toNat_page_add hs.page (by omega), by omega⟩

/-- The slab of an object. -/
theorem kmOwnerSlab_obj (hidx : idx < KM_NUM_BINS) (hs : Sized idx s h)
    (hi : i < Slab.capacity s h) : kmOwnerSlab (slabObjAt s h i) = h := by
  obtain ⟨haddr, hend⟩ := toNat_slabObjAt hidx hs hi
  have hpos := (class_fits hidx).1
  have hpage := hs.page
  apply UInt64.toNat.inj
  rw [kmOwnerSlab, toNat_pageBase, haddr]
  omega

/-- The index of an object. -/
theorem slabIndexOf_obj (hidx : idx < KM_NUM_BINS) (hs : Sized idx s h)
    (hi : i < Slab.capacity s h) : slabIndexOf s h (slabObjAt s h i) = i := by
  have hsize := (class_fits hidx).1
  have hlt := (class_lt hidx).2
  rw [← hs.capacity] at hlt
  have hend := (toNat_slabObjAt hidx hs hi).2
  have hoff : (slabObjAt s h i - slabObjsBase s h).toNat = i * kmClassIdxToSize idx := by
    unfold slabObjAt
    rw [UInt64.add_comm, UInt64.add_sub_cancel, hs.objSize, UInt64.toNat_ofNat']
    exact Nat.mod_eq_of_lt (by omega)
  have hsize' : s.load 2 (h + 8) = kmClassIdxToSize idx := hs.objSize
  rw [slabIndexOf, hoff, hsize', Nat.mul_div_cancel _ (by omega), Nat.mod_eq_of_lt (by omega)]

/-- Different objects have different addresses. -/
theorem slabObjAt_inj (hidx : idx < KM_NUM_BINS) (hh : Sized idx s h) (hg : Sized idx s g)
    (hi : i < Slab.capacity s h) (hj : j < Slab.capacity s g)
    (heq : slabObjAt s h i = slabObjAt s g j) : h = g ∧ i = j := by
  have howner : h = g := by
    rw [← kmOwnerSlab_obj hidx hh hi, heq, kmOwnerSlab_obj hidx hg hj]
  subst howner
  refine ⟨rfl, ?_⟩
  rw [← slabIndexOf_obj hidx hh hi, heq, slabIndexOf_obj hidx hg hj]

/-- The sizes are fields of the header. -/
theorem Sized.congr (hs : Sized idx s h)
    (hcap : (slabView s' h).capacity = (slabView s h).capacity)
    (hsize : (slabView s' h).objSize = (slabView s h).objSize) : Sized idx s' h :=
  ⟨hs.page, hsize.trans hs.objSize, hcap.trans hs.capacity⟩

/-! ### Stacks -/

theorem freeStack_eq (hmax : Slab.top s h ≤ 2036) :
    freeStack s h = (List.range (slabView s h).top).map (slabView s h).stk := by
  refine List.map_congr_left fun i hi => stk_eq ?_
  have := List.mem_range.mp hi
  omega

section

variable (hidx : idx < KM_NUM_BINS) (hsz : Sized idx s h) (hs : StackOk s live h)

include hidx hsz hs

/-- The stack of a sized slab is inside of its page. -/
theorem StackOk.top_lt : Slab.top s h < 2036 := by
  have hcap := (class_lt hidx).2
  have hcount := hs.count
  rw [← hsz.capacity] at hcap
  rw [hs.top]
  omega

/-- The object on top of the stack is taken. -/
theorem StackOk.take (hpos : 0 < (slabView s h).top)
    (hcap : (slabView s' h).capacity = (slabView s h).capacity)
    (hsize : (slabView s' h).objSize = (slabView s h).objSize)
    (htop : (slabView s' h).top = (slabView s h).top - 1)
    (hcount : (slabView s' h).freeCount = (slabView s h).top - 1)
    (hstk : (slabView s' h).stk = (slabView s h).stk) :
    ∃ i < Slab.capacity s h, i = (slabView s h).stk ((slabView s h).top - 1) ∧
      slabObjAt s h i ∉ live ∧ StackOk s' (slabObjAt s h i :: live) h := by
  have hmax := hs.top_lt hidx hsz
  have hsplit : freeStack s h =
      freeStack s' h ++ [(slabView s h).stk ((slabView s h).top - 1)] := by
    obtain ⟨n, hn⟩ := Nat.exists_eq_add_one_of_ne_zero hpos.ne'
    have hn' : (slabView s' h).top = n := by omega
    have hmax' : Slab.top s' h ≤ 2036 := by
      rw [top_eq, htop]
      exact (Nat.sub_le _ _).trans hmax.le
    rw [freeStack_eq hmax.le, freeStack_eq hmax', hstk, hn', hn, List.range_succ, List.map_append]
    rfl
  generalize hentry : (slabView s h).stk ((slabView s h).top - 1) = i at hsplit ⊢
  have hnodup := hs.nodup
  rw [hsplit] at hnodup
  obtain ⟨hnodup', -, hnot⟩ := List.nodup_append.mp hnodup
  have hiff := hs.mem
  simp only [hsplit, List.mem_append, List.mem_singleton] at hiff
  obtain ⟨hi, hfree⟩ := (hiff i).mp (.inr rfl)
  refine ⟨i, hi, rfl, hfree, ?_, ?_, hnodup', fun j => ?_⟩
  · exact htop.trans hcount.symm
  · have hle := hs.count
    rw [← hs.top] at hle
    rw [freeCount_eq, capacity_eq, hcount, hcap]
    exact (Nat.sub_le _ _).trans hle
  · have hobj : slabObjAt s' h j = slabObjAt s h j := slabObjAt_congr hcap hsize j
    rw [capacity_eq, hcap, ← capacity_eq, hobj]
    constructor
    · intro hj
      obtain ⟨hlt, hdead⟩ := (hiff j).mp (.inl hj)
      refine ⟨hlt, ?_⟩
      rw [List.mem_cons]
      rintro (heq | hlive)
      · exact hnot j hj i List.mem_cons_self (slabObjAt_inj hidx hsz hsz hlt hi heq).2
      · exact hdead hlive
    · rintro ⟨hlt, hdead⟩
      obtain ⟨hne, hdead⟩ := not_or.mp (List.mem_cons.not.mp hdead)
      rcases (hiff j).mpr ⟨hlt, hdead⟩ with hj | rfl
      · exact hj
      · exact absurd rfl hne

/-- A live object is put on the stack. -/
theorem StackOk.put (hi : i < Slab.capacity s h) (hlive : slabObjAt s h i ∈ live)
    (hnodup : live.Nodup) (hcap : (slabView s' h).capacity = (slabView s h).capacity)
    (hsize : (slabView s' h).objSize = (slabView s h).objSize)
    (htop : (slabView s' h).top = (slabView s h).top + 1)
    (hcount : (slabView s' h).freeCount = (slabView s h).top + 1)
    (hstk : (slabView s' h).stk = Function.update (slabView s h).stk (slabView s h).top i) :
    StackOk s' (live.erase (slabObjAt s h i)) h := by
  have hmax := hs.top_lt hidx hsz
  have hsplit : freeStack s' h = freeStack s h ++ [i] := by
    rw [freeStack_eq (by rw [top_eq, htop]; exact hmax), freeStack_eq hmax.le, htop, hstk,
      List.range_succ, List.map_append, List.map_singleton, Function.update_self]
    congr 1
    refine List.map_congr_left fun j hj => Function.update_of_ne ?_ _ _
    exact (List.mem_range.mp hj).ne
  have hnot : i ∉ freeStack s h := fun hmem => ((hs.mem i).mp hmem).2 hlive
  -- The stack has other indices than `i` only.
  have hlen : (freeStack s h).length + 1 ≤ Slab.capacity s h := by
    have hsub : i :: freeStack s h ⊆ List.range (Slab.capacity s h) := by
      intro j hj
      rcases List.mem_cons.mp hj with rfl | hj
      · exact List.mem_range.mpr hi
      · exact List.mem_range.mpr ((hs.mem j).mp hj).1
    have hle := ((List.nodup_cons.mpr ⟨hnot, hs.nodup⟩).subperm hsub).length_le
    rwa [List.length_range] at hle
  have hlength : (freeStack s h).length = Slab.freeCount s h := by
    rw [freeStack, List.length_map, List.length_range, hs.top]
  refine ⟨htop.trans hcount.symm, ?_, ?_, fun j => ?_⟩
  · rw [freeCount_eq, capacity_eq, hcount, hcap, ← capacity_eq, ← top_eq, hs.top]
    omega
  · rw [hsplit]
    refine List.nodup_append.mpr ⟨hs.nodup, List.nodup_singleton i, fun a ha b hb => ?_⟩
    rw [List.mem_singleton.mp hb]
    rintro rfl
    exact hnot ha
  · have hobj : slabObjAt s' h j = slabObjAt s h j := slabObjAt_congr hcap hsize j
    rw [capacity_eq, hcap, ← capacity_eq, hobj, hsplit, List.mem_append, List.mem_singleton,
      hs.mem j, hnodup.mem_erase_iff]
    constructor
    · rintro (⟨hlt, hdead⟩ | rfl)
      · exact ⟨hlt, fun hmem => hdead hmem.2⟩
      · exact ⟨hi, fun hmem => hmem.1 rfl⟩
    · rintro ⟨hlt, hmem⟩
      by_cases hji : j = i
      · exact .inr hji
      · refine .inl ⟨hlt, fun hmem' => hmem ⟨fun heq => hji ?_, hmem'⟩⟩
        exact (slabObjAt_inj hidx hsz hsz hlt hi heq).2

end

/-! ### The invariant -/

/-- The slab has the same header and the same stack. -/
structure SameSlab (s s' : KmState) (h : UInt64) : Prop where
  next : Slab.next s' h = Slab.next s h
  objSize : Slab.objSize s' h = Slab.objSize s h
  capacity : Slab.capacity s' h = Slab.capacity s h
  freeCount : Slab.freeCount s' h = Slab.freeCount s h
  top : Slab.top s' h = Slab.top s h
  stk : ∀ j < Slab.capacity s h, Slab.stk s' h j = Slab.stk s h j

theorem SameSlab.of_words (hwords : ∀ w a, 0 < w → a + w ≤ 24 + 2 * Slab.capacity s h →
    field s' h w a = field s h w a) : SameSlab s s' h := by
  refine ⟨?_, hwords 2 8 (by omega) (by omega), hwords 2 10 (by omega) (by omega),
    hwords 2 12 (by omega) (by omega), hwords 2 20 (by omega) (by omega), fun j hj => ?_⟩
  · rw [next_eq, next_eq]
    exact congrArg UInt64.ofNat (hwords 8 0 (by omega) (by omega))
  · rw [stk_field, stk_field]
    exact hwords 2 (24 + j * 2) (by omega) (by omega)

/-- A slab of the class: its page is not in stock, and its stack is in order. -/
structure SlabInv (idx : ℕ) (s : KmState) (live : List UInt64) (h : UInt64) : Prop where
  sized : Sized idx s h
  nonNull : h ≠ 0
  apart : s.mem.V2P h ∉ stock s.mem
  stack : StackOk s live h

/-- The list of the bin. Only its last slab may have no free object. -/
structure Listed (idx : ℕ) (s : KmState) (slabs l : List UInt64) : Prop where
  chain : Chain 0 (Slab.next s) (s.bins idx) l
  distinct : l.Nodup
  sub : ∀ h ∈ l, h ∈ slabs
  listed : ∀ h ∈ slabs, Slab.freeCount s h ≠ 0 → h ∈ l
  full : ∀ h ∈ l.dropLast, Slab.freeCount s h ≠ 0

/-- The invariant, with the list of the bin. -/
structure BinInv (idx : ℕ) (r : SlabRun) (l : List UInt64) : Prop where
  pages : PagesOk r.st.mem
  slab : ∀ h ∈ r.slabs, SlabInv idx r.st r.live h
  nodup : r.slabs.Nodup
  list : Listed idx r.st r.slabs l
  owner : ∀ p ∈ r.live, ∃ h ∈ r.slabs, ∃ i < Slab.capacity r.st h, p = slabObjAt r.st h i
  live : r.live.Nodup

theorem BinInv.wellFormed (hinv : BinInv idx r l) : WellFormed idx r := by
  have hlist := hinv.list
  refine ⟨⟨l, hlist.chain, hlist.distinct, fun h hh => ⟨hlist.sub h hh, fun hfree => ?_⟩, ?_⟩,
    fun h hh => (hinv.slab h hh).stack, hinv.live⟩
  · refine (hinv.slab h (hlist.sub h hh)).apart (List.mem_append_left _ ?_)
    exact List.mem_map_of_mem hfree
  · rintro h hh ⟨i, hi, hdead⟩
    have hs := (hinv.slab h hh).stack
    refine hlist.listed h hh ?_
    rw [← hs.top]
    intro htop
    have hmem := (hs.mem i).mpr ⟨hi, hdead⟩
    rw [freeStack, htop] at hmem
    exact absurd hmem List.not_mem_nil

/-- A slab stays in order when its words stay and none of its objects is taken or put back. -/
theorem SlabInv.congr (hinv : SlabInv idx s live g) (hsame : SameSlab s s' g)
    (hapart : s'.mem.V2P g ∉ stock s'.mem)
    (hlive : ∀ i < Slab.capacity s g, slabObjAt s g i ∈ live' ↔ slabObjAt s g i ∈ live) :
    SlabInv idx s' live' g := by
  have hs := hinv.stack
  have hobj : ∀ i, slabObjAt s' g i = slabObjAt s g i :=
    slabObjAt_congr hsame.capacity hsame.objSize
  have hstack : freeStack s' g = freeStack s g := by
    rw [freeStack, freeStack, hsame.top]
    refine List.map_congr_left fun j hj => hsame.stk j ?_
    have hlt := List.mem_range.mp hj
    rw [hs.top] at hlt
    exact hlt.trans_le hs.count
  refine ⟨⟨hinv.sized.page, hsame.objSize.trans hinv.sized.objSize,
    hsame.capacity.trans hinv.sized.capacity⟩, hinv.nonNull, hapart, ?_, ?_, ?_, fun i => ?_⟩
  · rw [hsame.top, hsame.freeCount]
    exact hs.top
  · rw [hsame.freeCount, hsame.capacity]
    exact hs.count
  · rw [hstack]
    exact hs.nodup
  · rw [hstack, hsame.capacity, hobj, hs.mem i]
    exact and_congr_right fun hi => not_congr (hlive i hi).symm

/-- The rest of the kernel keeps the invariant. -/
theorem BinInv.rest (hinv : BinInv idx r l) (hrest : RestOk idx r s) :
    BinInv idx { r with st := s } l := by
  have hsame : ∀ h ∈ r.slabs, SameSlab r.st s h := fun h hh =>
    .of_words fun w a _ ha => hrest.words h hh w a ha
  have hlist := hinv.list
  refine ⟨hrest.pages, fun h hh => ?_, hinv.nodup, ⟨?_, hlist.distinct, hlist.sub,
    fun h hh hfree => ?_, fun h hh => ?_⟩, fun p hp => ?_, hinv.live⟩
  · exact (hinv.slab h hh).congr (hsame h hh) (hrest.apart h hh) fun i _ => Iff.rfl
  · dsimp only
    rw [hrest.bin]
    exact hlist.chain.congr fun h hh => (hsame h (hlist.sub h hh)).next
  · dsimp only at hfree
    rw [(hsame h hh).freeCount] at hfree
    exact hlist.listed h hh hfree
  · dsimp only
    rw [(hsame h (hlist.sub h (List.mem_of_mem_dropLast hh))).freeCount]
    exact hlist.full h hh
  · obtain ⟨h, hh, i, hi, rfl⟩ := hinv.owner p hp
    have hs := hsame h hh
    refine ⟨h, hh, i, ?_, (slabObjAt_congr hs.capacity hs.objSize i).symm⟩
    dsimp only
    rw [hs.capacity]
    exact hi

/-! ### A new slab -/

/-- The stack of a new slab. -/
theorem NewSlab.stackOk (hidx : idx < KM_NUM_BINS) (hnew : NewSlab s s' idx h)
    (hdead : ∀ i < slabCap (kmClassIdxToSize idx), slabObjAt s' h i ∉ live) :
    StackOk s' live h := by
  have hcap := (class_lt hidx).2
  have htop := hnew.top
  have hcap' := hnew.capacity
  have hstk := hnew.stk
  rw [← top_eq] at htop
  rw [← capacity_eq] at hcap'
  generalize slabCap (kmClassIdxToSize idx) = cap at hcap htop hcap' hstk hdead
  have hstack : freeStack s' h = (List.range cap).map fun j => cap - 1 - j := by
    rw [freeStack, htop]
    refine List.map_congr_left fun j hj => ?_
    have hlt := List.mem_range.mp hj
    rw [stk_eq (by omega)]
    exact hstk j hlt
  refine ⟨hnew.top.trans hnew.freeCount.symm, (hnew.freeCount.trans hnew.capacity.symm).le, ?_,
    fun i => ?_⟩
  · rw [hstack]
    refine List.Nodup.map_on (fun a ha b hb heq => ?_) List.nodup_range
    have := List.mem_range.mp ha
    have := List.mem_range.mp hb
    omega
  · rw [hstack, hcap', List.mem_map]
    constructor
    · rintro ⟨j, hj, rfl⟩
      have := List.mem_range.mp hj
      exact ⟨by omega, hdead _ (by omega)⟩
    · rintro ⟨hi, -⟩
      exact ⟨cap - 1 - i, List.mem_range.mpr (by omega), by omega⟩

/-- When no slab has a free object, a new one becomes the list, or there is no memory. -/
theorem BinInv.newSlab (hidx : idx < KM_NUM_BINS) (hinv : BinInv idx r l)
    (hnone : ∀ g ∈ r.slabs, Slab.freeCount r.st g = 0) :
    addSlab r.st idx = (none, r.st) ∨
    ∃ h s', addSlab r.st idx = (some h, s') ∧ BinInv idx ⟨s', r.live, h :: r.slabs⟩ [h] ∧
      Slab.freeCount s' h ≠ 0 := by
  rcases addSlab_spec hinv.pages hidx with hfail | ⟨h, s', hsome, hnew, hhead⟩
  · exact .inl hfail
  have hobt := hnew.obtains
  have hV2P : s'.mem.V2P = r.st.mem.V2P := Ledger.V2P_congr hobt.hhdm
  -- The page was in stock, so it is not one of the slabs.
  have hfresh : h ∉ r.slabs := fun hh => (hinv.slab h hh).apart hobt.inStock
  have hsame : ∀ g ∈ r.slabs, SameSlab r.st s' g := by
    intro g hg
    have hsz := (hinv.slab g hg).sized
    have hcap := (class_lt hidx).2
    rw [← hsz.capacity] at hcap
    refine .of_words fun w a hw ha => ?_
    exact hobt.field g w a hsz.page (fun heq => hfresh (heq ▸ hg)) (by omega) (by omega)
  have hsized : Sized idx s' h := ⟨hobt.aligned, hnew.objSize, hnew.capacity⟩
  have howner : ∀ p ∈ r.live, ∃ g ∈ r.slabs, ∃ i < Slab.capacity s' g, p = slabObjAt s' g i := by
    intro p hp
    obtain ⟨g, hg, i, hi, rfl⟩ := hinv.owner p hp
    have hs := hsame g hg
    refine ⟨g, hg, i, ?_, (slabObjAt_congr hs.capacity hs.objSize i).symm⟩
    rw [hs.capacity]
    exact hi
  have hdead : ∀ i < slabCap (kmClassIdxToSize idx), slabObjAt s' h i ∉ r.live := by
    intro i hi hlive
    rw [← hsized.capacity] at hi
    obtain ⟨g, hg, j, hj, heq⟩ := howner _ hlive
    have hs := hsame g hg
    have hsz : Sized idx s' g := (hinv.slab g hg).sized.congr hs.capacity hs.objSize
    exact hfresh ((slabObjAt_inj hidx hsized hsz hi hj heq).1 ▸ hg)
  have hfree : Slab.freeCount s' h ≠ 0 := by
    rw [freeCount_eq, hnew.freeCount]
    exact (class_fits hidx).2.1.ne'
  refine .inr ⟨h, s', hsome, ⟨hobt.pages, fun g hg => ?_, List.nodup_cons.mpr ⟨hfresh, hinv.nodup⟩,
    ⟨?_, List.nodup_singleton h, ?_, fun g hg hpos => ?_, ?_⟩, fun p hp => ?_, hinv.live⟩, hfree⟩
  · rcases List.mem_cons.mp hg with rfl | hg
    · exact ⟨hsized, hobt.nonNull, hobt.taken, hnew.stackOk hidx hdead⟩
    · refine (hinv.slab g hg).congr (hsame g hg) (fun hmem => ?_) fun i _ => Iff.rfl
      rw [hV2P] at hmem
      exact (hinv.slab g hg).apart (hobt.sub _ hmem)
  · refine ⟨hhead, hobt.nonNull, ?_⟩
    rw [next_eq]
    exact hnew.next
  · exact fun g hg => List.mem_singleton.mp hg ▸ List.mem_cons_self
  · rcases List.mem_cons.mp hg with rfl | hg
    · exact List.mem_cons_self
    · dsimp only at hpos
      rw [(hsame g hg).freeCount] at hpos
      exact absurd (hnone g hg) hpos
  · exact fun g hg => absurd hg List.not_mem_nil
  · obtain ⟨g, hg, hobj⟩ := howner p hp
    exact ⟨g, List.mem_cons_of_mem h hg, hobj⟩

/-! ### The object that is taken or put back -/

/-- The other slabs keep their headers and stacks. -/
theorem BinInv.same (hidx : idx < KM_NUM_BINS) (hinv : BinInv idx r l)
    (hw : WritesPage r.st s h) : ∀ g ∈ r.slabs, g ≠ h → SameSlab r.st s g := by
  intro g hg hne
  have hsz := (hinv.slab g hg).sized
  have hcap := (class_lt hidx).2
  rw [← hsz.capacity] at hcap
  exact .of_words fun w a hpos ha => hw.field g w a hsz.page hne (by omega) (by omega)

/-- The invariant behind a write to the page of `h`, which takes objects of `h` or puts them back.
-/
theorem BinInv.write (hidx : idx < KM_NUM_BINS) (hinv : BinInv idx r l) (hh : h ∈ r.slabs)
    (hw : WritesPage r.st s h)
    (hcap : (slabView s h).capacity = (slabView r.st h).capacity)
    (hsize : (slabView s h).objSize = (slabView r.st h).objSize)
    (hstack : StackOk s live h) (hlive : live.Nodup)
    (hobj : ∀ q, (∀ i < Slab.capacity r.st h, q ≠ slabObjAt r.st h i) → (q ∈ live ↔ q ∈ r.live))
    (hlist : Listed idx s r.slabs l') : BinInv idx ⟨s, live, r.slabs⟩ l' := by
  have hsame := hinv.same hidx hw
  have hsz := (hinv.slab h hh).sized
  have hV2P : s.mem.V2P = r.st.mem.V2P := Ledger.V2P_congr hw.hhdm
  have happart : ∀ g ∈ r.slabs, s.mem.V2P g ∉ stock s.mem := by
    intro g hg
    rw [hV2P, hw.stock]
    exact (hinv.slab g hg).apart
  refine ⟨hinv.pages.writesPage hw, fun g hg => ?_, hinv.nodup, hlist, fun p hp => ?_, hlive⟩
  · by_cases hgh : g = h
    · rw [hgh]
      exact ⟨hsz.congr hcap hsize, (hinv.slab h hh).nonNull, happart h hh, hstack⟩
    · refine (hinv.slab g hg).congr (hsame g hg hgh) (happart g hg) fun i hi => ?_
      refine hobj _ fun j hj heq => ?_
      exact hgh (slabObjAt_inj hidx (hinv.slab g hg).sized hsz hi hj heq).1
  · by_cases hown : ∃ i < Slab.capacity r.st h, p = slabObjAt r.st h i
    · obtain ⟨i, hi, rfl⟩ := hown
      refine ⟨h, hh, i, ?_, (slabObjAt_congr hcap hsize i).symm⟩
      rw [capacity_eq, hcap]
      exact hi
    · have hother := (hobj p fun i hi heq => hown ⟨i, hi, heq⟩).mp hp
      obtain ⟨g, hg, i, hi, rfl⟩ := hinv.owner p hother
      have hgh : g ≠ h := fun heq => hown ⟨i, heq ▸ hi, by rw [heq]⟩
      have hs := hsame g hg hgh
      refine ⟨g, hg, i, ?_, (slabObjAt_congr hs.capacity hs.objSize i).symm⟩
      rw [hs.capacity]
      exact hi

/-- An object of the head is taken. -/
theorem Listed.take (hlist : Listed idx s slabs (h :: l))
    (hsame : ∀ g ∈ slabs, g ≠ h → SameSlab s s' g)
    (hcount : Slab.freeCount s' h = Slab.freeCount s h - 1)
    (hnext : Slab.next s' h = if Slab.freeCount s h = 1 then 0 else Slab.next s h)
    (hhead : s'.bins idx = if Slab.freeCount s h = 1 then
      if Slab.next s h = 0 then h else Slab.next s h else s.bins idx)
    (hpos : Slab.freeCount s h ≠ 0) : ∃ l', Listed idx s' slabs l' := by
  obtain ⟨hfirst, hnonNull, hchain⟩ := hlist.chain
  obtain ⟨hnot, hdistinct⟩ := List.nodup_cons.mp hlist.distinct
  have hne : ∀ g ∈ l, g ≠ h := fun g hg heq => hnot (heq ▸ hg)
  have hsameNext : ∀ g ∈ l, Slab.next s' g = Slab.next s g := fun g hg =>
    (hsame g (hlist.sub g (List.mem_cons_of_mem h hg)) (hne g hg)).next
  have hothers : ∀ g ∈ slabs, g ≠ h → Slab.freeCount s' g ≠ 0 → g ∈ l := by
    intro g hg hgh hfree
    rw [(hsame g hg hgh).freeCount] at hfree
    exact List.mem_of_ne_of_mem hgh (hlist.listed g hg hfree)
  have hrest : ∀ g ∈ l, g ∈ (h :: l).dropLast → Slab.freeCount s' g ≠ 0 := by
    intro g hg hlast
    rw [(hsame g (hlist.sub g (List.mem_cons_of_mem h hg)) (hne g hg)).freeCount]
    exact hlist.full g hlast
  by_cases hone : Slab.freeCount s h = 1
  · rw [if_pos hone] at hnext hhead
    have hempty : Slab.freeCount s' h = 0 := by omega
    cases l with
    | nil =>
      -- The only slab stays the head.
      rw [if_pos (chain_nil.mp hchain)] at hhead
      refine ⟨[h], ⟨hhead, hnonNull, hnext⟩, List.nodup_singleton h, hlist.sub,
        fun g hg hfree => ?_, fun g hg => absurd hg List.not_mem_nil⟩
      by_cases hgh : g = h
      · rw [hgh]
        exact List.mem_cons_self
      · exact absurd (hothers g hg hgh hfree) List.not_mem_nil
    | cons x l =>
      -- Another slab becomes the head, and this one leaves the list.
      rw [if_neg (by rw [hchain.1]; exact hchain.2.1)] at hhead
      refine ⟨x :: l, ?_, hdistinct, fun g hg => hlist.sub g (List.mem_cons_of_mem h hg),
        fun g hg hfree => ?_, fun g hg => ?_⟩
      · rw [hhead]
        exact hchain.congr hsameNext
      · refine hothers g hg (fun heq => ?_) hfree
        rw [heq] at hfree
        exact hfree hempty
      · exact hrest g (List.mem_of_mem_dropLast hg) (List.mem_cons_of_mem h hg)
  · rw [if_neg hone] at hnext hhead
    refine ⟨h :: l, ⟨hhead.trans hfirst, hnonNull, ?_⟩, hlist.distinct, hlist.sub,
      fun g hg hfree => ?_, fun g hg => ?_⟩
    · rw [hnext]
      exact hchain.congr hsameNext
    · by_cases hgh : g = h
      · rw [hgh]
        exact List.mem_cons_self
      · exact List.mem_cons_of_mem h (hothers g hg hgh hfree)
    · rcases List.mem_cons.mp (List.mem_of_mem_dropLast hg) with rfl | hmem
      · rw [hcount]
        omega
      · exact hrest g hmem hg

/-- The first object of a slab is put back that is not on the list. -/
theorem Listed.push (hlist : Listed idx s slabs l) (hh : h ∈ slabs) (hnonNull : h ≠ 0)
    (hnot : h ∉ l) (hsame : ∀ g ∈ slabs, g ≠ h → SameSlab s s' g)
    (hcount : Slab.freeCount s' h ≠ 0) (hnext : Slab.next s' h = s.bins idx)
    (hhead : s'.bins idx = h) : Listed idx s' slabs (h :: l) := by
  have hne : ∀ g ∈ l, g ≠ h := fun g hg heq => hnot (heq ▸ hg)
  refine ⟨?_, List.nodup_cons.mpr ⟨hnot, hlist.distinct⟩, fun g hg => ?_, fun g hg hfree => ?_,
    fun g hg => ?_⟩
  · rw [hhead]
    refine Chain.push (hlist.chain.congr fun g hg => ?_) hnonNull hnext
    exact (hsame g (hlist.sub g hg) (hne g hg)).next
  · rcases List.mem_cons.mp hg with rfl | hg
    · exact hh
    · exact hlist.sub g hg
  · by_cases hgh : g = h
    · rw [hgh]
      exact List.mem_cons_self
    · rw [(hsame g hg hgh).freeCount] at hfree
      exact List.mem_cons_of_mem h (hlist.listed g hg hfree)
  · by_cases hgh : g = h
    · rw [hgh]
      exact hcount
    · cases l with
      | nil => exact absurd hg List.not_mem_nil
      | cons x l =>
        rw [List.dropLast_cons_cons] at hg
        have hlast := List.mem_of_ne_of_mem hgh hg
        rw [(hsame g (hlist.sub g (List.mem_of_mem_dropLast hlast)) hgh).freeCount]
        exact hlist.full g hlast

/-- Another object of a slab is put back. -/
theorem Listed.keep (hlist : Listed idx s slabs l) (hh : h ∈ l)
    (hsame : ∀ g ∈ slabs, g ≠ h → SameSlab s s' g) (hcount : Slab.freeCount s' h ≠ 0)
    (hnext : Slab.next s' h = Slab.next s h) (hhead : s'.bins idx = s.bins idx) :
    Listed idx s' slabs l := by
  refine ⟨?_, hlist.distinct, hlist.sub, fun g hg hfree => ?_, fun g hg => ?_⟩
  · rw [hhead]
    refine hlist.chain.congr fun g hg => ?_
    by_cases hgh : g = h
    · rw [hgh]
      exact hnext
    · exact (hsame g (hlist.sub g hg) hgh).next
  · by_cases hgh : g = h
    · rw [hgh]
      exact hh
    · rw [(hsame g hg hgh).freeCount] at hfree
      exact hlist.listed g hg hfree
  · by_cases hgh : g = h
    · rw [hgh]
      exact hcount
    · rw [(hsame g (hlist.sub g (List.mem_of_mem_dropLast hg)) hgh).freeCount]
      exact hlist.full g hg

/-! ### Allocation -/

/-- An object of the head is taken. -/
theorem BinInv.take (hidx : idx < KM_NUM_BINS) (hinv : BinInv idx r (h :: l))
    (hfree : Slab.freeCount r.st h ≠ 0) : ∃ p s' l', takeObject r.st idx h = (p, s') ∧
      kmOwnerSlab p = h ∧ BinInv idx ⟨s', p :: r.live, r.slabs⟩ l' := by
  have hh : h ∈ r.slabs := hinv.list.sub h List.mem_cons_self
  have hslab := hinv.slab h hh
  have hstack := hslab.stack
  have hcount : (slabView r.st h).freeCount = (slabView r.st h).top := hstack.top.symm
  have htop : 0 < (slabView r.st h).top := by
    rw [← hcount]
    exact Nat.pos_of_ne_zero hfree
  obtain ⟨s', hrun, hw, hview, hhead⟩ := takeObject_spec idx
    ⟨hinv.pages.hhdm, hslab.sized.page⟩ htop (hstack.top_lt hidx hslab.sized).le hcount
  have hcap : (slabView s' h).capacity = (slabView r.st h).capacity := by rw [hview]
  have hsize : (slabView s' h).objSize = (slabView r.st h).objSize := by rw [hview]
  obtain ⟨i, hi, hentry, hdead, hstack'⟩ := hstack.take hidx hslab.sized htop hcap hsize
    (by rw [hview]) (by rw [hview]) (by rw [hview])
  rw [← hentry] at hrun
  rw [← hcount] at hview hhead
  obtain ⟨l', hlist⟩ := hinv.list.take (hinv.same hidx hw)
    (by rw [freeCount_eq, hview]; rfl) (by rw [next_eq, hview, next_eq]; rfl)
    (by rw [hhead, next_eq]; rfl) hfree
  refine ⟨_, s', l', hrun, kmOwnerSlab_obj hidx hslab.sized hi, ?_⟩
  refine hinv.write hidx hh hw hcap hsize hstack' (List.nodup_cons.mpr ⟨hdead, hinv.live⟩)
    (fun q hq => ?_) hlist
  rw [List.mem_cons]
  exact or_iff_right (hq i hi)

/-- `km_alloc_from_bin_locked` takes an object of a slab that has one, or there is no memory for a
new slab. -/
theorem BinInv.ready (hidx : idx < KM_NUM_BINS) (hinv : BinInv idx r l) :
    kmAllocFromBinLocked r.st idx = (none, r.st) ∨
    ∃ h s slabs l', BinInv idx ⟨s, r.live, slabs⟩ (h :: l') ∧ Slab.freeCount s h ≠ 0 ∧
      (slabs = r.slabs ∨ slabs = h :: r.slabs) ∧ kmAllocFromBinLocked r.st idx =
        (some (takeObject s idx h).1, (takeObject s idx h).2) := by
  have hchain := hinv.list.chain
  cases l with
  | nil =>
    have hfirst : firstSlab r.st idx = addSlab r.st idx := if_pos (chain_nil.mp hchain)
    have hnone : ∀ g ∈ r.slabs, Slab.freeCount r.st g = 0 := by
      intro g hg
      by_contra hfree
      exact absurd (hinv.list.listed g hg hfree) List.not_mem_nil
    unfold kmAllocFromBinLocked
    rw [hfirst]
    rcases hinv.newSlab hidx hnone with hfail | ⟨h, s', hsome, hinv', hfree⟩
    · rw [hfail]
      exact .inl rfl
    · have htop := (hinv'.slab h List.mem_cons_self).stack.top
      dsimp only at htop
      have hroom : slabWithRoom s' idx h = (some h, s') := if_neg (by rw [htop]; exact hfree)
      rw [hsome]
      dsimp only
      rw [hroom]
      exact .inr ⟨h, s', h :: r.slabs, [], hinv', hfree, .inr rfl, rfl⟩
  | cons h l =>
    obtain ⟨hhead, hnonNull, hrest⟩ := hchain
    have hh : h ∈ r.slabs := hinv.list.sub h List.mem_cons_self
    have htop := (hinv.slab h hh).stack.top
    have hfirst : firstSlab r.st idx = (some h, r.st) := by
      rw [firstSlab, if_neg (by rw [hhead]; exact hnonNull), hhead]
    unfold kmAllocFromBinLocked
    rw [hfirst]
    dsimp only
    by_cases hfree : Slab.freeCount r.st h = 0
    · -- Only the last slab of the list has no free object, so there is no other one.
      have halone : l = [] := by
        cases l with
        | nil => rfl
        | cons x l => exact absurd hfree (hinv.list.full h List.mem_cons_self)
      subst halone
      have hroom : slabWithRoom r.st idx h = addSlab r.st idx := by
        rw [slabWithRoom, if_pos (htop.trans hfree)]
        exact if_pos (chain_nil.mp hrest)
      have hnone : ∀ g ∈ r.slabs, Slab.freeCount r.st g = 0 := by
        intro g hg
        by_contra hpos
        rw [List.mem_singleton.mp (hinv.list.listed g hg hpos)] at hpos
        exact hpos hfree
      rw [hroom]
      rcases hinv.newSlab hidx hnone with hfail | ⟨g, s', hsome, hinv', hfree'⟩
      · rw [hfail]
        exact .inl rfl
      · rw [hsome]
        exact .inr ⟨g, s', g :: r.slabs, [], hinv', hfree', .inr rfl, rfl⟩
    · have hroom : slabWithRoom r.st idx h = (some h, r.st) := if_neg (by rw [htop]; exact hfree)
      rw [hroom]
      exact .inr ⟨h, r.st, r.slabs, l, hinv, hfree, .inl rfl, rfl⟩

/-- `km_alloc_from_bin_locked` keeps the invariant. -/
theorem BinInv.alloc (hidx : idx < KM_NUM_BINS) (hinv : BinInv idx r l)
    (hstep : slabStep idx r .alloc = some r') : ∃ l', BinInv idx r' l' := by
  unfold slabStep at hstep
  dsimp only at hstep
  rcases hinv.ready hidx with hfail | ⟨h, s, slabs, l', hinv', hfree, hslabs, hrun⟩
  · rw [hfail] at hstep
    cases hstep
    exact ⟨l, hinv⟩
  · obtain ⟨p, s', l'', htake, howner, hinv''⟩ := hinv'.take hidx hfree
    rw [hrun] at hstep
    dsimp only at htake hstep
    rw [htake] at hstep
    cases hstep
    -- The page of the object is a slab already, or the new one.
    have hinsert : r.slabs.insert (kmOwnerSlab p) = slabs := by
      rw [howner]
      rcases hslabs with rfl | rfl
      · exact List.insert_of_mem (hinv'.list.sub h List.mem_cons_self)
      · exact List.insert_of_not_mem (List.nodup_cons.mp hinv'.nodup).1
    rw [hinsert]
    exact ⟨l'', hinv''⟩

/-! ### Freeing -/

/-- The state behind the first part of `km_free_to_bin_locked`, for the object `i` of `h`. -/
structure Put (idx : ℕ) (r : SlabRun) (h : UInt64) (i : ℕ) (s : KmState) : Prop where
  writes : WritesPage r.st s h
  same : ∀ g ∈ r.slabs, g ≠ h → SameSlab r.st s g
  capacity : Slab.capacity s h = Slab.capacity r.st h
  objSize : Slab.objSize s h = Slab.objSize r.st h
  freeCount : Slab.freeCount s h = Slab.freeCount r.st h + 1
  next : Slab.next s h = if Slab.freeCount r.st h = 0 then r.st.bins idx else Slab.next r.st h
  head : s.bins idx = if Slab.freeCount r.st h = 0 then h else r.st.bins idx
  stack : StackOk s (r.live.erase (slabObjAt r.st h i)) h

section

variable (hidx : idx < KM_NUM_BINS) (hinv : BinInv idx r l) (hh : h ∈ r.slabs)
  (hi : i < Slab.capacity r.st h)

include hidx hinv hh hi

theorem BinInv.putObject (hlive : slabObjAt r.st h i ∈ r.live) :
    Put idx r h i (DzOS.Proofs.Mem.putObject r.st idx h i) := by
  have hslab := hinv.slab h hh
  have hstack := hslab.stack
  have hcount : (slabView r.st h).freeCount = (slabView r.st h).top := hstack.top.symm
  have hlt := (class_lt hidx).2
  rw [← hslab.sized.capacity] at hlt
  obtain ⟨hw, hview, hhead⟩ := putObject_spec (i := i) idx ⟨hinv.pages.hhdm, hslab.sized.page⟩
    (hstack.top_lt hidx hslab.sized) (by omega) hcount
  generalize DzOS.Proofs.Mem.putObject r.st idx h i = s at hw hview hhead ⊢
  have hcap : (slabView s h).capacity = (slabView r.st h).capacity := by rw [hview]
  have hsize : (slabView s h).objSize = (slabView r.st h).objSize := by rw [hview]
  have hstack' := hstack.put hidx hslab.sized hi hlive hinv.live hcap hsize (by rw [hview])
    (by rw [hview]) (by rw [hview])
  rw [← hcount] at hhead
  refine ⟨hw, hinv.same hidx hw, hcap, hsize, ?_, ?_, hhead, hstack'⟩
  · rw [freeCount_eq, hview, freeCount_eq, hcount]
  · rw [next_eq, hview, next_eq, freeCount_eq, hcount]

/-- The invariant behind the first part, when a slab without free objects is not on the list. -/
theorem BinInv.put (hput : Put idx r h i s) (hnot : Slab.freeCount r.st h = 0 → h ∉ l) :
    BinInv idx ⟨s, r.live.erase (slabObjAt r.st h i), r.slabs⟩
      (if Slab.freeCount r.st h = 0 then h :: l else l) := by
  have hpos : Slab.freeCount s h ≠ 0 := by
    rw [hput.freeCount]
    exact Nat.succ_ne_zero _
  refine hinv.write hidx hh hput.writes hput.capacity hput.objSize hput.stack (hinv.live.erase _)
    (fun q hq => ?_) ?_
  · rw [hinv.live.mem_erase_iff]
    exact and_iff_right (hq i hi)
  · have hnext := hput.next
    have hhead := hput.head
    by_cases hempty : Slab.freeCount r.st h = 0
    · rw [if_pos hempty] at hnext hhead ⊢
      exact hinv.list.push hh (hinv.slab h hh).nonNull (hnot hempty) hput.same hpos hnext hhead
    · rw [if_neg hempty] at hnext hhead ⊢
      exact hinv.list.keep (hinv.list.listed h hh hempty) hput.same hpos hnext hhead

end

/-- The state behind the second part. -/
def released (s : KmState) (idx : ℕ) (h : UInt64) : KmState :=
  { (if s.bins idx = h then s.setHead idx (Slab.next s h) else s) with
    mem := pushFreePage s.mem h }

theorem releaseSlab_eq (hp : OnPage s h) : releaseSlab s idx h = .ok (released s idx h) := by
  have hmem : (if s.bins idx = h then s.setHead idx (Slab.next s h) else s).mem = s.mem := by
    split
    · rfl
    · rfl
  unfold releaseSlab released
  dsimp only
  rw [hmem, kfree_ok hp.hhdm (V2P_aligned hp.hhdm hp.page)]

/-- The page allocator stays in order when it gets back a page. -/
theorem PagesOk.kfree {m : MemState} (hok : PagesOk m) (hpage : h.toNat % 4096 = 0) (hne : h ≠ 0)
    (hnot : m.V2P h ∉ stock m) : PagesOk (pushFreePage m h) := by
  have hstock : stock (pushFreePage m h) = m.V2P h :: stock m := rfl
  have hback : m.P2V (m.V2P h) = h := by simp [MemState.P2V, MemState.V2P]
  refine ⟨hok.hhdm, hok.regions, ?_, ?_⟩
  · rw [hstock]
    exact List.nodup_cons.mpr ⟨hnot, hok.nodup⟩
  · rw [hstock]
    intro p hp
    rcases List.mem_cons.mp hp with rfl | hp
    · refine ⟨V2P_aligned hok.hhdm hpage, ?_⟩
      change m.P2V (m.V2P h) ≠ 0
      rw [hback]
      exact hne
    · exact hok.stockPage p hp

/-- When the count of a slab is its capacity, all of its objects are free. -/
theorem StackOk.all_free (hs : StackOk s live h) (hcount : Slab.freeCount s h = Slab.capacity s h)
    (hi : i < Slab.capacity s h) : slabObjAt s h i ∉ live := by
  have hsub : freeStack s h ⊆ List.range (Slab.capacity s h) := fun j hj =>
    List.mem_range.mpr ((hs.mem j).mp hj).1
  have hlength : (freeStack s h).length = Slab.capacity s h := by
    rw [freeStack, List.length_map, List.length_range, hs.top, hcount]
  have hperm := (hs.nodup.subperm hsub).perm_of_length_le (by rw [List.length_range, hlength])
  exact ((hs.mem i).mp (hperm.mem_iff.mpr (List.mem_range.mpr hi))).2

/-- The release writes no slab, and changes the head only when it is the slab itself. -/
theorem sameSlab_released (s : KmState) (idx : ℕ) (h g : UInt64) :
    SameSlab s (released s idx h) g := .of_words fun _ _ _ _ => rfl

theorem released_bins (s : KmState) (idx : ℕ) (h : UInt64) :
    (released s idx h).bins idx = if s.bins idx = h then Slab.next s h else s.bins idx := by
  unfold released
  dsimp only
  split
  · exact if_pos rfl
  · rfl

/-- A slab that is the head is released when all of its objects are free. -/
theorem BinInv.release (hinv : BinInv idx ⟨s, live, slabs⟩ (h :: l))
    (hcount : Slab.freeCount s h = Slab.capacity s h) :
    BinInv idx ⟨released s idx h, live, slabs.erase h⟩ l := by
  have hh : h ∈ slabs := hinv.list.sub h List.mem_cons_self
  have hslab : SlabInv idx s live h := hinv.slab h hh
  have hnodup : slabs.Nodup := hinv.nodup
  obtain ⟨hhead, -, hchain⟩ := hinv.list.chain
  obtain ⟨hnot, hdistinct⟩ := List.nodup_cons.mp hinv.list.distinct
  have hsame := sameSlab_released s idx h
  have hstock : stock (released s idx h).mem = s.mem.V2P h :: stock s.mem := rfl
  refine ⟨hinv.pages.kfree hslab.sized.page hslab.nonNull hslab.apart, fun g hg => ?_,
    hnodup.erase h, ⟨?_, hdistinct, fun g hg => ?_, fun g hg hfree => ?_, fun g hg => ?_⟩,
    fun p hp => ?_, hinv.live⟩
  · obtain ⟨hgh, hg⟩ := hnodup.mem_erase_iff.mp hg
    have hg' : SlabInv idx s live g := hinv.slab g hg
    refine hg'.congr (hsame g) ?_ fun i _ => Iff.rfl
    rw [hstock]
    intro hmem
    rcases List.mem_cons.mp hmem with heq | hmem
    · exact hgh (V2P_inj heq)
    · exact hg'.apart hmem
  · dsimp only
    rw [released_bins, if_pos hhead]
    exact hchain.congr fun g _ => (hsame g).next
  · refine hnodup.mem_erase_iff.mpr ⟨?_, hinv.list.sub g (List.mem_cons_of_mem h hg)⟩
    rintro rfl
    exact hnot hg
  · obtain ⟨hgh, hg⟩ := hnodup.mem_erase_iff.mp hg
    dsimp only at hfree
    rw [(hsame g).freeCount] at hfree
    exact List.mem_of_ne_of_mem hgh (hinv.list.listed g hg hfree)
  · dsimp only
    rw [(hsame g).freeCount]
    refine hinv.list.full g ?_
    cases l with
    | nil => exact absurd hg List.not_mem_nil
    | cons x l => exact List.mem_cons_of_mem h hg
  · obtain ⟨g, hg, i, hi, rfl⟩ := hinv.owner p hp
    have hgh : g ≠ h := by
      rintro rfl
      exact hslab.stack.all_free hcount hi hp
    exact ⟨g, hnodup.mem_erase_iff.mpr ⟨hgh, hg⟩, i, hi, rfl⟩

/-- The list of the bin, as it is computed. -/
theorem BinInv.binList_eq (hinv : BinInv idx r l) : binList idx r = l := by
  refine hinv.list.chain.follow_eq ?_
  exact (hinv.list.distinct.subperm hinv.list.sub).length_le

/-- What `km_free_to_bin_locked` does with a live object. -/
theorem BinInv.free_cases (hidx : idx < KM_NUM_BINS) (hinv : BinInv idx r l)
    (hstep : slabStep idx r (.free p) = some r') :
    ∃ h ∈ r.slabs, ∃ i < Slab.capacity r.st h, ∃ s, kmOwnerSlab p = h ∧ p = slabObjAt r.st h i ∧
      Put idx r h i s ∧ r' = if Slab.freeCount r.st h + 1 = Slab.capacity r.st h then
        ⟨released s idx h, r.live.erase p, r.slabs.erase h⟩
      else ⟨s, r.live.erase p, r.slabs⟩ := by
  unfold slabStep at hstep
  dsimp only at hstep
  split at hstep
  case isFalse => cases hstep
  rename_i hlive
  obtain ⟨h, hh, i, hi, rfl⟩ := hinv.owner p hlive
  have hslab := hinv.slab h hh
  have howner := kmOwnerSlab_obj hidx hslab.sized hi
  have hput := hinv.putObject hidx hh hi hlive
  rw [howner, kmFreeToBinLocked_eq, slabIndexOf_obj hidx hslab.sized hi] at hstep
  generalize DzOS.Proofs.Mem.putObject r.st idx h i = s at hput hstep
  refine ⟨h, hh, i, hi, s, howner, rfl, hput, ?_⟩
  rw [hput.freeCount, hput.capacity] at hstep
  split at hstep
  · rename_i hcount
    rw [releaseSlab_eq (hput.writes.onPage ⟨hinv.pages.hhdm, hslab.sized.page⟩)] at hstep
    have hpages : (released s idx h).mem.freepages ≠ r.st.mem.freepages := by
      intro heq
      have hpush : (released s idx h).mem.freepages = h :: r.st.mem.freepages :=
        congrArg (List.cons h) hput.writes.freepages
      exact List.cons_ne_self h _ (hpush.symm.trans heq)
    have hr : some _ = some r' := hstep
    dsimp only at hr
    rw [if_neg hpages] at hr
    rw [if_pos hcount]
    exact (Option.some.inj hr).symm
  · rename_i hcount
    have hr : some _ = some r' := hstep
    dsimp only at hr
    rw [if_pos hput.writes.freepages] at hr
    rw [if_neg hcount]
    exact (Option.some.inj hr).symm

/-- A call that is of the kind of `FreeOk` keeps the invariant. -/
theorem BinInv.free (hidx : idx < KM_NUM_BINS) (hinv : BinInv idx r l) {p : UInt64}
    (hok : FreeOk idx r (.free p)) (hstep : slabStep idx r (.free p) = some r') :
    ∃ l', BinInv idx r' l' := by
  obtain ⟨h, hh, i, hi, s, howner, rfl, hput, rfl⟩ := hinv.free_cases hidx hstep
  obtain ⟨hempty, hlast⟩ := hok
  rw [howner] at hempty hlast
  rw [hinv.binList_eq] at hempty
  have hinv' := hinv.put hidx hh hi hput hempty
  by_cases hcount : Slab.freeCount r.st h + 1 = Slab.capacity r.st h
  · rw [if_pos hcount]
    have hfull : Slab.freeCount s h = Slab.capacity s h := by
      rw [hput.freeCount, hput.capacity, hcount]
    rcases hlast hcount with hzero | hhead
    · rw [if_pos hzero] at hinv'
      exact ⟨l, hinv'.release hfull⟩
    · by_cases hzero : Slab.freeCount r.st h = 0
      · rw [if_pos hzero] at hinv'
        exact ⟨l, hinv'.release hfull⟩
      · rw [if_neg hzero] at hinv'
        -- The slab is the first one of the list.
        cases l with
        | nil => exact absurd (hinv.list.listed h hh hzero) List.not_mem_nil
        | cons x l =>
          obtain rfl : h = x := hhead.symm.trans hinv.list.chain.1
          exact ⟨l, hinv'.release hfull⟩
  · rw [if_neg hcount]
    exact ⟨_, hinv'⟩

/-- The other calls leave a list with a cycle, or with a page that was given back. -/
theorem BinInv.not_wellFormed (hidx : idx < KM_NUM_BINS) (hinv : BinInv idx r l)
    (hbad : ¬ FreeOk idx r (.free p)) (hstep : slabStep idx r (.free p) = some r') :
    ¬ WellFormed idx r' := by
  obtain ⟨h, hh, i, hi, s, howner, rfl, hput, rfl⟩ := hinv.free_cases hidx hstep
  unfold FreeOk at hbad
  dsimp only at hbad
  rw [howner, hinv.binList_eq] at hbad
  rintro ⟨⟨l', hchain, hdistinct, hsub, -⟩, -⟩
  have hnext := hput.next
  have hhead := hput.head
  -- From the old head, the new links still lead to the slab.
  have hreach : h ∈ l → ∀ l', Chain 0 (Slab.next s) (r.st.bins idx) l' → h ∈ l' := by
    intro hmem l' hchain
    refine hinv.list.chain.mem_of_other hmem (fun g hg hgh => ?_) hchain
    exact (hput.same g (hinv.list.sub g hg) hgh).next
  have hgone : h ∉ r.slabs.erase h := hinv.nodup.not_mem_erase
  by_cases hzero : Slab.freeCount r.st h = 0
  · rw [if_pos hzero] at hnext hhead
    have hmem : h ∈ l := by
      by_contra hnot
      exact hbad ⟨fun _ => hnot, fun _ => .inl hzero⟩
    by_cases hcount : Slab.freeCount r.st h + 1 = Slab.capacity r.st h
    · rw [if_pos hcount] at hchain hsub
      dsimp only at hchain hsub
      rw [released_bins, if_pos hhead, hnext] at hchain
      exact hgone (hsub h (hreach hmem l' hchain)).1
    · rw [if_neg hcount] at hchain
      dsimp only at hchain
      rw [hhead] at hchain
      -- The slab links to the old head, and the list comes to it again.
      cases l' with
      | nil => exact (hinv.slab h hh).nonNull hchain
      | cons x l' =>
        obtain ⟨rfl, -, hrest⟩ := hchain
        rw [hnext] at hrest
        exact (List.nodup_cons.mp hdistinct).1 (hreach hmem l' hrest)
  · rw [if_neg hzero] at hhead
    have hmem := hinv.list.listed h hh hzero
    obtain ⟨hcount, hother⟩ : Slab.freeCount r.st h + 1 = Slab.capacity r.st h ∧
        r.st.bins idx ≠ h := by
      by_contra hnot
      refine hbad ⟨fun heq => absurd heq hzero, fun hcount => .inr ?_⟩
      by_contra hne
      exact hnot ⟨hcount, hne⟩
    rw [if_pos hcount] at hchain hsub
    dsimp only at hchain hsub
    rw [released_bins, hhead, if_neg hother] at hchain
    exact hgone (hsub h (hreach hmem l' hchain)).1

/-! ### When the bin is in order -/

theorem binInv_noSlabs {mem : MemState} (hpages : PagesOk mem) : BinInv idx (noSlabs mem) [] := by
  refine ⟨hpages, ?_, List.nodup_nil, ⟨rfl, List.nodup_nil, ?_, ?_, ?_⟩, ?_, List.nodup_nil⟩
  · exact fun h hh => absurd hh List.not_mem_nil
  · exact fun h hh => absurd hh List.not_mem_nil
  · exact fun h hh => absurd hh List.not_mem_nil
  · exact fun h hh => absurd hh List.not_mem_nil
  · exact fun p hp => absurd hp List.not_mem_nil

/-- A call keeps the invariant if it can happen and is of the kind of `FreeOk`. -/
theorem BinInv.step (hidx : idx < KM_NUM_BINS) (hinv : BinInv idx r l) {c : SlabCall}
    (hallowed : c.Allowed idx r) (hok : FreeOk idx r c) (hstep : slabStep idx r c = some r') :
    ∃ l', BinInv idx r' l' := by
  cases c with
  | alloc => exact hinv.alloc hidx hstep
  | free p => exact hinv.free hidx hok hstep
  | rest st =>
    cases hstep
    exact ⟨l, hinv.rest hallowed⟩

/-- A bin is in order in every state of a run if and only if no call frees the first object of a
slab that has no free object and is still on the list, or the last object of a slab that is on the
list and not its head. -/
theorem slabs_wellFormed_iff (hidx : idx < KM_NUM_BINS) {mem : MemState} (hpages : PagesOk mem)
    {calls : List SlabCall}
    (hallowed : EachCall (slabStep idx) (noSlabs mem) calls fun r c => c.Allowed idx r)
    (hrun : runSteps (slabStep idx) (noSlabs mem) calls = some r) :
    Throughout (slabStep idx) (noSlabs mem) calls (WellFormed idx) ↔
      EachCall (slabStep idx) (noSlabs mem) calls (FreeOk idx) := by
  refine throughout_iff (I := fun r => ∃ l, BinInv idx r l) ?_ ?_ ?_
    ⟨[], binInv_noSlabs hpages⟩ hallowed hrun
  · rintro r ⟨l, hinv⟩
    exact hinv.wellFormed
  · rintro r c r' ⟨l, hinv⟩ hc hstep hok
    exact hinv.step hidx hc hok hstep
  · rintro r c r' ⟨l, hinv⟩ - hstep hbad
    cases c with
    | alloc => exact absurd trivial hbad
    | free p => exact hinv.not_wellFormed hidx hbad hstep
    | rest st => exact absurd trivial hbad

/-- Whether a call is of the kind of `FreeOk` can be computed. -/
instance decidableFreeOk (idx : ℕ) (r : SlabRun) : (c : SlabCall) → Decidable (FreeOk idx r c)
  | .free p => inferInstanceAs (Decidable (
      (Slab.freeCount r.st (kmOwnerSlab p) = 0 → kmOwnerSlab p ∉ binList idx r) ∧
      (Slab.freeCount r.st (kmOwnerSlab p) + 1 = Slab.capacity r.st (kmOwnerSlab p) →
        Slab.freeCount r.st (kmOwnerSlab p) = 0 ∨ r.st.bins idx = kmOwnerSlab p)))
  | .alloc => isTrue trivial
  | .rest _ => isTrue trivial

/-- Two objects of 1024 bytes, and both are freed again. -/
theorem slabs_wellFormed_iff_two : Throughout (slabStep 6) (noSlabs onePage)
    [.alloc, .alloc, .free 0x101e, .free 0x141e] (WellFormed 6) := by
  refine (slabs_wellFormed_iff (by decide) pagesOk_onePage (fun front c t hfront _ => ?_)
    (runSteps_getD (by decide +kernel))).mpr (by decide +kernel)
  have hc := hfront.subset (List.mem_append_right front (List.mem_singleton_self c))
  simp only [List.mem_cons, List.not_mem_nil, or_false] at hc
  rcases hc with rfl | rfl | rfl | rfl
  · trivial
  · trivial
  · trivial
  · trivial

/-- A slab has three objects of 1024 bytes. When all three are taken and one is freed, the slab
links to itself. -/
theorem slabs_not_wellFormed_full : ∃ r, runSteps (slabStep 6) (noSlabs onePage)
    [.alloc, .alloc, .alloc, .free 0x101e] = some r ∧ ¬ WellFormed 6 r := by
  obtain ⟨r, hr⟩ : ∃ r, r = (runSteps (slabStep 6) (noSlabs onePage)
      [.alloc, .alloc, .alloc, .free 0x101e]).getD (noSlabs onePage) := ⟨_, rfl⟩
  have hrun : runSteps (slabStep 6) (noSlabs onePage)
      [.alloc, .alloc, .alloc, .free 0x101e] = some r := by
    rw [hr]
    exact runSteps_getD (by decide +kernel)
  have hhead : r.st.bins 6 = 0x1000 := by
    rw [hr]
    decide +kernel
  have hnext : Slab.next r.st 0x1000 = 0x1000 := by
    rw [hr]
    decide +kernel
  refine ⟨r, hrun, ?_⟩
  rintro ⟨⟨l, hchain, hdistinct, -⟩, -⟩
  rw [hhead] at hchain
  cases l with
  | nil => exact absurd (chain_nil.mp hchain) (by decide)
  | cons x l =>
    obtain ⟨rfl, -, hrest⟩ := hchain
    rw [hnext] at hrest
    cases l with
    | nil => exact absurd (chain_nil.mp hrest) (by decide)
    | cons y l =>
      obtain ⟨rfl, -⟩ := hrest
      exact (List.nodup_cons.mp hdistinct).1 List.mem_cons_self

end DzOS.Proofs.Mem
