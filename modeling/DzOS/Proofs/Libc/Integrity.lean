import DzOS.Proofs.Libc.Session

/-!
# `DzOS.Proofs.Libc.Integrity`: the heap between the calls

`Intact` is what a process relies on: the free list is one circular list in ascending order whose
blocks do not touch each other, the free blocks and the blocks of the process do not overlap and
have together exactly the bytes that came from `sbrk`, and `malloc` and `free` end.

`malloc`, `calloc` and `free` keep the heap intact. `realloc` keeps it only when it returns the same
block or frees it: when it returns another block, it does not free the old one, whose bytes then
belong to no block. So the heap is intact throughout a run if and only if no `realloc` of the run
moves a block (`heap_intact_iff`).
-/

set_option autoImplicit false

namespace DzOS.Proofs.Libc

open DzOS.Lib DzOS.Libc Function

variable {size : ℕ}

/-! ### The property -/

/-- The bytes of ranges. -/
def bytesOf (ranges : List (ℕ × ℕ)) : Set ℕ := {i | ∃ r ∈ ranges, r.1 ≤ i ∧ i < r.2}

/-- The list from `freep` is one circular list of `base` and the free blocks in ascending order with
one wrap. Free blocks do not touch each other, and the free and the live blocks do not overlap and
have exactly the bytes from `sbrk`. -/
structure Tidy (k : System) (s : Session) (free : Finset ℕ) : Prop where
  reached : ∀ x, (∃ j, s.heap.ptr^[j] s.heap.freep = x) ↔ x ∈ insert k.base free
  circular : Circular (insert k.base free) s.heap.ptr
  wrap : ∃! x, x ∈ insert k.base free ∧ s.heap.ptr x ≤ x
  base : s.heap.size k.base = 0
  gaps : ∀ x ∈ free, ∀ y ∈ free, x + 16 * s.heap.size x ≠ y
  pos : ∀ x ∈ free ∪ usedOf s.live, 0 < s.heap.size x
  distinct : (s.live.map Block.header).Nodup
  disjoint : Disjoint free (usedOf s.live)
  apart : ∀ x ∈ free ∪ usedOf s.live, ∀ y ∈ free ∪ usedOf s.live, x < y →
    x + 16 * s.heap.size x ≤ y
  bytes : spans s.heap.size (free ∪ usedOf s.live) = bytesOf s.obtained

/-- The heap is intact. Before the first request there is no list, no block and no memory. -/
structure Intact (k : System) (s : Session) : Prop where
  list : (s.heap.freep = 0 ∧ s.live = [] ∧ s.obtained = []) ∨ ∃ free, Tidy k s free
  mallocEnds : ∀ grant nbytes, nbytes < 2 ^ 32 →
    ∃ r, DzOS.Libc.malloc (answer k grant) s.heap nbytes = .ok r
  freeEnds : ∀ b ∈ s.live, ∃ h, DzOS.Libc.free s.heap b.addr = .ok h

/-- The sizes of the requests are below `2 ^ 32`. -/
def Event.Bounded : Event → Prop
  | .malloc _ nbytes => nbytes < 2 ^ 32
  | .calloc _ nmemb size => nmemb * size < 2 ^ 32
  | .realloc _ _ size => size < 2 ^ 32
  | _ => True

/-- A `realloc` of a block frees it or asks for the units in its header. -/
def KeepsBlock (s : Session) : Event → Prop
  | .realloc _ (some b) size => size = 0 ∨ size = s.heap.size b.header
  | _ => True

/-! ### The invariant -/

/-- The invariant of the runs where no block is moved. -/
structure Orderly (k : System) (s : Session) : Prop where
  heap : (s.heap.freep = 0 ∧ s.live = [] ∧ s.obtained = [] ∧ k.initial ≤ s.heap.brk ∧
      s.heap.brk < HEAP_MAX) ∨
    ∃ free, HeapOk k s.heap free (usedOf s.live) ∧
      Covers s.heap free (usedOf s.live) (bytesOf s.obtained)
  size : ∀ b ∈ s.live, s.heap.size b.header = nunits b.bytes
  bytes : ∀ b ∈ s.live, b.bytes < 2 ^ 32
  distinct : (s.live.map Block.header).Nodup

variable {k : System} {h h' : Heap} {a n : ℕ} {free free' used : Finset ℕ} {s s' : Session}
  {b : Block} {grant : Bool} {mem : Bytes}

theorem bytesOf_nil : bytesOf [] = ∅ := by
  ext i
  simp [bytesOf]

theorem bytesOf_cons (r : ℕ × ℕ) (ranges : List (ℕ × ℕ)) :
    bytesOf (r :: ranges) = Set.Ico r.1 r.2 ∪ bytesOf ranges := by
  ext i
  simp [bytesOf, or_and_right, exists_or]

/-- The list behind the start of `malloc`. -/
theorem Orderly.list (hs : Orderly k s) : ∃ free,
    HeapOk k (initList k s.heap) free (usedOf s.live) ∧
    Covers (initList k s.heap) free (usedOf s.live) (bytesOf s.obtained) ∧
    Keeps (usedOf s.live) s.heap (initList k s.heap) := by
  rcases hs.heap with ⟨hfreep, hlive, hobtained, hlow, hhigh⟩ | ⟨free, hok, hcovers⟩
  · refine ⟨∅, ?_, ⟨fun x hx => absurd hx (Finset.notMem_empty x), ?_⟩, ⟨?_, ?_⟩⟩
    · rw [hlive, usedOf_nil]
      exact initList_first hfreep hlow hhigh
    · rw [hlive, hobtained, usedOf_nil, bytesOf_nil]
      ext i
      simp [mem_spans]
    · intro x hx
      rw [hlive, usedOf_nil] at hx
      exact absurd hx (Finset.notMem_empty x)
    · intro x hx
      rw [hlive, usedOf_nil] at hx
      exact absurd hx (Finset.notMem_empty x)
  · rw [hok.initList]
    exact ⟨free, hok, hcovers, Keeps.refl _ _⟩

/-- Where a block is live, the list is made. -/
theorem Orderly.heapOk (hs : Orderly k s) (hb : b ∈ s.live) :
    ∃ free, HeapOk k s.heap free (usedOf s.live) ∧
      Covers s.heap free (usedOf s.live) (bytesOf s.obtained) := by
  rcases hs.heap with ⟨-, hlive, -⟩ | hok
  · rw [hlive] at hb
    exact absurd hb List.not_mem_nil
  · exact hok

/-- The invariant of the runs of `realloc`. -/
theorem Orderly.inv (hs : Orderly k s) : Inv k ⟨s.heap, s.live⟩ := by
  refine ⟨?_, hs.size, fun b hb => ?_⟩
  · rcases hs.heap with ⟨hfreep, hlive, -, hlow, hhigh⟩ | ⟨free, hok, -⟩
    · refine .inl ⟨hfreep, ?_, hlow, hhigh⟩
      dsimp only
      rw [hlive, usedOf_nil]
    · exact .inr ⟨free, hok⟩
  · have hbytes := hs.bytes b hb
    have hlt : b.bytes + 31 < ADDRESS_END := by
      unfold ADDRESS_END
      omega
    exact ⟨Nat.lt_of_add_right_lt hlt, (nunits_eq hlt).2⟩

theorem orderly_newSession (k : System) (mem : Bytes) : Orderly k (newSession k mem) := by
  refine ⟨.inl ⟨rfl, rfl, rfl, Nat.le_refl _, k.initial_lt⟩, ?_, ?_, List.nodup_nil⟩
  · exact fun b hb => absurd hb List.not_mem_nil
  · exact fun b hb => absurd hb List.not_mem_nil

/-! ### The calls -/

/-- A new block. -/
theorem Orderly.block (hs : Orderly k s) (hn : n < 2 ^ 32) (hnew : a ∉ usedOf s.live)
    (hok : HeapOk k h free (insert a (usedOf s.live))) (hsize : h.size a = nunits n)
    (hkeeps : Keeps (usedOf s.live) s.heap h)
    (hcovers : Covers h free (insert a (usedOf s.live))
      (bytesOf (s.receive (a + 16, h) n).obtained)) : Orderly k (s.receive (a + 16, h) n) := by
  have hused : usedOf (s.receive (a + 16, h) n).live = insert a (usedOf s.live) := usedOf_cons _ _
  refine ⟨.inr ⟨free, ?_, ?_⟩, fun b hb => ?_, fun b hb => ?_, ?_⟩
  · rw [hused]
    exact hok
  · rw [hused]
    exact hcovers
  · rcases List.mem_cons.mp hb with rfl | hb
    · exact hsize
    · exact (hkeeps.size b.header (mem_usedOf hb)).trans (hs.size b hb)
  · rcases List.mem_cons.mp hb with rfl | hb
    · exact hn
    · exact hs.bytes b hb
  · refine List.nodup_cons.mpr ⟨fun hmem => hnew ?_, hs.distinct⟩
    exact List.mem_toFinset.mpr hmem

/-- The amount for a request below `2 ^ 32` bytes is positive. -/
theorem amount_pos (hn : n < 2 ^ 32) : 0 < amount (coreUnits (nunits n)) := by
  have hunits : nunits n < 2 ^ 29 := by
    unfold nunits ADDRESS_END
    omega
  have hcore : coreUnits (nunits n) < 2 ^ 29 ∧ 0 < coreUnits (nunits n) := by
    unfold coreUnits
    split
    · omega
    · omega
  rw [amount, Int.bmod_def]
  unfold ADDRESS_END
  split
  · omega
  · omega

/-- With its answers, `sbrk` does not stop `morecore` for a positive amount. -/
theorem morecore_answer {nu : ℕ} (hok : HeapOk (answer k grant) h free used) (hmax : nu ≤ 2 ^ 60)
    (hpos : 0 < amount (coreUnits nu)) : ∃ r, morecore (answer k grant) h nu = .ok r := by
  rcases morecore_cases hok hmax with
    ⟨e, -, -, hstop⟩ | ⟨hmore, -⟩ | ⟨_, _, hmore, -⟩ | ⟨-, _, _, hmore, -⟩
  · rcases hstop with hnone | ⟨hneg, -⟩
    · exfalso
      have hhigh := hok.high
      unfold answer at hnone
      dsimp only at hnone
      rw [if_pos hhigh] at hnone
      split at hnone
      · cases hnone
      · cases hnone
    · omega
  · exact ⟨_, hmore⟩
  · exact ⟨_, hmore⟩
  · exact ⟨_, hmore⟩

/-- `malloc` ends and keeps the invariant. -/
theorem orderly_malloc (hs : Orderly k s) (hn : n < 2 ^ 32) (grant : Bool) :
    ∃ r, DzOS.Libc.malloc (answer k grant) s.heap n = .ok r ∧ (r.1 ≠ 0 → 16 ≤ r.1) ∧
      Orderly k (s.receive r n) := by
  obtain ⟨free, hok, hcovers, hkeeps⟩ := hs.list
  have hinit : initList (answer k grant) s.heap = initList k s.heap := rfl
  have hbrk : (initList k s.heap).brk = s.heap.brk := initList_brk
  have hserves := malloc_serves (hinit ▸ hok.answer grant) n
  rw [hinit] at hserves
  generalize DzOS.Libc.malloc (answer k grant) s.heap n = r at hserves
  cases hserves with
  | fits _ htaken =>
    refine ⟨_, rfl, fun _ => Nat.le_add_left 16 _, hs.block hn htaken.new htaken.ok.of_answer
      htaken.size (hkeeps.trans htaken.keeps) ?_⟩
    rw [Session.receive]
    dsimp only
    rw [if_pos (htaken.brk.trans hbrk)]
    exact htaken.covers _ hcovers
  | stop _ hmore =>
    obtain ⟨r, hr⟩ := morecore_answer (hok.answer grant) (nunits_bounds n).2 (amount_pos hn)
    cases hmore.symm.trans hr
  | none =>
    refine ⟨_, rfl, fun hne => absurd rfl hne, .inr ⟨free, hok, ?_⟩, fun b hb => ?_, hs.bytes,
      hs.distinct⟩
    · rw [Session.receive]
      dsimp only
      rw [if_pos hbrk]
      exact hcovers
    · exact (hkeeps.size b.header (mem_usedOf hb)).trans (hs.size b hb)
  | grows _ _ hgrown htaken =>
    refine ⟨_, rfl, fun _ => Nat.le_add_left 16 _, hs.block hn htaken.new htaken.ok.of_answer
      htaken.size (hkeeps.trans (hgrown.keeps.trans htaken.keeps)) ?_⟩
    have hcore := le_coreUnits (nunits n)
    have hpos := (nunits_bounds n).1
    have hend := htaken.brk.trans hgrown.brk
    rw [hbrk] at hend
    rw [Session.receive]
    dsimp only
    rw [if_neg (by omega), bytesOf_cons, hend]
    have hbytes := hgrown.covers _ hcovers
    rw [hbrk] at hbytes
    exact htaken.covers _ hbytes
  | wraps hunits _ _ =>
    exact absurd hunits (nunits_eq (by unfold ADDRESS_END; omega)).2.ne

/-- A store into the contents of a live block keeps the invariant. -/
theorem Orderly.write (hs : Orderly k s) (hb : b ∈ s.live) {mem : Bytes}
    (hmem : ∀ i, i < b.addr ∨ b.header + 16 * nunits b.bytes ≤ i → mem i = s.heap.mem i) :
    Orderly k { s with heap.mem := mem } := by
  obtain ⟨free, hok, hcovers⟩ := hs.heapOk hb
  have hout : ∀ i, i < b.header + 16 ∨ b.header + 16 * s.heap.size b.header ≤ i →
      mem i = s.heap.mem i := by
    rw [hs.size b hb]
    exact hmem
  have hheader := hok.headers_of_write (mem_usedOf hb) mem hout
  obtain ⟨hok', hsize⟩ := hok.write (mem_usedOf hb) mem hout
  have hblock : ∀ a ∈ free ∪ usedOf s.live,
      Heap.size { s.heap with mem := mem } a = s.heap.size a :=
    fun a ha => (hheader a (Finset.mem_insert_of_mem ha)).2
  refine ⟨.inr ⟨free, hok', fun a ha => ?_, ?_⟩, fun d hd => ?_, hs.bytes, hs.distinct⟩
  · have hnode := hheader a (mem_headers_of_free (Finset.mem_insert_of_mem ha))
    dsimp only
    rw [hnode.1, hnode.2]
    exact hcovers.spaced a ha
  · rw [← hcovers.bytes]
    exact spans_congr hblock
  · rw [← hs.size d hd]
    exact hsize d.header (mem_usedOf hd)

/-- `calloc` keeps the invariant. -/
theorem orderly_calloc {nmemb : ℕ} {r : ℕ × Heap} (hs : Orderly k s) (hn : nmemb * size < 2 ^ 32)
    (hrun : DzOS.Libc.calloc (answer k grant) s.heap nmemb size = .ok r) :
    Orderly k (s.receive r (nmemb * size % ADDRESS_END)) := by
  have hcut : nmemb * size % ADDRESS_END = nmemb * size :=
    Nat.mod_eq_of_lt (hn.trans (by unfold ADDRESS_END; norm_num))
  unfold DzOS.Libc.calloc at hrun
  dsimp only at hrun
  rw [hcut] at hrun ⊢
  generalize nmemb * size = n at hn hrun ⊢
  obtain ⟨⟨data, h⟩, hmalloc, hbehind, horderly⟩ := orderly_malloc hs hn grant
  rw [bind_ok hmalloc] at hrun
  dsimp only at hrun
  by_cases hnull : data = 0
  · rw [if_pos hnull] at hrun
    cases hrun
    rw [hnull] at horderly
    exact horderly
  · rw [if_neg hnull] at hrun
    obtain ⟨h₂, hclear, hret⟩ := bind_eq_ok.mp hrun
    cases hret
    unfold clear at hclear
    split at hclear
    · cases hclear
    · cases hclear
      have hlive : ⟨data - 16, n⟩ ∈ (s.receive (data, h) n).live := by
        unfold Session.receive
        dsimp only
        rw [if_neg hnull]
        exact List.mem_cons_self
      have hroom := le_nunits (n := n) (by unfold ADDRESS_END; omega)
      have hpos := (nunits_bounds n).1
      refine horderly.write hlive fun i hi => Bytes.fill_of_apart ?_
      have hheader : 16 ≤ data := hbehind hnull
      unfold Block.addr at hi
      dsimp only at hi
      omega

/-- `free` of a live block ends and keeps the invariant. -/
theorem orderly_free (hs : Orderly k s) (hb : b ∈ s.live) :
    ∃ h, DzOS.Libc.free s.heap b.addr = .ok h ∧ h.brk = s.heap.brk ∧
      Orderly k { s.without b with heap := h } := by
  obtain ⟨free, hok, hcovers⟩ := hs.heapOk hb
  obtain ⟨h', free', hrun, hfreed, hcovers'⟩ := free_covers hok (mem_usedOf hb)
  have hused : usedOf (s.without b).live = (usedOf s.live).erase b.header := by
    ext x
    simp only [Session.without, usedOf, List.mem_toFinset, List.mem_map, List.mem_filter,
      Finset.mem_erase, decide_eq_true_eq]
    grind
  refine ⟨h', hrun, hfreed.brk, .inr ⟨free', ?_, ?_⟩, fun d hd => ?_, fun d hd => ?_, ?_⟩
  · exact hused ▸ hfreed.ok
  · exact hused ▸ hcovers' _ hcovers
  · rw [← hs.size d (List.mem_of_mem_filter hd)]
    exact hfreed.size_used _ (hused ▸ mem_usedOf hd)
  · exact hs.bytes d (List.mem_of_mem_filter hd)
  · exact hs.distinct.sublist (List.filter_sublist.map _)

/-- A move of the end of the heap keeps the invariant. -/
theorem orderly_gap (hs : Orderly k s) (hn : s.heap.brk + n < HEAP_MAX) :
    Orderly k { s with heap.brk := s.heap.brk + n } := by
  refine ⟨?_, hs.size, hs.bytes, hs.distinct⟩
  rcases hs.heap with ⟨hfreep, hlive, hobtained, hlow, -⟩ | ⟨free, hok, hcovers⟩
  · exact .inl ⟨hfreep, hlive, hobtained, Nat.le_add_right_of_le hlow, hn⟩
  · exact .inr ⟨free, hok.gap hn, hcovers.spaced, hcovers.bytes⟩

/-- `realloc` of a block to 0 frees it. -/
theorem realloc_zero {ptr : ℕ} (hptr : ptr ≠ 0) (hfree : DzOS.Libc.free h ptr = .ok h') :
    DzOS.Libc.realloc k h ptr 0 = .ok (0, h') := by
  rw [DzOS.Libc.realloc, if_neg hptr, if_pos rfl]
  exact bind_ok hfree

/-- `realloc` that frees the block or asks for the units in its header keeps the invariant. -/
theorem orderly_realloc (hs : Orderly k s) (hb : b ∈ s.live)
    (hkeeps : size = 0 ∨ size = s.heap.size b.header)
    (hevent : event k s (.realloc grant (some b) size) = some s') : Orderly k s' := by
  obtain ⟨r, hr, rfl⟩ := Option.map_eq_some_iff.mp (Option.ite_none_right_eq_some.mp hevent).2
  have hrun := eq_ok_of_toOption hr
  rcases hkeeps with rfl | hsize
  · obtain ⟨h, hfree, hbrk, horderly⟩ := orderly_free hs hb
    rw [realloc_zero b.addr_ne_zero hfree] at hrun
    cases hrun
    rw [if_neg (Ne.symm b.addr_ne_zero), Session.receive]
    dsimp only
    have hsame : h.brk = (s.without b).heap.brk := hbrk
    rw [if_pos rfl, if_pos hsame]
    exact horderly
  · rw [hs.size b hb] at hsize
    rw [realloc_same (hs.inv.answer grant) hb hsize] at hrun
    cases hrun
    rw [if_pos rfl]
    exact hs

/-- An event keeps the invariant, unless it moves a block. -/
theorem orderly_event {e : Event} (hs : Orderly k s) (hbounded : e.Bounded)
    (hkeeps : KeepsBlock s e) (hevent : event k s e = some s') : Orderly k s' := by
  cases e with
  | malloc grant nbytes =>
    obtain ⟨r, hr, rfl⟩ := Option.map_eq_some_iff.mp hevent
    obtain ⟨r', hrun, -, horderly⟩ := orderly_malloc hs hbounded grant
    cases (eq_ok_of_toOption hr).symm.trans hrun
    exact horderly
  | calloc grant nmemb size =>
    obtain ⟨r, hr, rfl⟩ := Option.map_eq_some_iff.mp hevent
    exact orderly_calloc hs hbounded (eq_ok_of_toOption hr)
  | realloc grant block size =>
    cases block with
    | none =>
      -- `realloc(NULL, size)` is `malloc(size)`.
      obtain ⟨r, hr, rfl⟩ := Option.map_eq_some_iff.mp hevent
      obtain ⟨r', hrun, -, horderly⟩ := orderly_malloc hs hbounded grant
      cases (eq_ok_of_toOption hr).symm.trans ((if_pos rfl).trans hrun)
      exact horderly
    | some b =>
      by_cases hb : b ∈ s.live
      · exact orderly_realloc hs hb hkeeps hevent
      · rw [event, if_neg hb] at hevent
        cases hevent
  | free b =>
    obtain ⟨hb, hsome⟩ := Option.ite_none_right_eq_some.mp hevent
    obtain ⟨h, hh, rfl⟩ := Option.map_eq_some_iff.mp hsome
    obtain ⟨h', hrun, -, horderly⟩ := orderly_free hs hb
    cases (eq_ok_of_toOption hh).symm.trans hrun
    exact horderly
  | store b i c =>
    obtain ⟨hb, ⟨⟩⟩ := Option.ite_none_right_eq_some.mp hevent
    have hpos := (nunits_bounds b.bytes).1
    refine hs.write hb.1 fun j hj => if_neg ?_
    unfold Block.addr at hj ⊢
    omega
  | gap n =>
    obtain ⟨hn, ⟨⟩⟩ := Option.ite_none_right_eq_some.mp hevent
    exact orderly_gap hs hn

/-! ### When the heap is intact -/

/-- The invariant implies the property. -/
theorem Orderly.intact (hs : Orderly k s) : Intact k s := by
  refine ⟨?_, fun grant nbytes hn => ?_, fun b hb => ?_⟩
  · rcases hs.heap with ⟨hfreep, hlive, hobtained, -, -⟩ | ⟨free, hok, hcovers⟩
    · exact .inl ⟨hfreep, hlive, hobtained⟩
    · exact .inr ⟨free, {
        reached := fun x => (hok.list.circular.mem_iff_reach hok.start).symm
        circular := hok.list.circular
        wrap := hok.list.circular.existsUnique_wrap ⟨_, hok.start⟩
        base := hok.list.base
        gaps := fun x hx y hy => hcovers.spaced.apart hok.list hx hy
        pos := fun x hx => (hok.list.placed x hx).2.1
        distinct := hs.distinct
        disjoint := hok.list.disjoint
        apart := hok.list.apart
        bytes := hcovers.bytes }⟩
  · obtain ⟨r, hrun, -⟩ := orderly_malloc hs hn grant
    exact ⟨r, hrun⟩
  · obtain ⟨h, hrun, -⟩ := orderly_free hs hb
    exact ⟨h, hrun⟩

/-- The first byte of a used block belongs to this block only. -/
theorem ListOk.not_mem_spans {ptr size : ℕ → ℕ} {brk : ℕ} {blocks : Finset ℕ}
    (hok : ListOk k ptr size brk free used) (ha : a ∈ used) (hsub : blocks ⊆ free ∪ used)
    (hnot : a ∉ blocks) : a ∉ spans size blocks := by
  rintro ⟨c, hc, hlow, hhigh⟩
  have hne : c ≠ a := fun heq => hnot (heq ▸ hc)
  have := hok.apart c (hsub hc) a (Finset.mem_union_right free ha) (by omega)
  omega

/-- The free blocks of a tidy heap are those of the invariant. -/
theorem Tidy.free_eq (htidy : Tidy k s free) (hok : HeapOk k s.heap free' used) : free = free' := by
  have hnodes : insert k.base free = insert k.base free' := by
    ext x
    rw [← htidy.reached x, hok.list.circular.mem_iff_reach hok.start]
  ext x
  constructor
  · intro hx
    have hmem : x ∈ insert k.base free' := hnodes ▸ Finset.mem_insert_of_mem hx
    exact hok.list.mem_free hmem (htidy.pos x (Finset.mem_union_left _ hx))
  · intro hx
    have hmem : x ∈ insert k.base free := hnodes ▸ Finset.mem_insert_of_mem hx
    refine Finset.mem_of_mem_insert_of_ne hmem ?_
    have := hok.list.base_lt (Finset.mem_union_left used hx)
    omega

/-- The memory from `sbrk` is not lost by a request. -/
theorem bytesOf_receive (s : Session) (r : ℕ × Heap) (n : ℕ) :
    bytesOf s.obtained ⊆ bytesOf (s.receive r n).obtained := by
  unfold Session.receive
  dsimp only
  split
  · exact Set.Subset.refl _
  · rw [bytesOf_cons]
    exact Set.subset_union_right

/-- When the process gets a new block and does not use an old one any more, but the old one is not
freed, the bytes of the old one belong to no block. -/
theorem not_intact_of_lost (hs : Orderly k s) (hb : b ∈ s.live) (hnew : a ∉ usedOf s.live)
    (hok : HeapOk k h free (insert a (usedOf s.live))) (n : ℕ) :
    ¬ Intact k ((s.without b).receive (a + 16, h) n) := by
  have hused := mem_usedOf hb
  rintro ⟨hlist, -⟩
  rcases hlist with ⟨hfreep, -⟩ | ⟨free₂, htidy⟩
  · exact hok.freep_ne_zero hfreep
  obtain rfl := htidy.free_eq hok
  -- The first byte came from `sbrk` when the block was made.
  have hbyte : b.header ∈ bytesOf s.obtained := by
    obtain ⟨old, hold, hcovers⟩ := hs.heapOk hb
    have hpos := (hold.list.placed b.header (Finset.mem_union_right old hused)).2.1
    rw [← hcovers.bytes]
    exact ⟨b.header, Finset.mem_union_right old hused, Nat.le_refl _, by omega⟩
  have hobtained := bytesOf_receive (s.without b) (a + 16, h) n hbyte
  rw [← htidy.bytes] at hobtained
  -- Its block is neither free nor live.
  have hlive : usedOf ((s.without b).receive (a + 16, h) n).live =
      insert a (usedOf (s.without b).live) := usedOf_cons _ _
  have hothers : usedOf (s.without b).live ⊆ usedOf s.live := by
    intro x hx
    obtain ⟨d, hd, rfl⟩ := List.mem_map.mp (List.mem_toFinset.mp hx)
    exact mem_usedOf (List.mem_of_mem_filter hd)
  refine hok.list.not_mem_spans (Finset.mem_insert_of_mem hused) ?_ ?_ hobtained
  · rw [hlive]
    exact Finset.union_subset_union_right (Finset.insert_subset_insert a hothers)
  · rw [hlive, Finset.mem_union, Finset.mem_insert]
    rintro (hfree | heq | hmem)
    · exact Finset.disjoint_left.mp hok.list.disjoint hfree (Finset.mem_insert_of_mem hused)
    · exact hnew (heq ▸ hused)
    · obtain ⟨d, hd, heq⟩ := List.mem_map.mp (List.mem_toFinset.mp hmem)
      exact of_decide_eq_true (List.mem_filter.mp hd).2 heq

/-- `realloc` that moves a block does not free it. -/
theorem not_intact_of_moved (hs : Orderly k s) (hbound : size < 2 ^ 32)
    (hmoves : ¬ KeepsBlock s (.realloc grant (some b) size))
    (hevent : event k s (.realloc grant (some b) size) = some s') : ¬ Intact k s' := by
  obtain ⟨hzero, hsize⟩ := not_or.mp hmoves
  obtain ⟨hb, hsome⟩ := Option.ite_none_right_eq_some.mp hevent
  obtain ⟨⟨q, h'⟩, hr, rfl⟩ := Option.map_eq_some_iff.mp hsome
  rw [hs.size b hb] at hsize
  obtain ⟨a, h, n, free, rfl, rfl, hmoved⟩ := realloc_moves (hs.inv.answer grant) hb
    (Nat.pos_of_ne_zero hzero) hsize (nunits_eq (by unfold ADDRESS_END; omega)).2
    (eq_ok_of_toOption hr)
  have hne : a + 16 ≠ b.addr := by
    intro heq
    have hab : a = b.header := Nat.add_right_cancel heq
    exact hmoved.new (hab ▸ mem_usedOf hb)
  have hroom := le_nunits (n := size) (by unfold ADDRESS_END; omega)
  have hunits := (nunits_bounds size).1
  have hle := hmoved.le
  obtain ⟨hok, -⟩ := hmoved.ok.write (Finset.mem_insert_self a _)
    (copyBytes h.mem (a + 16) b.addr n) fun i hi => copyBytes_of_apart (by
      rw [hmoved.size] at hi
      omega)
  dsimp only
  rw [if_neg hne]
  exact not_intact_of_lost hs hb hmoved.new hok.of_answer size

/-- In a run of requests below `2 ^ 32` bytes, with any answers of `sbrk`, the heap is intact in
every state if and only if each `realloc` of a block frees it or asks for the number of units in its
header. -/
theorem heap_intact_iff {events : List Event} (hbounded : ∀ e ∈ events, e.Bounded)
    (hrun : runSteps (event k) (newSession k mem) events = some s') :
    Throughout (event k) (newSession k mem) events (Intact k) ↔
      EachCall (event k) (newSession k mem) events KeepsBlock := by
  refine throughout_iff (I := Orderly k) (fun s hs => hs.intact)
    (fun s e t hs (hvalid : e.Bounded) hstep hok => orderly_event hs hvalid hok hstep) ?_
    (orderly_newSession k mem) ((eachCall_const hrun).mpr hbounded) hrun
  intro s e t hs hvalid hstep hmoves
  cases e with
  | realloc grant block size =>
    cases block with
    | none => exact absurd trivial hmoves
    | some b => exact not_intact_of_moved hs hvalid hmoves hstep
  | _ => exact absurd trivial hmoves

/-- Whether a `realloc` keeps its block can be computed. -/
instance decidableKeepsBlock (s : Session) : (e : Event) → Decidable (KeepsBlock s e)
  | .realloc _ (some b) size => inferInstanceAs (Decidable (size = 0 ∨ size = s.heap.size b.header))
  | .realloc _ none _ => isTrue trivial
  | .malloc _ _ => isTrue trivial
  | .calloc _ _ _ => isTrue trivial
  | .free _ => isTrue trivial
  | .store _ _ _ => isTrue trivial
  | .gap _ => isTrue trivial

/-- A process that gets a block of 5 units, asks for 5 bytes with `realloc`, and frees the block. -/
theorem heap_intact_iff_five : Throughout (event smallSystem) (newSession smallSystem Bytes.zero)
    [.malloc true 64, .realloc true (some ⟨69552, 64⟩) 5, .free ⟨69552, 64⟩]
    (Intact smallSystem) :=
  (heap_intact_iff (by simp [Event.Bounded]) (runSteps_getD (by decide))).mpr (by decide)

/-- A process with a block of 64 bytes. -/
def oneBlockSession : Session :=
  (event smallSystem (newSession smallSystem Bytes.zero) (.malloc true 64)).getD
    (newSession smallSystem Bytes.zero)

/-- When it makes its block smaller, the old block is neither free nor live. -/
theorem heap_not_intact_shrinks : ∃ s', runSteps (event smallSystem)
    (newSession smallSystem Bytes.zero)
    [.malloc true 64, .realloc true (some ⟨69552, 64⟩) 32] = some s' ∧ ¬ Intact smallSystem s' := by
  have hfirst : event smallSystem (newSession smallSystem Bytes.zero) (.malloc true 64) =
      some oneBlockSession := by
    have hsome : (event smallSystem (newSession smallSystem Bytes.zero)
        (.malloc true 64)).isSome := by decide
    obtain ⟨t, ht⟩ := Option.isSome_iff_exists.mp hsome
    rw [oneBlockSession, ht, Option.getD_some]
  have horderly : Orderly smallSystem oneBlockSession :=
    orderly_event (e := .malloc true 64) (orderly_newSession _ _) (by simp [Event.Bounded]) trivial
      hfirst
  obtain ⟨s', hsecond⟩ : ∃ s', event smallSystem oneBlockSession
      (.realloc true (some ⟨69552, 64⟩) 32) = some s' := Option.isSome_iff_exists.mp (by decide)
  refine ⟨s', ?_, not_intact_of_moved horderly (by norm_num) (by decide) hsecond⟩
  rw [runSteps_cons hfirst, runSteps_cons hsecond]
  rfl

end DzOS.Proofs.Libc
