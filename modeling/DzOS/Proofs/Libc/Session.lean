import DzOS.Proofs.Libc.Realloc

/-!
# `DzOS.Proofs.Libc.Session`: a process with its blocks and its memory from `sbrk`

`Session` is the heap of a process with the blocks that it may use and the ranges that `malloc` got
from `sbrk`. Each request has its own answer of `sbrk`: there is memory or not. Between the requests
the end of the heap may move (`Event.gap`), so the ranges need not follow each other.

`realloc` is here as a process sees it: behind a call that returns another block, the old pointer is
not used again. The invariant of a run (`sound_run`) is about all blocks that are not freed. These
are the blocks of the process and those that `realloc` left behind.
-/

set_option autoImplicit false

namespace DzOS.Proofs.Libc

open DzOS.Lib DzOS.Libc Function

variable {b : Block} {r : ℕ × Heap}

/-! ### The answers of `sbrk` -/

/-- The system with one answer of `sbrk`: it returns a range of the requested length at the end of
the heap, or there is no memory. -/
def answer (k : System) (grant : Bool) : System where
  base := k.base
  initial := k.initial
  sbrk brk howMuch :=
    if grant ∧ 0 ≤ howMuch ∧ brk + howMuch.toNat < HEAP_MAX then some (brk, brk + howMuch.toNat)
    else if brk < HEAP_MAX then some (NO_MEMORY, brk)
    else none
  base_pos := k.base_pos
  base_below := k.base_below
  initial_page := k.initial_page
  initial_lt := k.initial_lt
  returns := by
    intro brk howMuch p brk' hcall
    split at hcall
    · cases hcall
      exact .inr rfl
    · split at hcall
      · cases hcall
        exact .inl ⟨rfl, rfl⟩
      · cases hcall
  grows := by
    intro brk howMuch brk' hcall hgrow
    split at hcall
    · rename_i hgrant
      cases hcall
      exact ⟨rfl, hgrant.2.2⟩
    · split at hcall
      · rename_i hlow
        have hbrk := congrArg Prod.fst (Option.some.inj hcall)
        unfold NO_MEMORY at hbrk
        unfold HEAP_MAX at hlow
        dsimp only at hbrk
        omega
      · cases hcall
  keeps := by
    intro brk brk' hcall
    split at hcall
    · cases hcall
      rfl
    · split at hcall
      · exact (congrArg Prod.snd (Option.some.inj hcall)).symm
      · cases hcall
  shrinks := by
    intro brk howMuch brk' hcall hshrink
    split at hcall
    · omega
    · split at hcall
      · rename_i hlow
        have hbrk := congrArg Prod.fst (Option.some.inj hcall)
        unfold NO_MEMORY at hbrk
        unfold HEAP_MAX at hlow
        dsimp only at hbrk
        omega
      · cases hcall

/-! ### Runs -/

/-- The heap, the blocks that the process may use, and the ranges that it got from `sbrk`, from the
first byte to the one behind the last. -/
structure Session where
  heap : Heap
  live : List Block
  obtained : List (ℕ × ℕ)

/-- The result of a request, and what it got from `sbrk`. -/
def Session.receive (s : Session) (r : ℕ × Heap) (nbytes : ℕ) : Session where
  heap := r.2
  live := if r.1 = 0 then s.live else ⟨r.1 - 16, nbytes⟩ :: s.live
  obtained := if r.2.brk = s.heap.brk then s.obtained else (s.heap.brk, r.2.brk) :: s.obtained

/-- The process does not use a block any more. -/
def Session.without (s : Session) (b : Block) : Session :=
  { s with live := s.live.filter (·.header ≠ b.header) }

/-- What happens to the heap of a process: its calls, with the answer of `sbrk`, its stores, and a
move of the end of the heap by somebody else. `realloc` of `none` is `realloc(NULL, size)`. -/
inductive Event where
  | malloc (grant : Bool) (nbytes : ℕ)
  | calloc (grant : Bool) (nmemb size : ℕ)
  | realloc (grant : Bool) (b : Option Block) (size : ℕ)
  | free (b : Block)
  | store (b : Block) (i : ℕ) (c : UInt8)
  | gap (n : ℕ)

/-- The state after an event, or `none` when the call does not return, or is not one of a correct
process: blocks are live, and a store is inside of its block. -/
def event (k : System) (s : Session) : Event → Option Session
  | .malloc grant nbytes =>
    (DzOS.Libc.malloc (answer k grant) s.heap nbytes).toOption.map fun r => s.receive r nbytes
  | .calloc grant nmemb size =>
    (DzOS.Libc.calloc (answer k grant) s.heap nmemb size).toOption.map fun r =>
      s.receive r (nmemb * size % ADDRESS_END)
  | .realloc grant none size =>
    (DzOS.Libc.realloc (answer k grant) s.heap 0 size).toOption.map fun r => s.receive r size
  | .realloc grant (some b) size =>
    if b ∈ s.live then
      (DzOS.Libc.realloc (answer k grant) s.heap b.addr size).toOption.map fun r =>
        if r.1 = b.addr then { s with heap := r.2 } else (s.without b).receive r size
    else none
  | .free b =>
    if b ∈ s.live then
      (DzOS.Libc.free s.heap b.addr).toOption.map fun h => { s.without b with heap := h }
    else none
  | .store b i c =>
    if b ∈ s.live ∧ i < 16 * (nunits b.bytes - 1) then
      some { s with heap.mem := s.heap.mem.set (b.addr + i) c }
    else none
  | .gap n =>
    if s.heap.brk + n < HEAP_MAX then some { s with heap.brk := s.heap.brk + n } else none

/-- A process before its first call. -/
def newSession (k : System) (mem : Bytes) : Session := ⟨⟨mem, 0, k.initial⟩, [], []⟩

variable {k : System} {h : Heap} {free used : Finset ℕ} {grant : Bool} {s s' : Session}
  {t : State} {n : ℕ} {mem : Bytes}

/-- The answers of `sbrk` are not a part of the invariants. -/
theorem HeapOk.of_answer (hok : HeapOk (answer k grant) h free used) : HeapOk k h free used :=
  ⟨⟨hok.list.circular, hok.list.base, hok.list.placed, hok.list.apart, hok.list.disjoint⟩,
    hok.start, hok.low, hok.high⟩

theorem HeapOk.answer (hok : HeapOk k h free used) (grant : Bool) :
    HeapOk (answer k grant) h free used :=
  ⟨⟨hok.list.circular, hok.list.base, hok.list.placed, hok.list.apart, hok.list.disjoint⟩,
    hok.start, hok.low, hok.high⟩

theorem Inv.of_answer (hinv : Inv (answer k grant) t) : Inv k t :=
  ⟨hinv.heap.imp id (Exists.imp fun _ hok => hok.of_answer), hinv.size, hinv.bytes⟩

theorem Inv.answer (hinv : Inv k t) (grant : Bool) : Inv (answer k grant) t :=
  ⟨hinv.heap.imp id (Exists.imp fun _ hok => hok.answer grant), hinv.size, hinv.bytes⟩

/-- A move of the end of the heap keeps the list. -/
theorem HeapOk.gap (hok : HeapOk k h free used) (hn : h.brk + n < HEAP_MAX) :
    HeapOk k { h with brk := h.brk + n } free used := by
  refine ⟨⟨hok.list.circular, hok.list.base, fun a ha => ?_, hok.list.apart, hok.list.disjoint⟩,
    hok.start, Nat.le_add_right_of_le hok.low, hn⟩
  obtain ⟨hlow, hpos, hend⟩ := hok.list.placed a ha
  exact ⟨hlow, hpos, Nat.le_add_right_of_le hend⟩

theorem usedOf_nil : usedOf [] = ∅ := rfl

theorem usedOf_cons (b : Block) (live : List Block) :
    usedOf (b :: live) = insert b.header (usedOf live) := List.toFinset_cons

/-! ### The invariant -/

/-- The invariant of the blocks that are not freed: those of the process, and those that `realloc`
left behind. -/
def Sound (k : System) (s : Session) : Prop := ∃ lost, Inv k ⟨s.heap, s.live ++ lost⟩

/-- The sizes are 64-bit values, and when a block is moved, neither the units of its new size nor
their amount for `sbrk` are cut. A request for `2 ^ 60` units, whose amount wraps to 0, gets no
memory. -/
def Event.Sized : Event → Prop
  | .malloc grant nbytes => nbytes < ADDRESS_END ∧ (grant = true → nunits nbytes < 2 ^ 60)
  | .calloc grant nmemb size => nmemb < ADDRESS_END ∧ size < ADDRESS_END ∧
      (grant = true → nunits (nmemb * size % ADDRESS_END) < 2 ^ 60)
  | .realloc grant none size => size < ADDRESS_END ∧ (grant = true → nunits size < 2 ^ 60)
  | .realloc _ (some _) size => size + 31 < ADDRESS_END
  | _ => True

/-- Without memory, or with fewer than `2 ^ 60` units, no request gets an address behind the heap.
-/
theorem backed_of_grant (hinv : HeapInv (answer k grant) h used)
    (hgrant : grant = true → nunits n < 2 ^ 60) : Backed (answer k grant) h n := by
  rintro heq ⟨q, h'⟩ hrun
  by_contra hnull
  obtain ⟨-, hcall⟩ := malloc_wraps hinv heq hrun hnull
  cases grant with
  | true => exact absurd heq (hgrant rfl).ne
  | false =>
    unfold DzOS.Proofs.Libc.answer at hcall
    dsimp only at hcall
    rw [if_neg (by simp)] at hcall
    split at hcall
    · rename_i hlow
      have hbrk := congrArg Prod.fst (Option.some.inj hcall)
      unfold NO_MEMORY at hbrk
      unfold HEAP_MAX at hlow
      dsimp only at hbrk
      omega
    · cases hcall

/-- The invariant depends on which blocks there are, not on their order. -/
theorem Inv.congr {live live' : List Block} (hinv : Inv k ⟨h, live⟩)
    (hmem : ∀ b, b ∈ live' ↔ b ∈ live) : Inv k ⟨h, live'⟩ := by
  have hused : usedOf live' = usedOf live := by
    ext x
    simp only [usedOf, List.mem_toFinset, List.mem_map, hmem]
  refine ⟨?_, fun b hb => hinv.size b ((hmem b).mp hb), fun b hb => hinv.bytes b ((hmem b).mp hb)⟩
  dsimp only
  rw [hused]
  exact hinv.heap

theorem sound_newSession (k : System) (mem : Bytes) : Sound k (newSession k mem) := by
  refine ⟨[], .inl ⟨rfl, rfl, Nat.le_refl _, k.initial_lt⟩, ?_, ?_⟩
  · exact fun b hb => absurd hb List.not_mem_nil
  · exact fun b hb => absurd hb List.not_mem_nil

/-- The blocks behind a request. -/
theorem receive_live (s : Session) (lost : List Block) (r : ℕ × Heap) (n : ℕ) :
    (s.receive r n).live ++ lost = (State.add ⟨s.heap, s.live ++ lost⟩ r n).live := by
  unfold Session.receive State.add
  dsimp only
  split
  · rfl
  · rfl

theorem sound_receive {lost : List Block} (hinv : Inv k (State.add ⟨s.heap, s.live ++ lost⟩ r n)) :
    Sound k (s.receive r n) := by
  refine ⟨lost, ?_⟩
  rw [receive_live]
  exact hinv

theorem sound_malloc (hs : Sound k s) (hn : n < ADDRESS_END ∧ (grant = true → nunits n < 2 ^ 60))
    (hrun : DzOS.Libc.malloc (answer k grant) s.heap n = .ok r) : Sound k (s.receive r n) := by
  obtain ⟨lost, hinv⟩ := hs
  have hinv' := hinv.answer grant
  have halloc := malloc_ok hinv'.heap n
  rw [hrun] at halloc
  have hbacked := backed_of_grant hinv'.heap hn.2
  exact sound_receive (hinv'.add hn.1 (fun heq => hbacked heq _ hrun) halloc).of_answer

theorem sound_free (hs : Sound k s) (hb : b ∈ s.live)
    (hrun : DzOS.Libc.free s.heap b.addr = .ok h) :
    Sound k { s.without b with heap := h } := by
  obtain ⟨lost, hinv⟩ := hs
  refine ⟨lost.filter (·.header ≠ b.header), ?_⟩
  have hfreed := inv_free hinv (List.mem_append_left lost hb) hrun
  rw [List.filter_append] at hfreed
  exact hfreed

/-- A `realloc` is a `malloc` and a `free`. -/
theorem sound_realloc {size : ℕ} (hs : Sound k s) (hsize : size + 31 < ADDRESS_END)
    (hevent : event k s (.realloc grant (some b) size) = some s') : Sound k s' := by
  obtain ⟨hb, hsome⟩ := Option.ite_none_right_eq_some.mp hevent
  obtain ⟨r, hr, rfl⟩ := Option.map_eq_some_iff.mp hsome
  have hrun := eq_ok_of_toOption hr
  by_cases hzero : size = 0
  · rw [hzero, DzOS.Libc.realloc, if_neg b.addr_ne_zero, if_pos rfl] at hrun
    obtain ⟨h, hfree, hret⟩ := bind_eq_ok.mp hrun
    cases hret
    rw [if_neg (Ne.symm b.addr_ne_zero)]
    exact sound_free hs hb hfree
  · obtain ⟨lost, hinv⟩ := hs
    have hmoved := (inv_realloc (hinv.answer grant) (List.mem_append_left lost hb)
      (Nat.pos_of_ne_zero hzero) hsize hrun).of_answer
    split
    · rename_i hsame
      rw [if_pos hsame] at hmoved
      exact ⟨lost, hmoved⟩
    · rename_i hother
      rw [if_neg hother] at hmoved
      -- The old block is one that the process does not use any more.
      refine ⟨s.live.filter (·.header = b.header) ++ lost, Inv.congr hmoved fun d => ?_⟩
      simp only [Session.receive, Session.without]
      split
      · simp only [List.mem_append, List.mem_filter, decide_eq_true_eq]
        grind
      · simp only [List.cons_append, List.mem_cons, List.mem_append, List.mem_filter,
          decide_eq_true_eq]
        grind

/-- An event keeps the invariant. -/
theorem sound_event {e : Event} (hs : Sound k s) (hsized : e.Sized)
    (hevent : event k s e = some s') : Sound k s' := by
  cases e with
  | malloc grant nbytes =>
    obtain ⟨r, hr, rfl⟩ := Option.map_eq_some_iff.mp hevent
    exact sound_malloc hs hsized (eq_ok_of_toOption hr)
  | calloc grant nmemb size =>
    obtain ⟨r, hr, rfl⟩ := Option.map_eq_some_iff.mp hevent
    obtain ⟨lost, hinv⟩ := hs
    have hinv' := hinv.answer grant
    exact sound_receive (inv_calloc hinv' (backed_of_grant hinv'.heap hsized.2.2)
      (eq_ok_of_toOption hr)).of_answer
  | realloc grant block size =>
    cases block with
    | none =>
      obtain ⟨r, hr, rfl⟩ := Option.map_eq_some_iff.mp hevent
      exact sound_malloc hs hsized ((if_pos rfl).symm.trans (eq_ok_of_toOption hr))
    | some b => exact sound_realloc hs hsized hevent
  | free b =>
    obtain ⟨hb, hsome⟩ := Option.ite_none_right_eq_some.mp hevent
    obtain ⟨h, hh, rfl⟩ := Option.map_eq_some_iff.mp hsome
    exact sound_free hs hb (eq_ok_of_toOption hh)
  | store b i c =>
    obtain ⟨hb, ⟨⟩⟩ := Option.ite_none_right_eq_some.mp hevent
    obtain ⟨lost, hinv⟩ := hs
    have hpos := (nunits_bounds b.bytes).1
    refine ⟨lost, hinv.write (List.mem_append_left lost hb.1) fun j hj => if_neg ?_⟩
    unfold Block.addr at hj ⊢
    omega
  | gap n =>
    obtain ⟨hn, ⟨⟩⟩ := Option.ite_none_right_eq_some.mp hevent
    obtain ⟨lost, hinv⟩ := hs
    refine ⟨lost, ?_, hinv.size, hinv.bytes⟩
    rcases hinv.heap with ⟨hfreep, hnone, hlow, -⟩ | ⟨free, hok⟩
    · exact .inl ⟨hfreep, hnone, Nat.le_add_right_of_le hlow, hn⟩
    · exact .inr ⟨free, hok.gap hn⟩

/-- The invariant holds in every state of a run. -/
theorem sound_run {events : List Event} (hs : Sound k s) (hsized : ∀ e ∈ events, e.Sized)
    (hrun : runSteps (event k) s events = some s') : Sound k s' := by
  induction events generalizing s with
  | nil =>
    cases hrun
    exact hs
  | cons e events ih =>
    obtain ⟨hfirst, hrest⟩ := List.forall_mem_cons.mp hsized
    obtain ⟨t, hevent, hrun'⟩ := runSteps_cons_some hrun
    exact ih (sound_event hs hfirst hevent) hrest hrun'

end DzOS.Proofs.Libc
