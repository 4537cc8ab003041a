import DzOS.Proofs.Libc.Session

/-!
# `DzOS.Proofs.Libc.Requests`: how much memory a request gets

A request is honoured when `malloc` returns 0, or an address with as many bytes as were asked for in
front of the next block. One that is too large for the arithmetic of `malloc` is honoured by 0 only.

`malloc` adds 15 to the number of bytes and 1 to the number of units, and `morecore` multiplies the
units by 16, all modulo `2 ^ 64`. So `malloc` honours every request `n` with `n + 31 < 2 ^ 64`. For
a larger one it takes too few units, or it returns an address behind the heap. Such a request is
honoured only if there is nothing for the units either (`requests_honoured_iff`). The same holds for
the product of `calloc`, which is cut before `malloc`.
-/

set_option autoImplicit false

namespace DzOS.Proofs.Libc

open DzOS.Lib DzOS.Libc Function

/-! ### The property -/

/-- The `n` bytes from `q`, with the header in front of them, do not reach into the block at `x`. -/
def Apart (h : Heap) (q n x : ℕ) : Prop := x + 16 * max 1 (h.size x) ≤ q - 16 ∨ q + n ≤ x

/-- There are `n` bytes from `q` which belong to no block of the process and no node of the free
list. -/
structure Room (k : System) (s : Session) (h : Heap) (q n : ℕ) : Prop where
  low : k.initial + 16 ≤ q
  high : q + n ≤ h.brk
  live : ∀ b ∈ s.live, Apart h q n b.header
  nodes : ∀ j, Apart h q n (h.ptr^[j] h.freep)

/-- `malloc` returns 0 or an address with room for the request. If the size with its header cannot
be represented, it returns 0. -/
def MallocHonoured (k : System) (s : Session) (grant : Bool) (nbytes : ℕ) : Prop :=
  ∃ q h, DzOS.Libc.malloc (answer k grant) s.heap nbytes = .ok (q, h) ∧
    (q ≠ 0 → Room k s h q nbytes) ∧ (ADDRESS_END ≤ nbytes + 31 → q = 0)

/-- The same for `calloc`, where the size is the product, and the bytes are 0. -/
def CallocHonoured (k : System) (s : Session) (grant : Bool) (nmemb size : ℕ) : Prop :=
  ∃ q h, DzOS.Libc.calloc (answer k grant) s.heap nmemb size = .ok (q, h) ∧
    (q ≠ 0 → Room k s h q (nmemb * size) ∧ ∀ i, i < nmemb * size → h.mem (q + i) = 0) ∧
    (ADDRESS_END ≤ nmemb * size + 31 → q = 0)

/-- No free block has the units that `malloc` takes for the request, and `sbrk` has no memory for
the amount that `morecore` asks for. -/
def Refused (k : System) (s : Session) (grant : Bool) (nbytes : ℕ) : Prop :=
  (s.heap.freep ≠ 0 → ∀ j, s.heap.size (s.heap.ptr^[j] s.heap.freep) < nunits nbytes) ∧
    (answer k grant).sbrk s.heap.brk (amount (coreUnits (nunits nbytes))) =
      some (NO_MEMORY, s.heap.brk)

variable {k : System} {h h' : Heap} {a n nu : ℕ} {free used : Finset ℕ} {s s' : Session}
  {grant : Bool} {mem : Bytes}

/-! ### Room -/

/-- A used block with enough units has room, where the other used blocks are those of the process.
-/
theorem HeapOk.room (hok : HeapOk k h free (insert a used)) (hnew : a ∉ used)
    (hlive : ∀ b ∈ s.live, b.header ∈ used) (hn : n ≤ 16 * (h.size a - 1)) :
    Room k s h (a + 16) n := by
  have hused : a ∈ free ∪ insert a used := Finset.mem_union_right _ (Finset.mem_insert_self a used)
  obtain ⟨hlow, hpos, hend⟩ := hok.list.placed a hused
  have hapart : ∀ x ∈ free ∪ insert a used, x ≠ a → Apart h (a + 16) n x := by
    intro x hx hne
    have hxpos := (hok.list.placed x hx).2.1
    unfold Apart
    rcases Nat.lt_or_gt_of_ne hne with hlt | hgt
    · have := hok.list.apart x hx a hused hlt
      omega
    · have := hok.list.apart a hused x hx hgt
      omega
  refine ⟨by omega, by omega, fun b hb => ?_, fun j => ?_⟩
  · have hb := hlive b hb
    refine hapart _ (Finset.mem_union_right _ (Finset.mem_insert_of_mem hb)) ?_
    rintro heq
    exact hnew (heq ▸ hb)
  · have hnode := (hok.list.circular.mem_iff_reach hok.start).mpr ⟨j, rfl⟩
    rcases Finset.mem_insert.mp hnode with hbase | hfree
    -- `base` is a header without a block in front of the heap.
    · have hbelow := k.base_below
      have hsize := hok.list.base
      unfold Apart
      rw [hbase, hsize]
      omega
    · refine hapart _ (Finset.mem_union_left _ hfree) ?_
      rintro heq
      rw [heq] at hfree
      exact Finset.disjoint_left.mp hok.list.disjoint hfree (Finset.mem_insert_self a used)

/-! ### When `malloc` returns 0 -/

/-- `sbrk` of these answers does not panic. -/
theorem sbrk_answer (k : System) (grant : Bool) {brk : ℕ} (hbrk : brk < HEAP_MAX)
    (howMuch : ℤ) :
    ((answer k grant).sbrk brk howMuch = some (brk, brk + howMuch.toNat) ∧ 0 ≤ howMuch) ∨
      (answer k grant).sbrk brk howMuch = some (NO_MEMORY, brk) := by
  unfold answer
  dsimp only
  rw [if_pos hbrk]
  split
  · rename_i hgrant
    exact .inl ⟨rfl, hgrant.2.1⟩
  · exact .inr rfl

theorem brk_ne_noMemory (hbrk : h.brk < HEAP_MAX) : h.brk ≠ NO_MEMORY := by
  unfold HEAP_MAX at hbrk
  unfold NO_MEMORY
  omega

/-- The free blocks are the nodes of the list, without `base`. -/
theorem HeapOk.small_iff (hok : HeapOk k h free used) (hn : 0 < n) :
    (∀ j, h.size (h.ptr^[j] h.freep) < n) ↔ ∀ x ∈ free, h.size x < n := by
  constructor
  · intro hall x hx
    obtain ⟨j, rfl⟩ :=
      (hok.list.circular.mem_iff_reach hok.start).mp (Finset.mem_insert_of_mem hx)
    exact hall j
  · intro hall j
    have hnode := (hok.list.circular.mem_iff_reach hok.start).mpr ⟨j, rfl⟩
    rcases Finset.mem_insert.mp hnode with hbase | hfree
    · rw [hbase, hok.list.base]
      exact hn
    · exact hall _ hfree

/-- A request is refused when no free block is large enough and there is no memory. The free blocks
are those behind the start of `malloc`. -/
theorem refused_iff (hinv : HeapInv k s.heap used) (grant : Bool) (n : ℕ) :
    ∃ free, HeapOk k (initList k s.heap) free used ∧ (Refused k s grant n ↔
      (∀ x ∈ free, (initList k s.heap).size x < nunits n) ∧
        (answer k grant).sbrk s.heap.brk (amount (coreUnits (nunits n))) =
          some (NO_MEMORY, s.heap.brk)) := by
  rcases hinv with ⟨hfreep, rfl, hlow, hhigh⟩ | ⟨free, hok⟩
  · refine ⟨∅, initList_first hfreep hlow hhigh, and_congr_left fun _ => ?_⟩
    exact iff_of_true (fun hne => absurd hfreep hne) fun x hx => absurd hx (Finset.notMem_empty x)
  · refine ⟨free, ?_, and_congr_left fun _ => ?_⟩
    · rw [hok.initList]
      exact hok
    · rw [hok.initList, ← hok.small_iff (nunits_bounds n).1]
      exact forall_prop_of_true hok.freep_ne_zero

/-- The amount of a request is 0 only if the size with its header cannot be represented. -/
theorem large_of_amount (hzero : amount (coreUnits (nunits n)) = 0) : ADDRESS_END ≤ n + 31 := by
  rw [amount, Int.bmod_def] at hzero
  unfold coreUnits nunits ADDRESS_END at *
  split at hzero
  · split at hzero
    · omega
    · omega
  · split at hzero
    · omega
    · omega

/-- What `malloc` does with a request: it refuses it, or it returns a new block with the units of
the request. When the amount is 0, it returns an address behind the heap, or the page of this
address is not there. -/
inductive Response (k : System) (s : Session) (grant : Bool) (n : ℕ) :
    Except Stop (ℕ × Heap) → Prop where
  | refused {h : Heap} (hrefused : Refused k s grant n) : Response k s grant n (.ok (0, h))
  | block {h : Heap} {a : ℕ} {free used : Finset ℕ} (hserved : ¬ Refused k s grant n)
      (hlive : ∀ b ∈ s.live, b.header ∈ used) (hnew : a ∉ used)
      (hok : HeapOk k h free (insert a used)) (hsize : h.size a = nunits n) :
      Response k s grant n (.ok (a + 16, h))
  | wraps {h : Heap} {q : ℕ} (hserved : ¬ Refused k s grant n) (hlarge : ADDRESS_END ≤ n + 31)
      (hnull : q ≠ 0) (hbehind : h.brk ≤ q) (hhigh : h.brk < HEAP_MAX) :
      Response k s grant n (.ok (q, h))
  | stop {e : Stop} (hserved : ¬ Refused k s grant n) (hlarge : ADDRESS_END ≤ n + 31) :
      Response k s grant n (.error e)

/-- Every request has one of the four responses. -/
theorem malloc_response (hs : Sound k s) (grant : Bool) (n : ℕ) :
    Response k s grant n (DzOS.Libc.malloc (answer k grant) s.heap n) := by
  obtain ⟨lost, hinv⟩ := hs
  obtain ⟨free, hok, hiff⟩ := refused_iff hinv.heap grant n
  have hlive : ∀ b ∈ s.live, b.header ∈ usedOf (s.live ++ lost) := fun b hb =>
    mem_usedOf (List.mem_append_left lost hb)
  have hmax := (nunits_bounds n).2
  have hbrk : (initList k s.heap).brk = s.heap.brk := initList_brk
  have hhigh := hok.high
  have hne := brk_ne_noMemory hhigh
  have hcases := morecore_cases (hok.answer grant) hmax
  have hserves := malloc_serves (hok.answer grant) n
  generalize DzOS.Libc.malloc (answer k grant) s.heap n = r at hserves
  rw [hbrk] at hcases hne
  cases hserves with
  | fits hlarge htaken =>
    obtain ⟨x, hx, hle⟩ := hlarge
    refine .block (fun hrefused => ?_) hlive htaken.new htaken.ok.of_answer htaken.size
    exact absurd ((hiff.mp hrefused).1 x hx) (not_lt.mpr hle)
  | stop hsmall hmore =>
    rcases hcases with
      ⟨e, -, hstop, hanswer⟩ | ⟨hnull, -⟩ | ⟨_, _, hgrows, -⟩ | ⟨-, _, _, hwraps, -⟩
    · rcases sbrk_answer k grant (hbrk ▸ hhigh)
        (amount (coreUnits (nunits n))) with ⟨hcall, hnonneg⟩ | hcall
      · refine .stop (fun hrefused => ?_) (large_of_amount ?_)
        · exact hne (congrArg Prod.fst (Option.some.inj (hcall.symm.trans (hiff.mp hrefused).2)))
        · rcases hanswer with hnone | ⟨hneg, -⟩
          · cases hcall.symm.trans hnone
          · exact le_antisymm hneg hnonneg
      -- Without memory `morecore` returns 0.
      · rcases hanswer with hnone | ⟨-, brk', hsome⟩
        · cases hcall.symm.trans hnone
        · exact absurd (congrArg Prod.fst (Option.some.inj (hsome.symm.trans hcall))) hne
    · cases hmore.symm.trans hnull
    · cases hmore.symm.trans hgrows
    · cases hmore.symm.trans hwraps
  | none hsmall hmore =>
    rcases hcases with ⟨e, -, hstop, -⟩ | ⟨-, hcall⟩ | ⟨h', free', hgrows, hgrown, -⟩ |
      ⟨-, h', _, hwraps, hwrapped, -⟩
    · cases hmore.symm.trans hstop
    · exact .refused (hiff.mpr ⟨hsmall, hcall⟩)
    · exact absurd (congrArg Prod.fst (Except.ok.inj (hgrows.symm.trans hmore)))
        hgrown.ok.freep_ne_zero
    · exact absurd (congrArg Prod.fst (Except.ok.inj (hwraps.symm.trans hmore))) hwrapped.pos
  | grows hsmall hmore hgrown htaken =>
    refine .block (fun hrefused => ?_) hlive htaken.new htaken.ok.of_answer htaken.size
    rcases hcases with
      ⟨e, -, hstop, -⟩ | ⟨hnull, -⟩ | ⟨_, _, -, -, hcall⟩ | ⟨-, _, _, -, -, -, hcall⟩
    · cases hmore.symm.trans hstop
    · exact absurd (congrArg Prod.fst (Except.ok.inj (hmore.symm.trans hnull)))
        hgrown.ok.freep_ne_zero
    · exact hne (congrArg Prod.fst (Option.some.inj (hcall.symm.trans (hiff.mp hrefused).2)))
    · exact hne (congrArg Prod.fst (Option.some.inj (hcall.symm.trans (hiff.mp hrefused).2)))
  | wraps hunits hend hcall =>
    have hbrk' : (initList (answer k grant) s.heap).brk = s.heap.brk := hbrk
    rw [hbrk'] at hcall hend ⊢
    refine .wraps (fun hrefused => ?_) ?_ (Nat.succ_ne_zero _) (by omega) (by omega)
    · exact hne (congrArg Prod.fst (Option.some.inj (hcall.symm.trans (hiff.mp hrefused).2)))
    · by_contra hlt
      exact absurd hunits (nunits_eq (not_le.mp hlt)).2.ne

/-! ### The requests -/

/-- `malloc` honours a request whose size with its header can be represented. It honours a larger
one only by refusing it. -/
theorem malloc_honoured_iff (hs : Sound k s) :
    MallocHonoured k s grant n ↔ n + 31 < ADDRESS_END ∨ Refused k s grant n := by
  have hresponse := malloc_response hs grant n
  unfold MallocHonoured
  generalize DzOS.Libc.malloc (answer k grant) s.heap n = r at hresponse
  cases hresponse with
  | refused hrefused =>
    exact iff_of_true ⟨0, _, rfl, fun hne => absurd rfl hne, fun _ => rfl⟩ (.inr hrefused)
  | block hserved hlive hnew hok hsize =>
    rename_i h a free used
    constructor
    · rintro ⟨q, h', heq, -, hlarge⟩
      cases heq
      exact .inl (not_le.mp fun hle => Nat.succ_ne_zero _ (hlarge hle))
    · rintro (hsmall | hrefused)
      · have hroom := le_nunits (n := n) (by omega)
        rw [← hsize] at hroom
        exact ⟨_, h, rfl, fun _ => hok.room hnew hlive hroom,
          fun hle => absurd hsmall (not_lt.mpr hle)⟩
      · exact absurd hrefused hserved
  | wraps hserved hlarge hnull _ _ =>
    refine iff_of_false ?_ (not_or.mpr ⟨not_lt.mpr hlarge, hserved⟩)
    rintro ⟨q, h, heq, -, hzero⟩
    cases heq
    exact hnull (hzero hlarge)
  | stop hserved hlarge =>
    refine iff_of_false ?_ (not_or.mpr ⟨not_lt.mpr hlarge, hserved⟩)
    rintro ⟨q, h, heq, -⟩
    cases heq

/-- The same for `calloc`, with the product before it is cut. -/
theorem calloc_honoured_iff (hs : Sound k s) {nmemb size : ℕ} :
    CallocHonoured k s grant nmemb size ↔
      nmemb * size + 31 < ADDRESS_END ∨ Refused k s grant (nmemb * size % ADDRESS_END) := by
  have hresponse := malloc_response hs grant (nmemb * size % ADDRESS_END)
  have hexact : nmemb * size + 31 < ADDRESS_END → nmemb * size % ADDRESS_END = nmemb * size :=
    fun hlt => Nat.mod_eq_of_lt (by omega)
  unfold CallocHonoured DzOS.Libc.calloc
  dsimp only
  generalize nmemb * size % ADDRESS_END = n at hresponse hexact ⊢
  generalize DzOS.Libc.malloc (answer k grant) s.heap n = r at hresponse
  generalize nmemb * size = product at hexact ⊢
  cases hresponse with
  | refused hrefused =>
    exact iff_of_true ⟨0, _, rfl, fun hne => absurd rfl hne, fun _ => rfl⟩ (.inr hrefused)
  | stop hserved hlarge =>
    refine iff_of_false ?_ (not_or.mpr ⟨fun hlt => ?_, hserved⟩)
    · rintro ⟨q, h, heq, -⟩
      cases heq
    · rw [hexact hlt] at hlarge
      omega
  | wraps hserved hlarge hnull hbehind hhigh =>
    rename_i h q
    -- There is no memory behind the heap that `memset` could clear.
    have hclear : clear h q n = .error .pageFault := by
      refine if_pos ?_
      unfold HEAP_MAX at hhigh
      unfold ADDRESS_END at hlarge
      unfold pageRoundUp
      omega
    refine iff_of_false ?_ (not_or.mpr ⟨fun hlt => ?_, hserved⟩)
    · rintro ⟨q', h', heq, -⟩
      cases ((if_neg hnull).symm.trans heq).symm.trans (bind_error hclear)
    · rw [hexact hlt] at hlarge
      omega
  | block hserved hlive hnew hok hsize =>
    rename_i h a free used
    have hstep : (if a + 16 = 0 then (return (0, h) : Except Stop (ℕ × Heap))
        else do
          let h ← clear h (a + 16) n
          return (a + 16, h)) = do
          let h ← clear h (a + 16) n
          return (a + 16, h) := if_neg (Nat.succ_ne_zero _)
    constructor
    · rintro ⟨q, h', heq, -, hlarge⟩
      obtain ⟨h₁, -, hret⟩ := bind_eq_ok.mp (hstep.symm.trans heq)
      cases hret
      exact .inl (not_le.mp fun hle => Nat.succ_ne_zero _ (hlarge hle))
    · rintro (hsmall | hrefused)
      · obtain rfl := hexact hsmall
        have hroom := le_nunits (n := n) (by omega)
        rw [← hsize] at hroom
        have hused := Finset.mem_insert_self a used
        obtain ⟨-, hpos, hend⟩ := hok.list.placed a (Finset.mem_union_right free hused)
        have hclear : clear h (a + 16) n = .ok { h with mem := h.mem.fill (a + 16) n 0 } :=
          if_neg (not_lt.mpr ((show a + 16 + n ≤ h.brk by omega).trans (le_pageRoundUp h.brk)))
        -- The bytes are in the block, so `memset` changes no header.
        obtain ⟨hok', hkept⟩ := hok.write hused (h.mem.fill (a + 16) n 0) fun i hi =>
          Bytes.fill_of_apart (by omega)
        rw [← hkept a hused] at hroom
        refine ⟨a + 16, _, hstep.trans (bind_ok hclear), fun _ => ⟨hok'.room hnew hlive hroom, ?_⟩,
          fun hle => absurd hsmall (not_lt.mpr hle)⟩
        exact fun i hi => Bytes.fill_of_mem (by omega) (by omega)
      · exact absurd hrefused hserved

/-- In every state of a run, `malloc` honours a request exactly if its size with its header can be
represented, or nothing is left for the units that `malloc` takes for it. The same holds for
`calloc` and the product of its arguments. -/
theorem requests_honoured_iff {events : List Event} (hsized : ∀ e ∈ events, e.Sized)
    (hrun : runSteps (event k) (newSession k mem) events = some s) (grant : Bool) :
    (∀ nbytes < ADDRESS_END, MallocHonoured k s grant nbytes ↔
      nbytes + 31 < ADDRESS_END ∨ Refused k s grant nbytes) ∧
    ∀ nmemb < ADDRESS_END, ∀ size < ADDRESS_END, CallocHonoured k s grant nmemb size ↔
      nmemb * size + 31 < ADDRESS_END ∨ Refused k s grant (nmemb * size % ADDRESS_END) := by
  have hs := sound_run (sound_newSession k mem) hsized hrun
  exact ⟨fun _ _ => malloc_honoured_iff hs, fun _ _ _ _ => calloc_honoured_iff hs⟩

/-- A process with a block of 64 bytes asks for 100 more, and for 10 items of 10 bytes. -/
theorem requests_honoured_iff_block : ∃ s,
    runSteps (event smallSystem) (newSession smallSystem Bytes.zero) [.malloc true 64] = some s ∧
    MallocHonoured smallSystem s true 100 ∧ CallocHonoured smallSystem s true 10 10 := by
  obtain ⟨s, hrun⟩ : ∃ s, runSteps (event smallSystem) (newSession smallSystem Bytes.zero)
      [.malloc true 64] = some s := Option.isSome_iff_exists.mp (by decide)
  obtain ⟨hmalloc, hcalloc⟩ := requests_honoured_iff
    (by simp [Event.Sized, ADDRESS_END, nunits]) hrun true
  exact ⟨s, hrun, (hmalloc 100 (by decide)).mpr (.inl (by decide)),
    (hcalloc 10 (by decide) 10 (by decide)).mpr (.inl (by decide))⟩

/-- The first request of a process for `2 ^ 64 - 1` bytes gets a block of one unit, which has no
room, and one for `2 ^ 32` items of `2 ^ 32` bytes gets a block for 0 bytes. -/
theorem requests_not_honoured_wrap :
    ¬ MallocHonoured smallSystem (newSession smallSystem Bytes.zero) true (2 ^ 64 - 1) ∧
    ¬ CallocHonoured smallSystem (newSession smallSystem Bytes.zero) true (2 ^ 32) (2 ^ 32) := by
  have hmalloc : (DzOS.Libc.malloc (answer smallSystem true)
      (newSession smallSystem Bytes.zero).heap (2 ^ 64 - 1)).toOption.map Prod.fst =
      some 69632 := by decide
  have hcalloc : (DzOS.Libc.calloc (answer smallSystem true)
      (newSession smallSystem Bytes.zero).heap (2 ^ 32) (2 ^ 32)).toOption.map Prod.fst =
      some 69632 := by decide
  constructor
  · rintro ⟨q, h, hrun, -, hnull⟩
    rw [hrun, hnull (by decide)] at hmalloc
    cases hmalloc
  · rintro ⟨q, h, hrun, -, hnull⟩
    rw [hrun, hnull (by decide)] at hcalloc
    cases hcalloc

end DzOS.Proofs.Libc
