import DzOS.Lib.Run
import DzOS.Proofs.Libc.Malloc

/-!
# `DzOS.Proofs.Libc.Realloc`: what `realloc` keeps of a block

A process makes calls to the allocator and stores into its blocks. `Inv` holds in every state of a
run (`inv_run`).

`realloc` compares the new size in bytes with the size of the header, which is in units of 16 bytes.
If they are equal, it returns the same block. Otherwise it gets a new block and copies as many bytes
as the header has units, but does not free the old block. So `realloc` does what it should if and
only if the new size is the size of the header (`realloc_preserves_iff`).
-/

set_option autoImplicit false

namespace DzOS.Proofs.Libc

open DzOS.Lib DzOS.Libc Function

/-! ### The system -/

/-- The kernel gives a process what `System` states. -/
def kernelSystem (base initial limit : ℕ) (hpos : 0 < base) (hbelow : base + 16 ≤ initial)
    (hpage : pageRoundUp initial = initial) (hinitial : initial < HEAP_MAX)
    (hlimit : limit < HEAP_MAX) : System where
  base := base
  initial := initial
  sbrk := procSbrk initial limit
  base_pos := hpos
  base_below := hbelow
  initial_page := hpage
  initial_lt := hinitial
  returns := by
    intro brk howMuch p brk' hcall
    refine .inr ?_
    unfold procSbrk at hcall
    grind
  grows := by
    intro brk howMuch brk' hcall hgrow
    unfold procSbrk at hcall
    rw [if_pos hgrow] at hcall
    grind
  keeps := by
    intro brk brk' hcall
    cases hcall
    rfl
  shrinks := by
    intro brk howMuch brk' hcall hshrink
    unfold procSbrk at hcall
    rw [if_neg (by omega), if_pos hshrink] at hcall
    unfold HEAP_MAX at hinitial
    unfold ADDRESS_END at hcall
    dsimp only at hcall
    have hbrk' := congrArg Prod.snd (Option.some.inj hcall)
    dsimp only at hbrk'
    rw [← hbrk']
    split
    · omega
    · omega

/-! ### Runs -/

/-- A block of the process: the address of its header, and the bytes of its request. -/
structure Block where
  header : ℕ
  bytes : ℕ
  deriving DecidableEq, Repr

/-- The address that `malloc` returns. -/
def Block.addr (b : Block) : ℕ := b.header + 16

theorem Block.addr_sub (b : Block) : b.addr - 16 = b.header := by
  unfold Block.addr
  omega

theorem Block.addr_ne_zero (b : Block) : b.addr ≠ 0 := Nat.succ_ne_zero _

/-- The heap and the blocks that are not freed. -/
structure State where
  heap : Heap
  live : List Block

/-- The result of a request. -/
def State.add (s : State) (r : ℕ × Heap) (nbytes : ℕ) : State where
  heap := r.2
  live := if r.1 = 0 then s.live else ⟨r.1 - 16, nbytes⟩ :: s.live

/-- A call of the process, or a store into a block. -/
inductive Call where
  | malloc (nbytes : ℕ)
  | calloc (nmemb size : ℕ)
  | free (b : Block)
  | realloc (b : Block) (size : ℕ)
  | store (b : Block) (i : ℕ) (c : UInt8)

/-- The state after a call, or `none` when it stops, or is not one of a correct process: a size is
below `ADDRESS_END`, and a block is live. A size of `realloc` is not 0, and its units are not cut. A
store is inside of its block.

Requests for `2 ^ 60` units are left out: `malloc` may return an address behind the heap for them,
and `free` of it would put memory into the list that is not there. -/
def call (k : System) (s : State) : Call → Option State
  | .malloc nbytes =>
    if nbytes < ADDRESS_END ∧ nunits nbytes < 2 ^ 60 then
      (DzOS.Libc.malloc k s.heap nbytes).toOption.map fun r => s.add r nbytes
    else none
  | .calloc nmemb size =>
    if nunits (nmemb * size % ADDRESS_END) < 2 ^ 60 then
      (DzOS.Libc.calloc k s.heap nmemb size).toOption.map fun r =>
        s.add r (nmemb * size % ADDRESS_END)
    else none
  | .free b =>
    if b ∈ s.live then
      (DzOS.Libc.free s.heap b.addr).toOption.map fun h =>
        ⟨h, s.live.filter (·.header ≠ b.header)⟩
    else none
  | .realloc b size =>
    if b ∈ s.live ∧ 0 < size ∧ size + 31 < ADDRESS_END then
      (DzOS.Libc.realloc k s.heap b.addr size).toOption.map fun r =>
        if r.1 = b.addr then ⟨r.2, s.live⟩ else s.add r size
    else none
  | .store b i c =>
    if b ∈ s.live ∧ i < 16 * (nunits b.bytes - 1) then
      some { s with heap.mem := s.heap.mem.set (b.addr + i) c }
    else none

/-- The start of a process. -/
def start (k : System) (mem : Bytes) : State := ⟨⟨mem, 0, k.initial⟩, []⟩

/-- A state that a process can reach. -/
def Reachable (k : System) (s : State) : Prop :=
  ∃ mem calls, runSteps (call k) (start k mem) calls = some s

variable {k : System} {h h' : Heap} {a : ℕ} {free used : Finset ℕ} {s s' : State} {b : Block}

/-- The headers of the live blocks. -/
def usedOf (live : List Block) : Finset ℕ := (live.map Block.header).toFinset

theorem mem_usedOf {live : List Block} (hb : b ∈ live) : b.header ∈ usedOf live :=
  List.mem_toFinset.mpr (List.mem_map_of_mem hb)

/-- The invariant of a run. -/
structure Inv (k : System) (s : State) : Prop where
  heap : HeapInv k s.heap (usedOf s.live)
  size : ∀ b ∈ s.live, s.heap.size b.header = nunits b.bytes
  bytes : ∀ b ∈ s.live, b.bytes < ADDRESS_END ∧ nunits b.bytes < 2 ^ 60

/-- Where a block is used, the list is made. -/
theorem HeapInv.heapOk (hinv : HeapInv k h used) (ha : a ∈ used) :
    ∃ free, HeapOk k h free used := by
  rcases hinv with ⟨-, rfl, -⟩ | hok
  · exact absurd ha (Finset.notMem_empty a)
  · exact hok

/-- A store into the contents of a used block changes no header. -/
theorem HeapOk.headers_of_write (hok : HeapOk k h free used) (ha : a ∈ used) (mem : Bytes)
    (hmem : ∀ i, i < a + 16 ∨ a + 16 * h.size a ≤ i → mem i = h.mem i) :
    ∀ c ∈ headers k free used, Heap.ptr { h with mem := mem } c = h.ptr c ∧
      Heap.size { h with mem := mem } c = h.size c := by
  intro c hc
  have hbyte : ∀ i, c ≤ i → i < c + 16 → mem i = h.mem i := by
    intro i hlow hhigh
    refine hmem i ?_
    by_contra hin
    have := hok.list.outside (i := i) (Finset.mem_union_right free ha) (by omega) (by omega) c hc
    omega
  exact ⟨Bytes.getLE_congr fun i hlow hhigh => hbyte i hlow (by omega),
    Bytes.getLE_congr fun i hlow hhigh => hbyte i (by omega) (by omega)⟩

theorem HeapOk.write (hok : HeapOk k h free used) (ha : a ∈ used) (mem : Bytes)
    (hmem : ∀ i, i < a + 16 ∨ a + 16 * h.size a ≤ i → mem i = h.mem i) :
    HeapOk k { h with mem := mem } free used ∧
      ∀ b ∈ used, Heap.size { h with mem := mem } b = h.size b := by
  have hheader := hok.headers_of_write ha mem hmem
  exact ⟨⟨hok.list.congr (fun c hc => (hheader c hc).1) fun c hc => (hheader c hc).2, hok.start,
      hok.low, hok.high⟩, fun b hb => (hheader b (mem_headers_of_used hb)).2⟩

/-- The same for the invariant of a run. -/
theorem Inv.write (hinv : Inv k s) (hb : b ∈ s.live) {mem : Bytes}
    (hmem : ∀ i, i < b.addr ∨ b.header + 16 * nunits b.bytes ≤ i → mem i = s.heap.mem i) :
    Inv k { s with heap.mem := mem } := by
  obtain ⟨free, hok⟩ := hinv.heap.heapOk (mem_usedOf hb)
  obtain ⟨hok', hsize⟩ := hok.write (mem_usedOf hb) mem (by rw [hinv.size b hb]; exact hmem)
  refine ⟨.inr ⟨free, hok'⟩, fun d hd => ?_, hinv.bytes⟩
  rw [← hinv.size d hd]
  exact hsize d.header (mem_usedOf hd)

/-- A request gets no address without memory: it has fewer than `2 ^ 60` units, or it is refused. -/
def Backed (k : System) (h : Heap) (n : ℕ) : Prop :=
  nunits n = 2 ^ 60 → ∀ r, DzOS.Libc.malloc k h n = .ok r → r.1 = 0

variable {m n : ℕ} {r : ℕ × Heap}

theorem backed_of_lt (hunits : nunits n < 2 ^ 60) : Backed k h n :=
  fun heq => absurd heq hunits.ne

/-- A request keeps the invariant, unless its amount for `sbrk` wraps to 0. -/
theorem Inv.add (hinv : Inv k s) (hn : n < ADDRESS_END) (hunits : nunits n = 2 ^ 60 → r.1 = 0)
    (halloc : Allocates k s.heap (usedOf s.live) (nunits n) (.ok r)) : Inv k (s.add r n) := by
  have hkept : ∀ h', Keeps (usedOf s.live) s.heap h' →
      ∀ b ∈ s.live, h'.size b.header = nunits b.bytes := fun h' hkeeps b hb =>
    (hkeeps.size b.header (mem_usedOf hb)).trans (hinv.size b hb)
  cases halloc with
  | none hok hkeeps => exact ⟨.inr ⟨_, hok⟩, hkept _ hkeeps, hinv.bytes⟩
  | block hnew hok hsize hkeeps =>
    rename_i h' free' a
    have hfew := lt_of_le_of_ne (nunits_bounds n).2 fun heq => Nat.succ_ne_zero _ (hunits heq)
    refine ⟨.inr ⟨free', ?_⟩, fun b hb => ?_, fun b hb => ?_⟩
    · have hused : usedOf (s.add (a + 16, h') n).live = insert a (usedOf s.live) :=
        List.toFinset_cons
      rw [hused]
      exact hok
    · rcases List.mem_cons.mp hb with rfl | hb
      · exact hsize
      · exact hkept _ hkeeps b hb
    · rcases List.mem_cons.mp hb with rfl | hb
      · exact ⟨hn, hfew⟩
      · exact hinv.bytes b hb
  | wraps hn hq _ => exact absurd (hunits hn) hq

/-- A request has room for its bytes. -/
theorem le_nunits (hn : n + 15 < ADDRESS_END) : n ≤ 16 * (nunits n - 1) := by
  have hmod : (n + 16 - 1) % ADDRESS_END = n + 15 := Nat.mod_eq_of_lt (by omega)
  unfold nunits
  rw [hmod]
  omega

/-- The units of a request are as many as they should be, when neither they nor the amount for
`sbrk` is cut. -/
theorem nunits_eq (hn : n + 31 < ADDRESS_END) :
    nunits n = (n + 15) / 16 + 1 ∧ nunits n < 2 ^ 60 := by
  unfold nunits ADDRESS_END at *
  omega

/-- The new block is live. -/
theorem mem_add (hr : r.1 ≠ 0) : ⟨r.1 - 16, n⟩ ∈ (s.add r n).live := by
  unfold State.add
  dsimp only
  rw [if_neg hr]
  exact List.mem_cons_self

/-! ### The calls -/

/-- A loop of `memcpy` writes to its destination only. -/
theorem copyBytes_of_apart {mem : Bytes} {dest src i : ℕ} (hi : i < dest ∨ dest + n ≤ i) :
    copyBytes mem dest src n i = mem i := by
  induction n with
  | zero => rfl
  | succ n ih =>
    rw [copyBytes, Bytes.set, if_neg (by omega), ih (by omega)]

theorem inv_free (hinv : Inv k s) (hb : b ∈ s.live) (hfree : DzOS.Libc.free s.heap b.addr = .ok h) :
    Inv k ⟨h, s.live.filter (·.header ≠ b.header)⟩ := by
  obtain ⟨free, hok⟩ := hinv.heap.heapOk (mem_usedOf hb)
  obtain ⟨h', free', hrun, hfreed⟩ := free_ok hok (mem_usedOf hb)
  cases hfree.symm.trans hrun
  -- A header belongs to one block, so the other blocks keep theirs.
  have hused : usedOf (s.live.filter (·.header ≠ b.header)) = (usedOf s.live).erase b.header := by
    ext x
    simp only [usedOf, List.mem_toFinset, List.mem_map, List.mem_filter, Finset.mem_erase,
      decide_eq_true_eq]
    grind
  refine ⟨.inr ⟨free', hused ▸ hfreed.ok⟩, fun d hd => ?_, fun d hd => ?_⟩
  · rw [← hinv.size d (List.mem_of_mem_filter hd)]
    exact hfreed.size_used _ (hused ▸ mem_usedOf hd)
  · exact hinv.bytes d (List.mem_of_mem_filter hd)

/-- The heap `h` between the two steps of `realloc`: the block `a` is new, and `n` bytes are to be
copied into it. -/
structure Moved (k : System) (s : State) (m a n : ℕ) (h : Heap) (free : Finset ℕ) : Prop where
  new : a ∉ usedOf s.live
  ok : HeapOk k h free (insert a (usedOf s.live))
  size : h.size a = nunits m
  keeps : Keeps (usedOf s.live) s.heap h
  le : n ≤ m

section

variable (hinv : Inv k s)

include hinv

/-- `realloc` for another size than the one of the header calls `malloc`, and then it copies as many
bytes as the header of the block has units. A result of 0 stops it there. -/
theorem realloc_copies {q : ℕ} (hb : b ∈ s.live) (hm : 0 < m) (hne : m ≠ nunits b.bytes)
    (hrun : DzOS.Libc.realloc k s.heap b.addr m = .ok (q, h')) :
    ∃ h n, DzOS.Libc.malloc k s.heap m = .ok (q, h) ∧ q ≠ 0 ∧ n ≤ m ∧
      h' = { h with mem := copyBytes h.mem q b.addr n } := by
  have hsize := hinv.size b hb
  have hpos := (nunits_bounds b.bytes).1
  have hstep : DzOS.Libc.realloc k s.heap b.addr m = (do
      let r ← DzOS.Libc.malloc k s.heap m
      let h ← memcpy r.2 r.1 b.addr
        (if m < r.2.size (b.addr - 16) then m else r.2.size (b.addr - 16))
      return (r.1, h)) := by
    rw [DzOS.Libc.realloc, if_neg b.addr_ne_zero, if_neg hm.ne']
    refine if_neg ?_
    rw [b.addr_sub, hsize]
    exact hne
  rw [hstep] at hrun
  obtain ⟨⟨newData, h⟩, hmalloc, hrest⟩ := bind_eq_ok.mp hrun
  obtain ⟨h₂, hcopy, hret⟩ := bind_eq_ok.mp hrest
  obtain ⟨rfl, rfl⟩ : newData = q ∧ h₂ = h' := Prod.mk.inj (Except.ok.inj hret)
  clear hrun hrest hret
  have halloc := malloc_ok hinv.heap m
  rw [hmalloc] at halloc
  rw [b.addr_sub] at hcopy
  unfold memcpy at hcopy
  have hnull : newData ≠ 0 := by
    cases halloc with
    | none hok hkeeps =>
      -- Without memory the copy goes to the address 0.
      have hkept := (hkeeps.size _ (mem_usedOf hb)).trans hsize
      have hcount : 0 < if m < h.size b.header then m else h.size b.header := by
        rw [hkept]
        split
        · exact hm
        · exact hpos
      rw [if_pos ⟨rfl, hcount⟩] at hcopy
      cases hcopy
    | block => exact Nat.succ_ne_zero _
    | wraps _ hq _ => exact hq
  rw [if_neg fun hboth => hnull hboth.1] at hcopy
  have hle : (if m < h.size b.header then m else h.size b.header) ≤ m := by
    split
    · exact Nat.le_refl m
    · omega
  dsimp only at hcopy
  generalize (if m < h.size b.header then m else h.size b.header) = n at hcopy hle
  by_cases hend : pageRoundUp h.brk < newData + n
  · rw [if_pos hend] at hcopy
    cases hcopy
  · rw [if_neg hend] at hcopy
    exact ⟨h, n, hmalloc, hnull, hle, (Except.ok.inj hcopy).symm⟩

/-- The copy goes into a new block, unless the amount for `sbrk` wraps to 0. -/
theorem realloc_moves {q : ℕ} (hb : b ∈ s.live) (hm : 0 < m) (hne : m ≠ nunits b.bytes)
    (hunits : nunits m < 2 ^ 60) (hrun : DzOS.Libc.realloc k s.heap b.addr m = .ok (q, h')) :
    ∃ a h n free, q = a + 16 ∧ h' = { h with mem := copyBytes h.mem (a + 16) b.addr n } ∧
      Moved k s m a n h free := by
  obtain ⟨h, n, hmalloc, hnull, hle, rfl⟩ := realloc_copies hinv hb hm hne hrun
  have halloc := malloc_ok hinv.heap m
  rw [hmalloc] at halloc
  cases halloc with
  | none => exact absurd rfl hnull
  | block hnew hok hsize hkeeps => exact ⟨_, h, n, _, rfl, rfl, hnew, hok, hsize, hkeeps, hle⟩
  | wraps hn _ _ => exact absurd hn hunits.ne

/-- `realloc` for the size of the header. -/
theorem realloc_same (hb : b ∈ s.live) (hm : m = nunits b.bytes) :
    DzOS.Libc.realloc k s.heap b.addr m = .ok (b.addr, s.heap) := by
  have hpos := (nunits_bounds b.bytes).1
  rw [DzOS.Libc.realloc, if_neg b.addr_ne_zero, if_neg (by omega)]
  refine if_pos ?_
  rw [b.addr_sub, hinv.size b hb]
  exact hm

theorem inv_realloc (hb : b ∈ s.live) (hm : 0 < m) (hlt : m + 31 < ADDRESS_END)
    (hrun : DzOS.Libc.realloc k s.heap b.addr m = .ok r) :
    Inv k (if r.1 = b.addr then ⟨r.2, s.live⟩ else s.add r m) := by
  by_cases hsame : m = nunits b.bytes
  · rw [realloc_same hinv hb hsame] at hrun
    cases hrun
    rw [if_pos rfl]
    exact hinv
  · obtain ⟨q, h'⟩ := r
    obtain ⟨a, h, n, free, rfl, rfl, hmoved⟩ := realloc_moves hinv hb hm hsame
      (nunits_eq hlt).2 hrun
    have hne : a + 16 ≠ b.addr := by
      intro heq
      have hab : a = b.header := Nat.add_right_cancel heq
      exact hmoved.new (hab ▸ mem_usedOf hb)
    rw [if_neg hne]
    have hadd := hinv.add (n := m) (by omega) (fun heq => absurd heq (nunits_eq hlt).2.ne)
      (.block hmoved.new hmoved.ok hmoved.size hmoved.keeps)
    have hroom := le_nunits (n := m) (by omega)
    have hpos := (nunits_bounds m).1
    have hle := hmoved.le
    -- The copy is not longer than the request, so it stays in the new block.
    refine hadd.write (mem_add (Nat.succ_ne_zero _)) fun i hi => copyBytes_of_apart ?_
    change i < a + 16 - 16 + 16 ∨ a + 16 - 16 + 16 * nunits m ≤ i at hi
    omega

theorem inv_calloc {nmemb size : ℕ} (hbacked : Backed k s.heap (nmemb * size % ADDRESS_END))
    (hrun : DzOS.Libc.calloc k s.heap nmemb size = .ok r) :
    Inv k (s.add r (nmemb * size % ADDRESS_END)) := by
  obtain ⟨n, hn⟩ : ∃ n, n = nmemb * size % ADDRESS_END := ⟨_, rfl⟩
  have hlt : n < ADDRESS_END := by
    rw [hn]
    exact Nat.mod_lt _ (by unfold ADDRESS_END; norm_num)
  unfold DzOS.Libc.calloc at hrun
  dsimp only at hrun
  rw [← hn] at hrun hbacked ⊢
  obtain ⟨⟨data, h⟩, hmalloc, hrun⟩ := bind_eq_ok.mp hrun
  have halloc := malloc_ok hinv.heap n
  rw [hmalloc] at halloc
  have hunits : nunits n = 2 ^ 60 → data = 0 := fun heq => hbacked heq _ hmalloc
  dsimp only at hrun
  by_cases hnull : data = 0
  · rw [if_pos hnull] at hrun
    cases hrun
    rw [hnull] at halloc
    exact hinv.add hlt (fun _ => rfl) halloc
  · rw [if_neg hnull] at hrun
    obtain ⟨h₂, hclear, hret⟩ := bind_eq_ok.mp hrun
    cases hret
    clear hrun
    have hadd := hinv.add hlt hunits halloc
    cases halloc with
    | none => exact absurd rfl hnull
    | wraps hn hq _ => exact absurd (hunits hn) hq
    | block hnew hok hsize hkeeps =>
      rename_i free a
      unfold clear at hclear
      by_cases hend : pageRoundUp h.brk < a + 16 + n
      · rw [if_pos hend] at hclear
        cases hclear
      · rw [if_neg hend] at hclear
        cases hclear
        have hhigh := hok.high
        unfold HEAP_MAX at hhigh
        unfold pageRoundUp at hend
        have hroom := le_nunits (n := n) (by unfold ADDRESS_END; omega)
        have hpos := (nunits_bounds n).1
        refine hadd.write (mem_add (Nat.succ_ne_zero _)) fun i hi => Bytes.fill_of_apart ?_
        change i < a + 16 - 16 + 16 ∨ a + 16 - 16 + 16 * nunits n ≤ i at hi
        omega

/-- A call keeps the invariant. -/
theorem inv_call {c : Call} (hcall : call k s c = some s') : Inv k s' := by
  cases c with
  | malloc nbytes =>
    obtain ⟨hlt, hsome⟩ := Option.ite_none_right_eq_some.mp hcall
    obtain ⟨r, hr, rfl⟩ := Option.map_eq_some_iff.mp hsome
    have hok := eq_ok_of_toOption hr
    have halloc := malloc_ok hinv.heap nbytes
    rw [hok] at halloc
    exact hinv.add hlt.1 (fun heq => absurd heq hlt.2.ne) halloc
  | calloc nmemb size =>
    obtain ⟨hunits, hsome⟩ := Option.ite_none_right_eq_some.mp hcall
    obtain ⟨r, hr, rfl⟩ := Option.map_eq_some_iff.mp hsome
    exact inv_calloc hinv (backed_of_lt hunits) (eq_ok_of_toOption hr)
  | free b =>
    obtain ⟨hb, hsome⟩ := Option.ite_none_right_eq_some.mp hcall
    obtain ⟨h, hh, rfl⟩ := Option.map_eq_some_iff.mp hsome
    exact inv_free hinv hb (eq_ok_of_toOption hh)
  | realloc b size =>
    obtain ⟨hb, hsome⟩ := Option.ite_none_right_eq_some.mp hcall
    obtain ⟨r, hr, rfl⟩ := Option.map_eq_some_iff.mp hsome
    exact inv_realloc hinv hb.1 hb.2.1 hb.2.2 (eq_ok_of_toOption hr)
  | store b i c =>
    obtain ⟨hb, ⟨⟩⟩ := Option.ite_none_right_eq_some.mp hcall
    have hpos := (nunits_bounds b.bytes).1
    refine hinv.write hb.1 fun j hj => if_neg ?_
    unfold Block.addr at hj ⊢
    omega

/-- The invariant holds in every state of a run. -/
theorem inv_run {calls : List Call} (hrun : runSteps (call k) s calls = some s') : Inv k s' := by
  induction calls generalizing s with
  | nil =>
    cases hrun
    exact hinv
  | cons c calls ih =>
    obtain ⟨t, hcall, hrest⟩ := runSteps_cons_some hrun
    exact ih (inv_call hinv hcall) hrest

end

theorem inv_reachable (hreach : Reachable k s) : Inv k s := by
  obtain ⟨mem, calls, hrun⟩ := hreach
  have hstart : Inv k (start k mem) := by
    refine ⟨.inl ⟨rfl, rfl, Nat.le_refl _, k.initial_lt⟩, ?_, ?_⟩
    · exact fun b hb => absurd hb List.not_mem_nil
    · exact fun b hb => absurd hb List.not_mem_nil
  exact inv_run hstart hrun

/-! ### `realloc` -/

/-- The bytes of the block at an address, as far as the heap goes. -/
def usable (h : Heap) (q : ℕ) : ℕ := min (16 * (h.size (q - 16) - 1)) (h.brk - q)

/-- The units from a header are in the free list, as one block or as a part of one. -/
def OnFreeList (h : Heap) (header units : ℕ) : Prop :=
  ∃ j, h.ptr^[j] h.freep ≤ header ∧
    header + 16 * units ≤ h.ptr^[j] h.freep + 16 * h.size (h.ptr^[j] h.freep)

/-- `realloc` of the block returns. A result has the room and the contents, and the old block is
free if it is another one. Without a result the old block is as before. -/
def Preserves (k : System) (s : State) (b : Block) (m : ℕ) : Prop :=
  ∃ q h, DzOS.Libc.realloc k s.heap b.addr m = .ok (q, h) ∧
    (q ≠ 0 → m ≤ usable h q ∧
      (∀ i < min b.bytes m, h.mem (q + i) = s.heap.mem (b.addr + i)) ∧
      (q ≠ b.addr → OnFreeList h b.header (nunits b.bytes))) ∧
    (q = 0 → (∀ i < b.bytes, h.mem (b.addr + i) = s.heap.mem (b.addr + i)) ∧
      h.size b.header = s.heap.size b.header ∧ ¬ OnFreeList h b.header (nunits b.bytes))

/-- A used block is not in the free list. -/
theorem HeapOk.not_onFreeList (hok : HeapOk k h free used) (ha : a ∈ used) {units : ℕ}
    (hunits : 0 < units) : ¬ OnFreeList h a units := by
  rintro ⟨j, hlow, hend⟩
  have hnode : ∀ i, h.ptr^[i] h.freep ∈ insert k.base free := by
    intro i
    induction i with
    | zero => exact hok.start
    | succ i ih =>
      rw [Function.iterate_succ_apply']
      exact hok.list.circular.mem _ ih
  have hpos : 0 < h.size (h.ptr^[j] h.freep) := by omega
  have hfree := hok.list.mem_free (hnode j) hpos
  have hne : h.ptr^[j] h.freep ≠ a := by
    intro heq
    rw [heq] at hfree
    exact Finset.disjoint_left.mp hok.list.disjoint hfree ha
  have := hok.list.apart _ (Finset.mem_union_left used hfree) a (Finset.mem_union_right free ha)
    (by omega)
  omega

/-- A request whose units are cut does not get its bytes. -/
theorem nunits_lt (hm : ADDRESS_END ≤ m + 15) : 16 * (nunits m - 1) < m := by
  unfold nunits
  unfold ADDRESS_END at hm ⊢
  omega

/-- For another size than the one of the header, the old block is not freed. -/
theorem not_preserves_of_ne (hinv : Inv k s) (hb : b ∈ s.live) (hm : 1 ≤ m)
    (hne : m ≠ nunits b.bytes) : ¬ Preserves k s b m := by
  rintro ⟨q, h', hrun, hresult, -⟩
  by_cases hwrap : nunits m = 2 ^ 60
  -- The result is an address behind the heap.
  · obtain ⟨h, n, hmalloc, hnull, -, rfl⟩ := realloc_copies hinv hb hm hne hrun
    have hroom := (hresult hnull).1
    have hbehind := (malloc_wraps hinv.heap hwrap hmalloc hnull).1
    unfold usable at hroom
    dsimp only at hroom
    omega
  have hunits := lt_of_le_of_ne (nunits_bounds m).2 hwrap
  obtain ⟨a, h, n, free, rfl, rfl, hmoved⟩ := realloc_moves hinv hb hm hne hunits hrun
  obtain ⟨hroom, -, hfreed⟩ := hresult (Nat.succ_ne_zero _)
  have hsize : Heap.size { h with mem := copyBytes h.mem (a + 16) b.addr n } a = nunits m := by
    rw [← hmoved.size]
    exact Bytes.getLE_congr fun i _ hhigh => copyBytes_of_apart (.inl (by omega))
  rw [usable, Nat.add_sub_cancel, hsize, le_min_iff] at hroom
  replace hroom := hroom.1
  have hle : m + 15 < ADDRESS_END := by
    by_contra hcut
    exact absurd hroom (not_le.mpr (nunits_lt (not_lt.mp hcut)))
  have hbytes := le_nunits hle
  have hpos := (nunits_bounds m).1
  have hn := hmoved.le
  obtain ⟨hok, -⟩ := hmoved.ok.write (Finset.mem_insert_self a _)
    (copyBytes h.mem (a + 16) b.addr n) fun i hi => copyBytes_of_apart (by
      rw [hmoved.size] at hi
      omega)
  have hold : b.header ∈ insert a (usedOf s.live) := Finset.mem_insert_of_mem (mem_usedOf hb)
  -- The old block is still used, so it cannot be in the free list.
  refine hok.not_onFreeList hold (nunits_bounds b.bytes).1 (hfreed fun heq => ?_)
  have hab : a = b.header := Nat.add_right_cancel heq
  exact hmoved.new (hab ▸ mem_usedOf hb)

/-- For a live block and a new size, `realloc` does what it should if and only if the new size is
the number of units of the block with its header, and this number is not cut. -/
theorem realloc_preserves_iff {m : ℕ} (hreach : Reachable k s) (hb : b ∈ s.live)
    (hbytes : 1 ≤ b.bytes) (hm : 1 ≤ m) :
    Preserves k s b m ↔ b.bytes + 31 < ADDRESS_END ∧ m = (b.bytes + 15) / 16 + 1 := by
  have hinv := inv_reachable hreach
  obtain ⟨hlt, hfew⟩ := hinv.bytes b hb
  constructor
  · intro hpreserves
    have hsame : m = nunits b.bytes := by
      by_contra hne
      exact not_preserves_of_ne hinv hb hm hne hpreserves
    -- With cut units even the block of the request itself is too small for its bytes.
    have hroom : b.bytes + 31 < ADDRESS_END := by
      by_contra hcut
      obtain ⟨q, h, hrun, hresult, -⟩ := hpreserves
      rw [realloc_same hinv hb hsame] at hrun
      cases hrun
      obtain ⟨husable, -⟩ := hresult b.addr_ne_zero
      rw [usable, b.addr_sub, hinv.size b hb, hsame, le_min_iff] at husable
      unfold nunits at husable hfew
      unfold ADDRESS_END at husable hfew hcut hlt
      omega
    exact ⟨hroom, hsame.trans (nunits_eq hroom).1⟩
  · rintro ⟨hroom, rfl⟩
    have hsame := (nunits_eq hroom).1.symm
    obtain ⟨free, hok⟩ := hinv.heap.heapOk (mem_usedOf hb)
    have hend := (hok.list.placed _ (Finset.mem_union_right free (mem_usedOf hb))).2.2
    have hsize := hinv.size b hb
    refine ⟨_, _, realloc_same hinv hb hsame, fun _ => ⟨?_, fun _ _ => rfl, ?_⟩, ?_⟩
    · rw [hsize] at hend
      rw [usable, b.addr_sub, hsize, ← hsame, Block.addr, le_min_iff]
      omega
    · exact fun hne => absurd rfl hne
    · exact fun hzero => absurd hzero b.addr_ne_zero

/-- A process with a heap from 0x1000 on. -/
def smallSystem : System := kernelSystem 0x100 0x1000 0x100000 (by decide) (by decide) (by decide)
  (by decide) (by decide)

/-- A process with a block of 64 bytes. -/
def oneBlock : State :=
  (runSteps (call smallSystem) (start smallSystem Bytes.zero) [.malloc 64]).getD
    (start smallSystem Bytes.zero)

theorem reachable_oneBlock : Reachable smallSystem oneBlock :=
  ⟨Bytes.zero, [.malloc 64], runSteps_getD (by decide)⟩

theorem mem_oneBlock : ⟨69552, 64⟩ ∈ oneBlock.live := by decide

/-- The size of the header is 5. -/
theorem realloc_preserves_iff_five : Preserves smallSystem oneBlock ⟨69552, 64⟩ 5 :=
  (realloc_preserves_iff reachable_oneBlock mem_oneBlock (by decide) (by decide)).mpr
    ⟨by decide, by decide⟩

/-- A smaller block of 32 bytes gets 5 bytes, and the old block is not freed. -/
theorem not_preserves_smaller : ∃ s, Reachable smallSystem s ∧ ⟨69552, 64⟩ ∈ s.live ∧
    ¬ Preserves smallSystem s ⟨69552, 64⟩ 32 :=
  ⟨oneBlock, reachable_oneBlock, mem_oneBlock,
    not_preserves_of_ne (inv_reachable reachable_oneBlock) mem_oneBlock (by decide) (by decide)⟩

end DzOS.Proofs.Libc
