import DzOS.Proofs.Libc.Spans

/-!
# `DzOS.Proofs.Libc.Free`: what `free` does

`HeapOk` is the invariant of the heap. `free` and `malloc` keep it (`free_ok`, `malloc_ok`), end,
and write to headers only. `Covers` is about the bytes of the blocks, and `free` keeps it too
(`free_covers`): it links the block and joins it with its neighbours, which moves no byte from one
block to another.
-/

set_option autoImplicit false

namespace DzOS.Proofs.Libc

open DzOS.Lib DzOS.Libc Function

variable {nodes used' free' c free used : Finset ℕ} {h h₀ : Heap} {a b v brk p : ℕ}
  {ptr size : ℕ → ℕ} {k : System}

/-! ### `free` -/

/-- The invariant of the heap, with its free and its used blocks. -/
structure HeapOk (k : System) (h : Heap) (free used : Finset ℕ) : Prop where
  list : ListOk k h.ptr h.size h.brk free used
  start : h.freep ∈ insert k.base free
  low : k.initial ≤ h.brk
  high : h.brk < HEAP_MAX

theorem lt_address_end (hlt : v < HEAP_MAX) : v < ADDRESS_END := by
  refine hlt.trans ?_
  unfold HEAP_MAX ADDRESS_END
  norm_num

/-- Inside of the heap, the arithmetic on a header does not wrap. -/
theorem advance_of_lt {n : ℕ} (hlt : a + 16 * n < HEAP_MAX) : advance a n = a + 16 * n :=
  Nat.mod_eq_of_lt (lt_address_end hlt)

/-- A node of the list is in front of the end of the heap. -/
theorem ListOk.node_lt (hok : ListOk k ptr size brk free used) (hlow : k.initial ≤ brk)
    (ha : a ∈ insert k.base free) : a + 16 ≤ brk := by
  rcases Finset.mem_insert.mp ha with rfl | ha
  · exact k.base_below.trans hlow
  · have := hok.placed a (Finset.mem_union_left used ha)
    omega

section

variable (hok : HeapOk k h free used)

include hok

theorem HeapOk.node_lt (ha : a ∈ insert k.base free) :
    a + 16 ≤ h.brk := hok.list.node_lt hok.low ha

theorem HeapOk.node_address (ha : a ∈ insert k.base free) : a < ADDRESS_END := by
  have := hok.node_lt ha
  have := hok.high
  exact lt_address_end (by omega)

/-- No node of the list is at the address 0. -/
theorem HeapOk.node_pos (ha : a ∈ insert k.base free) : 0 < a := by
  have := k.base_pos
  rcases Finset.mem_insert.mp ha with rfl | ha
  · exact this
  · have := hok.list.base_lt (Finset.mem_union_left used ha)
    omega

theorem HeapOk.freep_ne_zero : h.freep ≠ 0 :=
  (hok.node_pos hok.start).ne'

/-- The list has fewer nodes than the heap has bytes. -/
theorem HeapOk.card_lt : (insert k.base free).card + 16 ≤ h.brk := by
  have hsub : insert k.base free ⊆ Finset.Icc 1 (h.brk - 16) := by
    intro a ha
    have hend := hok.node_lt ha
    exact Finset.mem_Icc.mpr ⟨hok.node_pos ha, by omega⟩
  have hcard := Finset.card_le_card hsub
  have := hok.node_lt (Finset.mem_insert_self k.base free)
  rw [Nat.card_Icc] at hcard
  omega

end

/-- The search ends at a place of the block. -/
theorem findPlace_ok {fuel j y : ℕ} (hcircular : Circular nodes h.ptr) (hp : p ∈ nodes)
    (hreach : h.ptr^[j] p = y) (hy : Before h.ptr y a) (hfuel : j < fuel) :
    ∃ p' ∈ nodes, findPlace h a fuel p = .ok p' ∧ Before h.ptr p' a := by
  -- The place `y` is `j` nodes ahead, so the search gets there unless it ends before.
  induction fuel generalizing p j with
  | zero => omega
  | succ fuel ih =>
    unfold findPlace
    by_cases hup : a > p ∧ a < h.ptr p
    · exact ⟨p, hp, if_pos hup, .inl hup⟩
    · rw [if_neg hup]
      by_cases hwrap : p ≥ h.ptr p ∧ (a > p ∨ a < h.ptr p)
      · exact ⟨p, hp, if_pos hwrap, .inr hwrap⟩
      · rw [if_neg hwrap]
        rcases Nat.eq_zero_or_pos j with rfl | hj
        · rw [Function.iterate_zero_apply] at hreach
          exact absurd (hreach ▸ hy) (not_or.mpr ⟨hup, hwrap⟩)
        · obtain ⟨i, rfl⟩ := Nat.exists_eq_add_one_of_ne_zero hj.ne'
          exact ih (hcircular.mem p hp) hreach (by omega)

/-- `free` finds a place of the block: the fuel is enough for one round over the list. -/
theorem findPlace_found (hcircular : Circular nodes h.ptr) (hstart : h.freep ∈ nodes)
    (ha : a ∉ nodes) (hcard : nodes.card ≤ h.brk) :
    ∃ p ∈ nodes, findPlace h a (2 * h.brk) h.freep = .ok p ∧ Before h.ptr p a := by
  obtain ⟨y, hy, hplace⟩ := hcircular.exists_before ⟨_, hstart⟩ ha
  obtain ⟨j, hj, hreach⟩ := hcircular.reach hstart hy
  exact findPlace_ok hcircular hstart hreach hplace (by omega)

/-- What the first half of `free` leaves: the list with the block `a`, possibly joined with the next
one, but for the link of `p`. -/
structure Joined (k : System) (h h₁ : Heap) (p a : ℕ) (free used : Finset ℕ) (ptr size : ℕ → ℕ)
    (free₁ : Finset ℕ) : Prop where
  list : ListOk k ptr size h.brk free₁ (used.erase a)
  mem : a ∈ free₁
  prev : p ∈ insert k.base free₁
  sub : free₁ ⊆ insert a free
  link : ptr p = a
  view : View (headers k free used) h h₁ (update ptr p (h.ptr p)) size
  size_prev : size p = h.size p
  size_le : h.size a ≤ size a
  size_used : ∀ b ∈ used.erase a, size b = h.size b
  brk : h₁.brk = h.brk

/-- The links of the memory, when only the one of `p` is still old. -/
theorem update_old_link {u w : ℕ} (hap : a ≠ p) :
    update (update (update (update ptr a u) p a) a w) p (ptr p) = update ptr a w := by
  rw [update_comm hap, update_idem, update_comm hap, update_idem, update_eq_self]

/-- There are gaps between the free blocks, and the free and the used blocks have these bytes. -/
structure Covers (h : Heap) (free used : Finset ℕ) (bytes : Set ℕ) : Prop where
  spaced : Spaced h.ptr h.size free
  bytes : spans h.size (free ∪ used) = bytes

/-- The bytes of the blocks follow from what the headers of the memory are. -/
theorem View.covers {bytes : Set ℕ} (hview : View c h₀ h ptr size)
    (hsub : headers k free' used' ⊆ c) (hspaced : Spaced ptr size free')
    (hbytes : spans size (free' ∪ used') = bytes) : Covers h free' used' bytes := by
  refine ⟨fun a ha => ?_, ?_⟩
  · have hnode := hsub (mem_headers_of_free (Finset.mem_insert_of_mem ha))
    rw [hview.ptr a hnode, hview.size a hnode]
    exact hspaced a ha
  · rw [← hbytes]
    exact spans_congr fun a ha => hview.size a (hsub (Finset.mem_insert_of_mem ha))

section
variable (hok : HeapOk k h free used) (ha : a ∈ used) (hp : p ∈ insert k.base free)
  (hbefore : Before h.ptr p a)

include hok ha hp hbefore

/-- The first half of `free`, when there is a gap between the block and the one behind it. -/
theorem joined_apart : Joined k h (h.setPtr a (h.ptr p)) p a free used
    (update (update h.ptr a (h.ptr p)) p a) h.size (insert a free) := by
  have hap : a ≠ p := by
    rintro rfl
    exact hok.list.not_mem_nodes ha hp
  have hprev : p ∈ insert k.base (insert a free) := by
    rw [Finset.insert_comm]
    exact Finset.mem_insert_of_mem hp
  have hview := (view_self (headers k free used) h).setPtr hok.list.clear (mem_headers_of_used ha)
    (v := h.ptr p) (hok.node_address (hok.list.circular.mem p hp))
  refine ⟨hok.list.link ha hp hbefore, Finset.mem_insert_self a free, hprev, Finset.Subset.refl _,
    update_self _ _ _, ?_, rfl, Nat.le_refl _, fun _ _ => rfl, rfl⟩
  rw [update_idem, update_comm hap, update_eq_self]
  exact hview

/-- The first half of `free`, when the next block is where the block ends. The two are joined. -/
theorem joined_next (hgap : a + 16 * h.size a = h.ptr p) :
    Joined k h ((h.setSize a (h.size a + h.size (h.ptr p))).setPtr a
        ((h.setSize a (h.size a + h.size (h.ptr p))).ptr
          ((h.setSize a (h.size a + h.size (h.ptr p))).ptr p))) p a free used
      (update (update (update h.ptr a (h.ptr p)) p a) a (h.ptr (h.ptr p)))
      (update h.size a (h.size a + h.size (h.ptr p))) ((insert a free).erase (h.ptr p)) := by
  have hclear := hok.list.clear
  have hap : a ≠ p := by
    rintro rfl
    exact hok.list.not_mem_nodes ha hp
  have hac : a ∈ headers k free used := mem_headers_of_used ha
  have hpc : p ∈ headers k free used := mem_headers_of_free hp
  have hx := hok.list.circular.mem p hp
  have hhigh := hok.high
  have hpos := (hok.list.placed a (Finset.mem_union_right free ha)).2.1
  have hend := (hok.list.placed a (Finset.mem_union_right free ha)).2.2
  -- The next node is not `base`, which is in front of all blocks.
  have hxfree : h.ptr p ∈ free := by
    have hbase := hok.list.base_lt (Finset.mem_union_right free ha)
    exact Finset.mem_of_mem_insert_of_ne hx (by omega)
  have hxend := (hok.list.placed _ (Finset.mem_union_left used hxfree)).2.2
  have hxp := hok.list.next_ne hp hxfree
  have hxa : h.ptr p ≠ a := by omega
  -- The links with the block `a` and the next one.
  have hPa : update (update h.ptr a (h.ptr p)) p a a = h.ptr p := by
    rw [update_of_ne hap, update_self]
  have hPx : update (update h.ptr a (h.ptr p)) p a (h.ptr p) = h.ptr (h.ptr p) := by
    rw [update_of_ne hxp, update_of_ne hxa]
  have hjoin := (hok.list.link ha hp hbefore).join (Finset.mem_insert_self a free)
    (hgap.trans hPa.symm)
  rw [hPa, hPx] at hjoin
  have hview := (view_self (headers k free used) h).setSize hclear hac
    (v := h.size a + h.size (h.ptr p)) (lt_address_end (by omega))
  have hview' := hview.setPtr hclear hac (v := h.ptr (h.ptr p))
    (hok.node_address (hok.list.circular.mem _ hx))
  rw [hview.ptr p hpc, hview.ptr _ (mem_headers_of_free hx)]
  refine ⟨hjoin, ?_, ?_, ?_, ?_, ?_, ?_, ?_, ?_, rfl⟩
  · exact Finset.mem_erase.mpr ⟨hxa.symm, Finset.mem_insert_self a free⟩
  · rcases Finset.mem_insert.mp hp with heq | hmem
    · rw [heq]
      exact Finset.mem_insert_self _ _
    · exact Finset.mem_insert_of_mem
        (Finset.mem_erase.mpr ⟨hxp.symm, Finset.mem_insert_of_mem hmem⟩)
  · exact Finset.erase_subset _ _
  · rw [update_of_ne hap.symm, update_self]
  · rw [update_old_link hap]
    exact hview'
  · exact update_of_ne hap.symm _ _
  · rw [update_self]
    exact Nat.le_add_right _ _
  · intro b hb
    exact update_of_ne (Finset.ne_of_mem_erase hb) _ _

omit hp hbefore in
/-- The step of the first half of `free`. -/
theorem joinNext_eq : joinNext h p a = if a + 16 * h.size a = h.ptr p then
      (h.setSize a (h.size a + h.size (h.ptr p))).setPtr a
        ((h.setSize a (h.size a + h.size (h.ptr p))).ptr
          ((h.setSize a (h.size a + h.size (h.ptr p))).ptr p))
      else h.setPtr a (h.ptr p) := by
  have hend := (hok.list.placed a (Finset.mem_union_right free ha)).2.2
  have hhigh := hok.high
  rw [joinNext, advance_of_lt (by omega)]

/-- The first half of `free`. It keeps the bytes of the blocks, and the gaps but the one in front of
the block. -/
theorem joinNext_ok : ∃ h₁ ptr size free₁, joinNext h p a = h₁ ∧
    Joined k h h₁ p a free used ptr size free₁ ∧ ∀ bytes, Covers h free used bytes →
      SpacedBut p ptr size free₁ ∧ spans size (free₁ ∪ used.erase a) = bytes := by
  have hstep := joinNext_eq hok ha (p := p)
  have hunion : insert a free ∪ used.erase a = free ∪ used := by
    rw [Finset.insert_union, ← Finset.union_insert, Finset.insert_erase ha]
  by_cases hgap : a + 16 * h.size a = h.ptr p
  · refine ⟨_, _, _, _, hstep.trans (if_pos hgap), joined_next hok ha hp hbefore hgap,
      fun bytes hcovers => ?_⟩
    have hx : h.ptr p ∈ free := by
      have hbase := hok.list.base_lt (Finset.mem_union_right free ha)
      exact Finset.mem_of_mem_insert_of_ne (hok.list.circular.mem p hp) (by omega)
    have hap : a ≠ p := by
      rintro rfl
      exact hok.list.not_mem_nodes ha hp
    have hPa : update (update h.ptr a (h.ptr p)) p a a = h.ptr p := by
      rw [update_of_ne hap, update_self]
    have hjoin := (hok.list.link ha hp hbefore).spans_join (Finset.mem_insert_self a free)
      (hgap.trans hPa.symm)
    rw [hPa, hunion, hcovers.bytes] at hjoin
    exact ⟨hcovers.spaced.link_join hx hgap rfl, hjoin⟩
  · refine ⟨_, _, _, _, hstep.trans (if_neg hgap), joined_apart hok ha hp hbefore,
      fun bytes hcovers => ⟨hcovers.spaced.link hgap, ?_⟩⟩
    rw [hunion, hcovers.bytes]

end

theorem View.setFreep (hview : View c h₀ h ptr size) (p : ℕ) :
    View c h₀ { h with freep := p } ptr size := ⟨hview.ptr, hview.size, hview.frame⟩

/-- The headers after a change are headers before it. -/
theorem headers_subset (ha : a ∈ used) (hsub : free' ⊆ insert a free) :
    headers k free' (used.erase a) ⊆ headers k free used := by
  intro b hb
  rcases Finset.mem_insert.mp hb with rfl | hb
  · exact Finset.mem_insert_self _ _
  · rcases Finset.mem_union.mp hb with hb | hb
    · rcases Finset.mem_insert.mp (hsub hb) with rfl | hb
      · exact mem_headers_of_used ha
      · exact mem_headers_of_free (Finset.mem_insert_of_mem hb)
    · exact mem_headers_of_used (Finset.mem_of_mem_erase hb)

/-- The invariant follows from what the headers of the memory are. -/
theorem View.heapOk (hview : View c h₀ h ptr size) (hlist : ListOk k ptr size h.brk free' used')
    (hsub : headers k free' used' ⊆ c) (hstart : h.freep ∈ insert k.base free')
    (hlow : k.initial ≤ h.brk) (hhigh : h.brk < HEAP_MAX) : HeapOk k h free' used' :=
  ⟨hlist.congr (fun a ha => hview.ptr a (hsub ha)) fun a ha => hview.size a (hsub ha),
    hstart, hlow, hhigh⟩

/-- What `free` leaves of a used block `a`. -/
structure Freed (k : System) (h h' : Heap) (a : ℕ) (free used free' : Finset ℕ) : Prop where
  ok : HeapOk k h' free' (used.erase a)
  sub : free' ⊆ insert a free
  brk : h'.brk = h.brk
  frame : ∀ i, (∀ b ∈ headers k free used, i < b ∨ b + 16 ≤ i) → h'.mem i = h.mem i
  size_used : ∀ b ∈ used.erase a, h'.size b = h.size b
  block : ∃ x ∈ free', x ≤ a ∧ a + 16 * h.size a ≤ x + 16 * h'.size x

section
variable {h₁ : Heap} {free₁ : Finset ℕ}

section

variable (hjoined : Joined k h h₁ p a free used ptr size free₁)

include hjoined

/-- The memory after the second half of `free`, when there is a gap between the block and the one in
front of it. -/
theorem Joined.view_apart (hok : HeapOk k h free used) (hp : p ∈ insert k.base free) :
    View (headers k free used) h { h₁.setPtr p a with freep := p } ptr size := by
  have hend := (hjoined.list.placed a (Finset.mem_union_left _ hjoined.mem)).2.2
  have hhigh := hok.high
  have hview := (hjoined.view.setPtr hok.list.clear (mem_headers_of_free hp) (v := a)
    (lt_address_end (by omega))).setFreep p
  -- The link of `p` was the only one that was still old.
  have hsame : update ptr p a = ptr := by
    rw [← hjoined.link, update_eq_self]
  rw [update_idem, hsame] at hview
  exact hview

/-- The second half of `free`, when there is a gap between the block and the one in front of it. -/
theorem Joined.apart (hok : HeapOk k h free used) (ha : a ∈ used) (hp : p ∈ insert k.base free) :
    Freed k h { h₁.setPtr p a with freep := p } a free used free₁ := by
  have hsub := headers_subset (k := k) ha hjoined.sub
  have hview := hjoined.view_apart hok hp
  refine ⟨?_, hjoined.sub, hjoined.brk, hview.frame, fun b hb => ?_, a, hjoined.mem,
    Nat.le_refl a, ?_⟩
  · refine hview.heapOk ?_ hsub hjoined.prev ?_ ?_
    · exact hjoined.brk.symm ▸ hjoined.list
    · exact hjoined.brk.symm ▸ hok.low
    · exact hjoined.brk.symm ▸ hok.high
  · rw [hview.size b (hsub (mem_headers_of_used hb)), hjoined.size_used b hb]
  · rw [hview.size a (mem_headers_of_used ha)]
    have := hjoined.size_le
    omega

/-- A block in front of a block without a gap is not `base`, which has the size 0 and ends in front
of the heap. -/
theorem Joined.prev_free (hgap : p + 16 * size p = a) : p ∈ free₁ := by
  refine Finset.mem_of_mem_insert_of_ne hjoined.prev ?_
  rintro rfl
  have := hjoined.list.base_lt (Finset.mem_union_left _ hjoined.mem)
  rw [hjoined.list.base] at hgap
  omega

section

variable (hok : HeapOk k h free used) (ha : a ∈ used) (hp : p ∈ insert k.base free)

include hok ha hp

/-- The memory after the second half of `free`, when the block goes on where the one in front of it
ends. -/
theorem Joined.view_join (hgap : p + 16 * size p = a) :
    View (headers k free used) h { (h₁.setSize p (size p + size a)).setPtr p
        ((h₁.setSize p (size p + size a)).ptr a) with freep := p }
      (update ptr p (ptr a)) (update size p (size p + size a)) := by
  have hlist := hjoined.list
  have hclear := hok.list.clear
  have hpc : p ∈ headers k free used := mem_headers_of_free hp
  have hap : a ≠ p := by
    rintro rfl
    exact hok.list.not_mem_nodes ha hp
  have hend := (hlist.placed a (Finset.mem_union_left _ hjoined.mem)).2.2
  have hhigh := hok.high
  have hview := hjoined.view.setSize hclear hpc (v := size p + size a) (lt_address_end (by omega))
  have hlink : ptr a < ADDRESS_END := by
    have hmem := hlist.circular.mem a (Finset.mem_insert_of_mem hjoined.mem)
    have := hlist.node_lt hok.low hmem
    exact lt_address_end (by omega)
  have hview' := (hview.setPtr hclear hpc hlink).setFreep p
  have hread : (h₁.setSize p (size p + size a)).ptr a = ptr a := by
    rw [hview.ptr a (mem_headers_of_used ha), update_of_ne hap]
  rw [update_idem] at hview'
  rw [hread]
  exact hview'

/-- The second half of `free`, when the block goes on where the one in front of it ends. -/
theorem Joined.join (hgap : p + 16 * size p = a) :
    Freed k h { (h₁.setSize p (size p + size a)).setPtr p
        ((h₁.setSize p (size p + size a)).ptr a) with freep := p } a free used (free₁.erase a) := by
  have hpfree := hjoined.prev_free hgap
  have hap : a ≠ p := by
    rintro rfl
    exact hok.list.not_mem_nodes ha hp
  have hpnew : p ∈ free₁.erase a := Finset.mem_erase.mpr ⟨hap.symm, hpfree⟩
  have hjoin := hjoined.list.join hpfree (hgap.trans hjoined.link.symm)
  rw [hjoined.link] at hjoin
  have hview := hjoined.view_join hok ha hp hgap
  have hsub := (Finset.erase_subset a free₁).trans hjoined.sub
  have hheaders : headers k (free₁.erase a) (used.erase a) ⊆ headers k free used :=
    headers_subset ha hsub
  refine ⟨?_, hsub, hjoined.brk, hview.frame, fun b hb => ?_, p, hpnew, ?_, ?_⟩
  · refine hview.heapOk ?_ hheaders (Finset.mem_insert_of_mem hpnew) ?_ ?_
    · exact hjoined.brk.symm ▸ hjoin
    · exact hjoined.brk.symm ▸ hok.low
    · exact hjoined.brk.symm ▸ hok.high
  · have hbp : b ≠ p := by
      rintro rfl
      exact Finset.disjoint_left.mp hjoined.list.disjoint hpfree hb
    rw [hview.size b (hheaders (mem_headers_of_used hb)), update_of_ne hbp,
      hjoined.size_used b hb]
  · omega
  · rw [hview.size p (mem_headers_of_free hp), update_self]
    have := hjoined.size_le
    omega

/-- The step of the second half of `free`. -/
theorem Joined.joinPrev_eq :
    joinPrev h₁ p a = if p + 16 * size p = a then
      (h₁.setSize p (size p + size a)).setPtr p ((h₁.setSize p (size p + size a)).ptr a)
      else h₁.setPtr p a := by
  have hhigh := hok.high
  have hpend : p + 16 * size p ≤ h.brk := by
    rcases Finset.mem_insert.mp hjoined.prev with hbase | hmem
    · rw [hbase, hjoined.list.base]
      have := hok.node_lt (Finset.mem_insert_self k.base free)
      omega
    · exact (hjoined.list.placed p (Finset.mem_union_left _ hmem)).2.2
  have hsize : h₁.size p = size p := hjoined.view.size p (mem_headers_of_free hp)
  rw [← hjoined.view.size a (mem_headers_of_used ha), ← hsize]
  rw [joinPrev, advance_of_lt (by rw [hsize]; omega)]

/-- The second half of `free`. It keeps the bytes of the blocks, and there are all gaps behind it.
-/
theorem joinPrev_ok :
    ∃ h₂ free₂, joinPrev h₁ p a = h₂ ∧ Freed k h { h₂ with freep := p } a free used free₂ ∧
      ∀ bytes, SpacedBut p ptr size free₁ → spans size (free₁ ∪ used.erase a) = bytes →
        Covers { h₂ with freep := p } free₂ (used.erase a) bytes := by
  have hstep := hjoined.joinPrev_eq hok ha hp
  have hlink := hjoined.link
  by_cases hgap : p + 16 * size p = a
  · refine ⟨_, _, hstep.trans (if_pos hgap), hjoined.join hok ha hp hgap,
      fun bytes hspaced hbytes => ?_⟩
    have hpfree := hjoined.prev_free hgap
    have hsub : headers k (free₁.erase a) (used.erase a) ⊆ headers k free used :=
      headers_subset ha ((Finset.erase_subset a free₁).trans hjoined.sub)
    have hap : a ≠ p := by
      rintro rfl
      exact hok.list.not_mem_nodes ha hp
    have hgaps := hspaced.join (hlink ▸ hjoined.mem) (hlink ▸ hap) (hgap.trans hlink.symm)
    have hspans := hjoined.list.spans_join hpfree (hgap.trans hlink.symm)
    rw [hlink] at hgaps hspans
    exact (hjoined.view_join hok ha hp hgap).covers hsub hgaps (hspans.trans hbytes)
  · refine ⟨_, _, hstep.trans (if_neg hgap), hjoined.apart hok ha hp,
      fun bytes hspaced hbytes => ?_⟩
    exact (hjoined.view_apart hok hp).covers (headers_subset ha hjoined.sub)
      (hspaced.spaced fun htouch => hgap (htouch.trans hlink)) hbytes

end

end

end

/-- `free` ends and keeps the invariant, and the block is free. No byte leaves the blocks, and no
two free blocks touch. -/
theorem free_covers (hok : HeapOk k h free used) (ha : a ∈ used) :
    ∃ h' free', DzOS.Libc.free h (a + 16) = .ok h' ∧ Freed k h h' a free used free' ∧
      ∀ bytes, Covers h free used bytes → Covers h' free' (used.erase a) bytes := by
  obtain ⟨p, hp, hfind, hbefore⟩ := findPlace_found hok.list.circular hok.start
    (hok.list.not_mem_nodes ha) (Nat.le_of_add_right_le hok.card_lt)
  obtain ⟨h₁, ptr, size, free₁, hnext, hjoined, hfirst⟩ := joinNext_ok hok ha hp hbefore
  subst hnext
  obtain ⟨h₂, free₂, hprev, hfreed, hsecond⟩ := joinPrev_ok hjoined hok ha hp
  subst hprev
  refine ⟨_, free₂, (if_neg (by omega)).trans ?_, hfreed, fun bytes hcovers => ?_⟩
  · rw [Nat.add_sub_cancel]
    exact bind_ok hfind
  · obtain ⟨hspaced, hbytes⟩ := hfirst bytes hcovers
    exact hsecond bytes hspaced hbytes

/-- `free` keeps the invariant, and the block is free. -/
theorem free_ok (hok : HeapOk k h free used) (ha : a ∈ used) :
    ∃ h' free', DzOS.Libc.free h (a + 16) = .ok h' ∧ Freed k h h' a free used free' := by
  obtain ⟨h', free', hfree, hfreed, -⟩ := free_covers hok ha
  exact ⟨h', free', hfree, hfreed⟩

end DzOS.Proofs.Libc
