import DzOS.Lib.Circular
import DzOS.Libc.Malloc

/-!
# `DzOS.Proofs.Libc.FreeList`: the list of the free blocks

The free blocks and `base` are a circular list in ascending order, and the free and the used blocks
do not overlap. `ListOk` states it for any functions from a header to its link and to its size, with
a rule for each change of the list: a used block is added, two blocks without a gap are joined, a
block is taken out or split, and the heap grows. `View` connects the functions with the memory: a
store to a header is an update of one of them.
-/

set_option autoImplicit false

namespace DzOS.Proofs.Libc

open DzOS.Lib DzOS.Libc Function

/-! ### Headers in memory -/

/-- Two headers do not overlap. -/
def Clear (a b : ℕ) : Prop := a + 16 ≤ b ∨ b + 16 ≤ a

variable {h h₀ : Heap} {a b v : ℕ}

theorem address_end : 256 ^ 8 = ADDRESS_END := by
  unfold ADDRESS_END
  norm_num

theorem ptr_setPtr_self (hv : v < ADDRESS_END) : (h.setPtr a v).ptr a = v := by
  rw [Heap.ptr, Heap.setPtr, Bytes.getLE_setLE_self, address_end, Nat.mod_eq_of_lt hv]

theorem size_setSize_self (hv : v < ADDRESS_END) : (h.setSize a v).size a = v := by
  rw [Heap.size, Heap.setSize, Bytes.getLE_setLE_self, address_end, Nat.mod_eq_of_lt hv]

theorem size_setPtr_self : (h.setPtr a v).size a = h.size a :=
  Bytes.getLE_setLE_of_apart (.inr (Nat.le_refl (a + 8)))

theorem ptr_setSize_self : (h.setSize a v).ptr a = h.ptr a :=
  Bytes.getLE_setLE_of_apart (.inl (Nat.le_refl (a + 8)))

theorem ptr_setPtr (hclear : Clear a b) : (h.setPtr a v).ptr b = h.ptr b := by
  unfold Clear at hclear
  exact Bytes.getLE_setLE_of_apart (by omega)

theorem size_setPtr (hclear : Clear a b) : (h.setPtr a v).size b = h.size b := by
  unfold Clear at hclear
  exact Bytes.getLE_setLE_of_apart (by omega)

theorem ptr_setSize (hclear : Clear a b) : (h.setSize a v).ptr b = h.ptr b := by
  unfold Clear at hclear
  exact Bytes.getLE_setLE_of_apart (by omega)

theorem size_setSize (hclear : Clear a b) : (h.setSize a v).size b = h.size b := by
  unfold Clear at hclear
  exact Bytes.getLE_setLE_of_apart (by omega)

/-- The headers `c` of the memory have these links and sizes, and the other bytes are as in `h₀`. -/
structure View (c : Finset ℕ) (h₀ h : Heap) (ptr size : ℕ → ℕ) : Prop where
  ptr : ∀ a ∈ c, h.ptr a = ptr a
  size : ∀ a ∈ c, h.size a = size a
  frame : ∀ i, (∀ a ∈ c, i < a ∨ a + 16 ≤ i) → h.mem i = h₀.mem i

variable {c : Finset ℕ} {ptr size : ℕ → ℕ}

theorem view_self (c : Finset ℕ) (h : Heap) : View c h h h.ptr h.size :=
  ⟨fun _ _ => rfl, fun _ _ => rfl, fun _ _ => rfl⟩

section

variable (hview : View c h₀ h ptr size) (hclear : (c : Set ℕ).Pairwise Clear) (ha : a ∈ c)
  (hv : v < ADDRESS_END)

include hview hclear ha hv

/-- A store of a link. -/
theorem View.setPtr : View c h₀ (h.setPtr a v) (update ptr a v) size := by
  refine ⟨fun b hb => ?_, fun b hb => ?_, fun i hi => ?_⟩
  · by_cases hab : b = a
    · rw [hab, update_self, ptr_setPtr_self hv]
    · rw [update_of_ne hab, ptr_setPtr (hclear ha hb (Ne.symm hab)), hview.ptr b hb]
  · by_cases hab : b = a
    · rw [hab, size_setPtr_self, hview.size a ha]
    · rw [size_setPtr (hclear ha hb (Ne.symm hab)), hview.size b hb]
  · rw [← hview.frame i hi]
    have := hi a ha
    exact Bytes.setLE_of_apart (by omega)

/-- A store of a size. -/
theorem View.setSize : View c h₀ (h.setSize a v) ptr (update size a v) := by
  refine ⟨fun b hb => ?_, fun b hb => ?_, fun i hi => ?_⟩
  · by_cases hab : b = a
    · rw [hab, ptr_setSize_self, hview.ptr a ha]
    · rw [ptr_setSize (hclear ha hb (Ne.symm hab)), hview.ptr b hb]
  · by_cases hab : b = a
    · rw [hab, update_self, size_setSize_self hv]
    · rw [update_of_ne hab, size_setSize (hclear ha hb (Ne.symm hab)), hview.size b hb]
  · rw [← hview.frame i hi]
    have := hi a ha
    exact Bytes.setLE_of_apart (by omega)

end

/-! ### The list -/

/-- The list of the free blocks, and the used blocks, for functions that give links and sizes. -/
structure ListOk (k : System) (ptr size : ℕ → ℕ) (brk : ℕ) (free used : Finset ℕ) : Prop where
  circular : Circular (insert k.base free) ptr
  base : size k.base = 0
  placed : ∀ a ∈ free ∪ used, k.initial ≤ a ∧ 0 < size a ∧ a + 16 * size a ≤ brk
  apart : ∀ a ∈ free ∪ used, ∀ b ∈ free ∪ used, a < b → a + 16 * size a ≤ b
  disjoint : Disjoint free used

variable {k : System} {ptr' size' : ℕ → ℕ} {brk p x : ℕ} {free used : Finset ℕ}

/-- The blocks and `base`. -/
abbrev headers (k : System) (free used : Finset ℕ) : Finset ℕ := insert k.base (free ∪ used)

theorem mem_headers_of_free (ha : a ∈ insert k.base free) : a ∈ headers k free used := by
  rcases Finset.mem_insert.mp ha with rfl | ha
  · exact Finset.mem_insert_self _ _
  · exact Finset.mem_insert_of_mem (Finset.mem_union_left used ha)

theorem mem_headers_of_used (ha : a ∈ used) : a ∈ headers k free used :=
  Finset.mem_insert_of_mem (Finset.mem_union_right free ha)

section

variable (hok : ListOk k ptr size brk free used)

include hok

/-- The invariant depends on the links and the sizes of the blocks only. -/
theorem ListOk.congr (hptr : ∀ a ∈ headers k free used, ptr' a = ptr a)
    (hsize : ∀ a ∈ headers k free used, size' a = size a) : ListOk k ptr' size' brk free used := by
  have hblock : ∀ a ∈ free ∪ used, size' a = size a :=
    fun a ha => hsize a (Finset.mem_insert_of_mem ha)
  refine ⟨hok.circular.congr fun a ha => hptr a (mem_headers_of_free ha), ?_, fun a ha => ?_,
    fun a ha => ?_, hok.disjoint⟩
  · rw [hsize _ (Finset.mem_insert_self _ _), hok.base]
  · rw [hblock a ha]
    exact hok.placed a ha
  · rw [hblock a ha]
    exact hok.apart a ha

/-- `base` is in front of the blocks. -/
theorem ListOk.base_lt (ha : a ∈ free ∪ used) : k.base + 16 ≤ a :=
  k.base_below.trans (hok.placed a ha).1

/-- The headers do not overlap. -/
theorem ListOk.clear : (headers k free used : Set ℕ).Pairwise Clear := by
  intro a ha b hb hne
  rw [Finset.mem_coe, Finset.mem_insert] at ha hb
  unfold Clear
  rcases ha with rfl | ha
  · rcases hb with rfl | hb
    · exact absurd rfl hne
    · exact .inl (hok.base_lt hb)
  · rcases hb with rfl | hb
    · exact .inr (hok.base_lt ha)
    · have hapos := (hok.placed a ha).2.1
      have hbpos := (hok.placed b hb).2.1
      rcases Nat.lt_or_gt_of_ne hne with hlt | hlt
      · have := hok.apart a ha b hb hlt
        omega
      · have := hok.apart b hb a ha hlt
        omega

/-- A node with a size is a block. -/
theorem ListOk.mem_free (ha : a ∈ insert k.base free) (hpos : 0 < size a) : a ∈ free := by
  rcases Finset.mem_insert.mp ha with rfl | ha
  · rw [hok.base] at hpos
    exact absurd hpos (Nat.lt_irrefl 0)
  · exact ha

/-- A block is behind another node. -/
theorem ListOk.next_ne (hp : p ∈ insert k.base free) (hx : ptr p ∈ free) : ptr p ≠ p := by
  intro heq
  have hbase := hok.base_lt (Finset.mem_union_left used hx)
  refine hok.circular.next_ne hp (Finset.mem_insert_self _ _) ?_ heq
  omega

/-- A used block is not in the list. -/
theorem ListOk.not_mem_nodes (ha : a ∈ used) : a ∉ insert k.base free := by
  intro hmem
  rcases Finset.mem_insert.mp hmem with rfl | hmem
  · have := hok.base_lt (Finset.mem_union_right free ha)
    omega
  · exact Finset.disjoint_left.mp hok.disjoint hmem ha

end

/-! ### The changes of the list -/

/-- A used block is added to the list. -/
theorem ListOk.link (hok : ListOk k ptr size brk free used) (ha : a ∈ used)
    (hp : p ∈ insert k.base free) (hbefore : Before ptr p a) :
    ListOk k (update (update ptr a (ptr p)) p a) size brk (insert a free) (used.erase a) := by
  have hnot := hok.not_mem_nodes ha
  have hap : a ≠ p := fun heq => hnot (heq ▸ hp)
  -- The blocks stay where they are. Only the list changes.
  have hunion : insert a free ∪ used.erase a = free ∪ used := by
    rw [Finset.insert_union, ← Finset.union_insert, Finset.insert_erase ha]
  refine ⟨?_, hok.base, ?_, ?_, ?_⟩
  · rw [Finset.insert_comm]
    refine hok.circular.insert hp hbefore (update_self _ _ _) ?_ fun x hx hxp => ?_
    · rw [update_of_ne hap, update_self]
    · have hxa : x ≠ a := by
        rintro rfl
        exact hnot hx
      rw [update_of_ne hxp, update_of_ne hxa]
  · rw [hunion]
    exact hok.placed
  · rw [hunion]
    exact hok.apart
  · rw [Finset.disjoint_insert_left]
    exact ⟨Finset.notMem_erase a used, hok.disjoint.mono_right (Finset.erase_subset a used)⟩

/-- The block behind a free block without a gap is a free block too. -/
theorem ListOk.next_mem (hok : ListOk k ptr size brk free used) (ha : a ∈ free)
    (hgap : a + 16 * size a = ptr a) : ptr a ∈ free ∧ ptr a ≠ a := by
  have hmem := hok.circular.mem a (Finset.mem_insert_of_mem ha)
  obtain ⟨hlow, hpos, -⟩ := hok.placed a (Finset.mem_union_left used ha)
  have := k.base_below
  rcases Finset.mem_insert.mp hmem with hbase | hmem
  · omega
  · exact ⟨hmem, by omega⟩

/-- A free block is joined with the next one. -/
theorem ListOk.join (hok : ListOk k ptr size brk free used) (ha : a ∈ free)
    (hgap : a + 16 * size a = ptr a) :
    ListOk k (update ptr a (ptr (ptr a))) (update size a (size a + size (ptr a))) brk
      (free.erase (ptr a)) used := by
  obtain ⟨hx, hxa⟩ := hok.next_mem ha hgap
  have hxb : ptr a ≠ k.base := by
    have := hok.base_lt (Finset.mem_union_left used hx)
    omega
  have hab : a ≠ k.base := by
    have := hok.base_lt (Finset.mem_union_left used ha)
    omega
  have hold : ∀ b ∈ free.erase (ptr a) ∪ used, b ∈ free ∪ used := fun b hb =>
    Finset.union_subset_union_left (Finset.erase_subset _ _) hb
  have hne : ∀ b ∈ free.erase (ptr a) ∪ used, b ≠ ptr a := by
    rintro b hb rfl
    rcases Finset.mem_union.mp hb with hb | hb
    · exact Finset.notMem_erase _ _ hb
    · exact Finset.disjoint_left.mp hok.disjoint hx hb
  have hfree := Finset.mem_union_left used ha
  have hnext := Finset.mem_union_left used hx
  refine ⟨?_, ?_, fun b hb => ?_, fun b hb d hd hlt => ?_, ?_⟩
  · rw [← Finset.erase_insert_of_ne hxb.symm]
    refine hok.circular.erase (Finset.mem_insert_of_mem ha) hxa (update_self _ _ _) ?_
    exact fun x _ hxa _ => update_of_ne hxa _ _
  · rw [update_of_ne hab.symm, hok.base]
  · obtain ⟨hlow, hpos, hend⟩ := hok.placed b (hold b hb)
    by_cases hba : b = a
    · subst hba
      have := hok.placed _ hnext
      rw [update_self]
      omega
    · rw [update_of_ne hba]
      exact ⟨hlow, hpos, hend⟩
  · by_cases hba : b = a
    · subst hba
      rw [update_self]
      have h1 := hok.apart b hfree d (hold d hd) hlt
      have h2 := hok.apart _ hnext d (hold d hd) (by have := hne d hd; omega)
      omega
    · rw [update_of_ne hba]
      exact hok.apart b (hold b hb) d (hold d hd) hlt
  · exact hok.disjoint.mono_left (Finset.erase_subset _ _)

/-- The next block is taken out of the list. -/
theorem ListOk.unlink (hok : ListOk k ptr size brk free used) (hp : p ∈ insert k.base free)
    (hpos : 0 < size (ptr p)) :
    ListOk k (update ptr p (ptr (ptr p))) size brk (free.erase (ptr p)) (insert (ptr p) used) := by
  have hx := hok.mem_free (hok.circular.mem p hp) hpos
  have hxb : ptr p ≠ k.base := by
    have := hok.base_lt (Finset.mem_union_left used hx)
    omega
  have hxp := hok.next_ne hp hx
  have hunion : free.erase (ptr p) ∪ insert (ptr p) used = free ∪ used := by
    rw [Finset.union_insert, ← Finset.insert_union, Finset.insert_erase hx]
  refine ⟨?_, hok.base, ?_, ?_, ?_⟩
  · rw [← Finset.erase_insert_of_ne hxb.symm]
    refine hok.circular.erase hp hxp (update_self _ _ _) ?_
    exact fun x _ hxp _ => update_of_ne hxp _ _
  · rw [hunion]
    exact hok.placed
  · rw [hunion]
    exact hok.apart
  · rw [Finset.disjoint_insert_right]
    exact ⟨Finset.notMem_erase _ _, hok.disjoint.mono_left (Finset.erase_subset _ _)⟩

/-- The end of a free block is split off. -/
theorem ListOk.split (hok : ListOk k ptr size brk free used) (hx : x ∈ free) {n : ℕ} (hn : 0 < n)
    (hlt : n < size x) :
    x + 16 * (size x - n) ∉ headers k free used ∧
      ListOk k ptr (update (update size x (size x - n)) (x + 16 * (size x - n)) n) brk free
        (insert (x + 16 * (size x - n)) used) := by
  obtain ⟨a, ha⟩ : ∃ a, a = x + 16 * (size x - n) := ⟨_, rfl⟩
  rw [← ha]
  have hfree := Finset.mem_union_left used hx
  obtain ⟨hlow, hpos, hend⟩ := hok.placed x hfree
  -- The new block starts inside of `x`, where no other block does.
  have hnew : ∀ b ∈ free ∪ used, b ≠ a := by
    rintro b hb rfl
    have := hok.apart x hfree b hb (by omega)
    omega
  have hab : a ≠ k.base := by
    have := hok.base_lt hfree
    omega
  have hunion : free ∪ insert a used = insert a (free ∪ used) := Finset.union_insert a free used
  refine ⟨fun hmem => ?_, hok.circular, ?_, ?_, ?_, ?_⟩
  · rcases Finset.mem_insert.mp hmem with heq | hmem
    · exact hab heq
    · exact hnew a hmem rfl
  · have hxb : x ≠ k.base := by
      have := hok.base_lt hfree
      omega
    rw [update_of_ne hab.symm, update_of_ne hxb.symm, hok.base]
  · rw [hunion]
    intro b hb
    rcases Finset.mem_insert.mp hb with rfl | hb
    · rw [update_self]
      omega
    · rw [update_of_ne (hnew b hb)]
      by_cases hbx : b = x
      · rw [hbx, update_self]
        omega
      · rw [update_of_ne hbx]
        exact hok.placed b hb
  · rw [hunion]
    intro b hmem d hd hbd
    rcases Finset.mem_insert.mp hmem with rfl | hb
    · rw [update_self]
      rcases Finset.mem_insert.mp hd with rfl | hd
      · omega
      · have := hok.apart x hfree d hd (by omega)
        omega
    · rw [update_of_ne (hnew b hb)]
      -- `x` ends where the new block starts, and the other blocks were in front of `x` or behind
      -- it.
      by_cases hbx : b = x
      · rw [hbx, update_self]
        rcases Finset.mem_insert.mp hd with rfl | hd
        · omega
        · have := hok.apart x hfree d hd (by omega)
          omega
      · rw [update_of_ne hbx]
        have hbpos := hok.placed b hb
        rcases Finset.mem_insert.mp hd with rfl | hd
        · rcases Nat.lt_or_gt_of_ne hbx with hlt' | hlt'
          · have := hok.apart b hb x hfree hlt'
            omega
          · have := hok.apart x hfree b hb hlt'
            omega
        · exact hok.apart b hb d hd hbd
  · rw [Finset.disjoint_insert_right]
    exact ⟨fun hmem => hnew a (Finset.mem_union_left used hmem) rfl, hok.disjoint⟩

/-- The heap grows by a used block. -/
theorem ListOk.grow (hok : ListOk k ptr size brk free used) (hbrk : k.initial ≤ brk) {nu : ℕ}
    (hnu : 0 < nu) :
    brk ∉ headers k free used ∧
      ListOk k ptr (update size brk nu) (brk + 16 * nu) free (insert brk used) := by
  have hnew : ∀ b ∈ free ∪ used, b ≠ brk := by
    rintro b hb rfl
    have := hok.placed b hb
    omega
  have hbase : brk ≠ k.base := by
    have := k.base_below
    omega
  have hunion : free ∪ insert brk used = insert brk (free ∪ used) :=
    Finset.union_insert brk free used
  refine ⟨fun hmem => ?_, hok.circular, ?_, ?_, ?_, ?_⟩
  · rcases Finset.mem_insert.mp hmem with heq | hmem
    · exact hbase heq
    · exact hnew brk hmem rfl
  · rw [update_of_ne hbase.symm, hok.base]
  · rw [hunion]
    intro b hb
    rcases Finset.mem_insert.mp hb with rfl | hb
    · rw [update_self]
      omega
    · rw [update_of_ne (hnew b hb)]
      have := hok.placed b hb
      omega
  · rw [hunion]
    intro b hmem d hd hbd
    rcases Finset.mem_insert.mp hmem with rfl | hb
    · rcases Finset.mem_insert.mp hd with rfl | hd
      · omega
      · have := hok.placed d hd
        omega
    · rw [update_of_ne (hnew b hb)]
      rcases Finset.mem_insert.mp hd with rfl | hd
      · exact (hok.placed b hb).2.2
      · exact hok.apart b hb d hd hbd
  · rw [Finset.disjoint_insert_right]
    exact ⟨fun hmem => hnew brk (Finset.mem_union_left used hmem) rfl, hok.disjoint⟩

end DzOS.Proofs.Libc
