import Mathlib.Data.Set.Lattice
import DzOS.Proofs.Libc.FreeList

/-!
# `DzOS.Proofs.Libc.Spans`: the bytes of the blocks

`spans size blocks` are the bytes of some blocks, with their headers. To link a block and to take
one out moves it between the free and the used blocks, and to join or split blocks only moves the
limits between them, so all blocks together keep their bytes.

`Spaced` states that the next node of the list never starts where a free block ends. So no two free
blocks touch each other (`Spaced.apart`).
-/

set_option autoImplicit false

namespace DzOS.Proofs.Libc

open DzOS.Lib DzOS.Libc Function

variable {n a b brk p x i : ℕ} {k : System} {ptr size size' : ℕ → ℕ} {blocks free used : Finset ℕ}

/-! ### Bytes -/

/-- The bytes of the blocks, with their headers. -/
def spans (size : ℕ → ℕ) (blocks : Finset ℕ) : Set ℕ :=
  {i | ∃ a ∈ blocks, a ≤ i ∧ i < a + 16 * size a}

theorem mem_spans : i ∈ spans size blocks ↔ ∃ a ∈ blocks, a ≤ i ∧ i < a + 16 * size a := Iff.rfl

theorem spans_congr (hsize : ∀ a ∈ blocks, size' a = size a) :
    spans size' blocks = spans size blocks := by
  ext i
  simp only [mem_spans]
  refine exists_congr fun a => and_congr_right fun ha => ?_
  rw [hsize a ha]

/-- A block and the others. -/
theorem spans_insert (ha : a ∉ blocks) (n : ℕ) :
    spans (update size a n) (insert a blocks) = Set.Ico a (a + 16 * n) ∪ spans size blocks := by
  have hothers : ∀ b ∈ blocks, update size a n b = size b := by
    rintro b hb
    refine update_of_ne ?_ _ _
    rintro rfl
    exact ha hb
  ext i
  rw [Set.mem_union, ← spans_congr hothers, mem_spans, Finset.exists_mem_insert, update_self]
  rfl

/-- Two blocks without a gap have the bytes of one. -/
theorem ListOk.spans_join (hok : ListOk k ptr size brk free used) (ha : a ∈ free)
    (hgap : a + 16 * size a = ptr a) :
    spans (update size a (size a + size (ptr a))) (free.erase (ptr a) ∪ used) =
      spans size (free ∪ used) := by
  obtain ⟨hx, hxa⟩ := hok.next_mem ha hgap
  generalize ptr a = x at hgap hx hxa ⊢
  ext i
  simp only [mem_spans]
  constructor
  · rintro ⟨b, hb, hlow, hhigh⟩
    by_cases hba : b = a
    · subst hba
      rw [update_self] at hhigh
      -- The byte is in the first block or in the second one.
      by_cases hfirst : i < b + 16 * size b
      · exact ⟨b, Finset.mem_union_left used ha, hlow, hfirst⟩
      · exact ⟨x, Finset.mem_union_left used hx, by omega, by omega⟩
    · rw [update_of_ne hba] at hhigh
      exact ⟨b, Finset.union_subset_union_left (Finset.erase_subset _ _) hb, hlow, hhigh⟩
  · rintro ⟨b, hb, hlow, hhigh⟩
    have hkeep : a ∈ free.erase x ∪ used :=
      Finset.mem_union_left used (Finset.mem_erase.mpr ⟨hxa.symm, ha⟩)
    by_cases hba : b = a
    · subst hba
      refine ⟨b, hkeep, hlow, ?_⟩
      rw [update_self]
      omega
    · by_cases hbx : b = x
      · subst hbx
        refine ⟨a, hkeep, by omega, ?_⟩
        rw [update_self]
        omega
      · refine ⟨b, ?_, hlow, ?_⟩
        · rw [Finset.mem_union, Finset.mem_erase]
          exact (Finset.mem_union.mp hb).imp_left fun hfree => ⟨hbx, hfree⟩
        · rw [update_of_ne hba]
          exact hhigh

/-- The two parts of a split block have its bytes. -/
theorem ListOk.spans_split (hok : ListOk k ptr size brk free used) (hx : x ∈ free) (hn : 0 < n)
    (hlt : n < size x) :
    spans (update (update size x (size x - n)) (x + 16 * (size x - n)) n)
      (free ∪ insert (x + 16 * (size x - n)) used) = spans size (free ∪ used) := by
  obtain ⟨hnew, -⟩ := hok.split hx hn hlt
  obtain ⟨a, ha⟩ : ∃ a, a = x + 16 * (size x - n) := ⟨_, rfl⟩
  rw [← ha] at hnew ⊢
  have hblock : a ∉ free ∪ used := fun hmem => hnew (Finset.mem_insert_of_mem hmem)
  have hold : x ∉ (free ∪ used).erase x := Finset.notMem_erase x _
  have hall : insert x ((free ∪ used).erase x) = free ∪ used :=
    Finset.insert_erase (Finset.mem_union_left used hx)
  have hsame : spans size (free ∪ used) =
      Set.Ico x (x + 16 * size x) ∪ spans size ((free ∪ used).erase x) := by
    rw [← spans_insert hold, update_eq_self, hall]
  rw [Finset.union_insert, spans_insert hblock, ← hall, spans_insert hold, hall, hsame,
    ← Set.union_assoc]
  congr 1
  ext i
  simp only [Set.mem_union, Set.mem_Ico]
  omega

/-- New memory adds its bytes. -/
theorem ListOk.spans_grow (hok : ListOk k ptr size brk free used) (hbrk : k.initial ≤ brk) {nu : ℕ}
    (hnu : 0 < nu) : spans (update size brk nu) (free ∪ insert brk used) =
      Set.Ico brk (brk + 16 * nu) ∪ spans size (free ∪ used) := by
  obtain ⟨hnew, -⟩ := hok.grow hbrk hnu
  have hblock : brk ∉ free ∪ used := fun hmem => hnew (Finset.mem_insert_of_mem hmem)
  rw [Finset.union_insert, spans_insert hblock]

/-! ### Gaps -/

/-- Behind the end of a free block is a gap, but perhaps not behind `p`. -/
def SpacedBut (p : ℕ) (ptr size : ℕ → ℕ) (free : Finset ℕ) : Prop :=
  ∀ a ∈ free, a ≠ p → a + 16 * size a ≠ ptr a

/-- Behind the end of a free block is a gap: the next node starts elsewhere. -/
def Spaced (ptr size : ℕ → ℕ) (free : Finset ℕ) : Prop := ∀ a ∈ free, a + 16 * size a ≠ ptr a

/-- A node where a free block ends is the next one. -/
theorem ListOk.next_of_touch (hok : ListOk k ptr size brk free used) (ha : a ∈ free)
    (hx : a + 16 * size a ∈ free) : ptr a = a + 16 * size a := by
  have hblock := Finset.mem_union_left used ha
  have hpos := (hok.placed a hblock).2.1
  obtain ⟨hup, hle⟩ := hok.circular.next_of_lt (Finset.mem_insert_of_mem ha)
    (Finset.mem_insert_of_mem hx) (by omega)
  have hnext := hok.circular.mem a (Finset.mem_insert_of_mem ha)
  -- The next node cannot start inside of the block.
  have hfree : ptr a ∈ free := by
    refine Finset.mem_of_mem_insert_of_ne hnext ?_
    have := hok.base_lt hblock
    omega
  have hafter := hok.apart a hblock _ (Finset.mem_union_left used hfree) hup
  omega

/-- Free blocks do not touch each other. -/
theorem Spaced.apart (hspaced : Spaced ptr size free) (hok : ListOk k ptr size brk free used)
    (ha : a ∈ free) (hb : b ∈ free) : a + 16 * size a ≠ b := by
  rintro rfl
  exact hspaced a ha (hok.next_of_touch ha hb).symm

/-- The gaps of a list with a new block, but perhaps not the one in front of it. -/
theorem Spaced.link (hspaced : Spaced ptr size free) (hgap : a + 16 * size a ≠ ptr p) :
    SpacedBut p (update (update ptr a (ptr p)) p a) size (insert a free) := by
  intro b hb hbp
  rw [update_of_ne hbp]
  by_cases hba : b = a
  · rw [hba, update_self]
    exact hgap
  · rw [update_of_ne hba]
    exact hspaced b (Finset.mem_of_mem_insert_of_ne hb hba)

/-- The gaps of a list with a new block that is joined with the next one. -/
theorem Spaced.link_join (hspaced : Spaced ptr size free) (hx : ptr p ∈ free)
    (hgap : a + 16 * size a = ptr p) (hn : n = size a + size (ptr p)) :
    SpacedBut p (update (update (update ptr a (ptr p)) p a) a (ptr (ptr p))) (update size a n)
      ((insert a free).erase (ptr p)) := by
  intro b hb hbp
  obtain ⟨-, hmem⟩ := Finset.mem_erase.mp hb
  by_cases hba : b = a
  · rw [hba, update_self, update_self]
    -- The joined block ends where the next one did.
    have := hspaced _ hx
    omega
  · rw [update_of_ne hba, update_of_ne hba, update_of_ne hbp, update_of_ne hba]
    exact hspaced b (Finset.mem_of_mem_insert_of_ne hmem hba)

/-- A gap behind `p` too. -/
theorem SpacedBut.spaced (hspaced : SpacedBut p ptr size free) (hgap : p + 16 * size p ≠ ptr p) :
    Spaced ptr size free := by
  intro b hb
  by_cases hbp : b = p
  · rw [hbp]
    exact hgap
  · exact hspaced b hb hbp

/-- The block in front of a gap is joined with the one behind it. -/
theorem SpacedBut.join (hspaced : SpacedBut p ptr size free) (hx : ptr p ∈ free) (hxp : ptr p ≠ p)
    (hgap : p + 16 * size p = ptr p) :
    Spaced (update ptr p (ptr (ptr p))) (update size p (size p + size (ptr p)))
      (free.erase (ptr p)) := by
  intro b hb
  by_cases hbp : b = p
  · rw [hbp, update_self, update_self]
    have := hspaced _ hx hxp
    omega
  · rw [update_of_ne hbp, update_of_ne hbp]
    exact hspaced b (Finset.mem_of_mem_erase hb) hbp

/-- The next block is taken out. -/
theorem Spaced.unlink (hspaced : Spaced ptr size free) (hok : ListOk k ptr size brk free used)
    (hp : p ∈ insert k.base free) (hx : ptr p ∈ free) :
    Spaced (update ptr p (ptr (ptr p))) size (free.erase (ptr p)) := by
  intro b hb
  have hfree := Finset.mem_of_mem_erase hb
  by_cases hbp : b = p
  · subst hbp
    rw [update_self]
    intro htouch
    have hnode := hok.circular.mem _ (Finset.mem_insert_of_mem hx)
    have hbase := hok.base_lt (Finset.mem_union_left used hfree)
    have hnext : b + 16 * size b ∈ free := by
      rw [htouch]
      refine Finset.mem_of_mem_insert_of_ne hnode ?_
      omega
    exact hspaced.apart hok hfree hnext rfl
  · rw [update_of_ne hbp]
    exact hspaced b hfree

/-- A block that is split ends where the new block starts. -/
theorem Spaced.split (hspaced : Spaced ptr size free) (hok : ListOk k ptr size brk free used)
    (hx : x ∈ free) (hn : 0 < n) (hlt : n < size x) :
    Spaced ptr (update (update size x (size x - n)) (x + 16 * (size x - n)) n) free := by
  obtain ⟨hnew, -⟩ := hok.split hx hn hlt
  generalize hn' : size x - n = m at hnew ⊢
  intro b hb
  have hba : b ≠ x + 16 * m := by
    rintro rfl
    exact hnew (mem_headers_of_free (Finset.mem_insert_of_mem hb))
  rw [update_of_ne hba]
  by_cases hbx : b = x
  · subst hbx
    rw [update_self]
    intro htouch
    rw [htouch] at hnew
    exact hnew (mem_headers_of_free (hok.circular.mem b (Finset.mem_insert_of_mem hb)))
  · rw [update_of_ne hbx]
    exact hspaced b hb

end DzOS.Proofs.Libc
