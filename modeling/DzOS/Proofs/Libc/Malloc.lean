import DzOS.Proofs.Libc.Free

/-!
# `DzOS.Proofs.Libc.Malloc`: what `malloc` returns

From a heap with the invariant, `malloc` ends (`malloc_ok`). If it returns a block, the block has
the size of the request, it was not used before, and the used blocks keep their contents (`Keeps`).
The loop goes around the list at most twice: the first time no block is large enough
(`mallocLoop_tour`), and then `morecore` adds one that is (`morecore_cases`).

For a request of `2 ^ 60` units the amount for `sbrk` wraps to 0. The heap does not grow, but when
its end is inside of a page, the code goes on as if it had a block there (`freeCore_wraps`). The
result is an address at the end of the heap, with no memory behind it.
-/

set_option autoImplicit false

namespace DzOS.Proofs.Libc

open DzOS.Lib DzOS.Libc Function

variable {i fuel a n nu p prevp x brk : ℕ} {howMuch : ℤ} {k : System} {h h' h₀ : Heap}
  {free used nodes : Finset ℕ} {ptr size : ℕ → ℕ}

/-! ### What is kept -/

/-- The used blocks have their sizes and contents as before. -/
structure Keeps (used : Finset ℕ) (h h' : Heap) : Prop where
  size : ∀ b ∈ used, h'.size b = h.size b
  data : ∀ b ∈ used, ∀ i, b + 16 ≤ i → i < b + 16 * h.size b → h'.mem i = h.mem i

theorem Keeps.refl (used : Finset ℕ) (h : Heap) : Keeps used h h :=
  ⟨fun _ _ => rfl, fun _ _ _ _ _ => rfl⟩

theorem Keeps.trans {h₁ h₂ : Heap} (hfirst : Keeps used h h₁) (hsecond : Keeps used h₁ h₂) :
    Keeps used h h₂ := by
  refine ⟨fun b hb => (hsecond.size b hb).trans (hfirst.size b hb), fun b hb i hlow hhigh => ?_⟩
  rw [hsecond.data b hb i hlow (by rw [hfirst.size b hb]; exact hhigh),
    hfirst.data b hb i hlow hhigh]

/-- The contents of a block are apart from the headers. -/
theorem ListOk.outside (hok : ListOk k ptr size brk free used) (ha : a ∈ free ∪ used)
    (hlow : a + 16 ≤ i) (hhigh : i < a + 16 * size a) :
    ∀ b ∈ headers k free used, i < b ∨ b + 16 ≤ i := by
  intro b hb
  rcases Finset.mem_insert.mp hb with rfl | hb
  · have := hok.base_lt ha
    omega
  -- Another block is in front of this one or behind it.
  · rcases Nat.lt_trichotomy a b with hlt | rfl | hlt
    · have := hok.apart a ha b hb hlt
      omega
    · omega
    · have := hok.apart b hb a ha hlt
      have := (hok.placed b hb).2.1
      omega

/-- What `free` keeps. -/
theorem Freed.keeps {free' : Finset ℕ} (hok : HeapOk k h free used)
    (hfreed : Freed k h h' a free used free') : Keeps (used.erase a) h h' := by
  refine ⟨hfreed.size_used, fun b hb i hlow hhigh => hfreed.frame i ?_⟩
  have hused : b ∈ free ∪ used := Finset.mem_union_right _ (Finset.mem_of_mem_erase hb)
  exact hok.list.outside hused hlow hhigh

/-! ### `morecore` -/

theorem le_pageRoundUp (v : ℕ) : v ≤ pageRoundUp v := by
  unfold pageRoundUp
  omega

theorem pageRoundUp_mono {v w : ℕ} (hle : v ≤ w) : pageRoundUp v ≤ pageRoundUp w := by
  unfold pageRoundUp
  omega

/-- The units that `morecore` asks for. -/
def coreUnits (nu : ℕ) : ℕ := if nu < 4096 then 4096 else nu

/-- The block of new memory before it is freed. -/
def withCore (h : Heap) (brk nu : ℕ) : Heap :=
  Heap.setSize { h with brk := brk } h.brk nu

/-- The amount that `sbrk` is asked for, as a signed number. -/
def amount (nu : ℕ) : ℤ := Int.bmod ((nu : ℤ) * 16) ADDRESS_END

theorem amount_cases (hmax : nu ≤ 2 ^ 60) :
    (16 * nu < HEAP_MAX ∧ amount nu = (16 * nu : ℕ)) ∨ amount nu < 0 ∨
    (ADDRESS_END ≤ 16 * nu ∧ amount nu = 0) := by
  rw [amount, Int.bmod_def]
  unfold ADDRESS_END HEAP_MAX
  split
  · omega
  · omega

/-- How `sbrk` answers a request for units: the kernel panics, there is no memory, the heap grows,
or the amount is not positive and there is no new memory. -/
theorem sbrk_cases (h : Heap) (hnu : 0 < nu) (hmax : nu ≤ 2 ^ 60) (hlow : k.initial ≤ h.brk) :
    k.sbrk h.brk (amount nu) = none ∨
    k.sbrk h.brk (amount nu) = some (NO_MEMORY, h.brk) ∨
    ∃ brk', k.sbrk h.brk (amount nu) = some (h.brk, brk') ∧
      ((brk' = h.brk + 16 * nu ∧ brk' < HEAP_MAX) ∨
        amount nu ≤ 0 ∧
          (pageRoundUp brk' < h.brk + 16 ∨ (brk' = h.brk ∧ ADDRESS_END ≤ 16 * nu))) := by
  cases hcall : k.sbrk h.brk (amount nu) with
  | none => exact .inl rfl
  | some r =>
    obtain ⟨p, brk'⟩ := r
    rcases k.returns _ _ _ _ hcall with ⟨rfl, rfl⟩ | rfl
    · exact .inr (.inl rfl)
    · refine .inr (.inr ⟨brk', rfl, ?_⟩)
      -- The amount as an `int64_t` is positive, negative, or 0 for exactly 2 ^ 64 bytes.
      rcases amount_cases hmax with ⟨-, hpos⟩ | hneg | ⟨hall, hzero⟩
      · have hgrow := k.grows _ _ _ hcall (by rw [hpos]; omega)
        rw [hpos, Int.toNat_natCast] at hgrow
        exact .inl hgrow
      · have hpage := pageRoundUp_mono (k.shrinks _ _ _ hcall hneg)
        rw [k.initial_page] at hpage
        exact .inr ⟨hneg.le, .inl (by omega)⟩
      · rw [hzero] at hcall
        exact .inr ⟨hzero.le, .inr ⟨k.keeps _ _ hcall, hall⟩⟩

theorem callSbrk_some {r : ℕ × ℕ} (hcall : k.sbrk brk howMuch = some r) :
    k.callSbrk brk howMuch = .ok r := by
  rw [System.callSbrk, hcall]
  rfl

theorem callSbrk_none (hcall : k.sbrk brk howMuch = none) :
    k.callSbrk brk howMuch = .error .panic := by
  rw [System.callSbrk, hcall]
  rfl

/-- The header of the new memory. -/
theorem withCore_view (hok : HeapOk k h free used) (hnu : 0 < nu)
    (hmax : h.brk + 16 * nu < HEAP_MAX) :
    View (headers k free (insert h.brk used)) h (withCore h (h.brk + 16 * nu) nu) h.ptr
      (update h.size h.brk nu) := by
  obtain ⟨-, hlist⟩ := hok.list.grow hok.low hnu
  exact View.setSize (h := { h with brk := h.brk + 16 * nu })
    ⟨fun _ _ => rfl, fun _ _ => rfl, fun _ _ => rfl⟩ hlist.clear
    (mem_headers_of_used (Finset.mem_insert_self _ _)) (lt_address_end (by omega))

/-- The new memory is a used block. -/
theorem withCore_ok (hok : HeapOk k h free used) (hnu : 0 < nu)
    (hmax : h.brk + 16 * nu < HEAP_MAX) :
    h.brk ∉ headers k free used ∧
      HeapOk k (withCore h (h.brk + 16 * nu) nu) free (insert h.brk used) ∧
      Keeps used h (withCore h (h.brk + 16 * nu) nu) ∧
      (withCore h (h.brk + 16 * nu) nu).size h.brk = nu := by
  obtain ⟨hnew, hlist⟩ := hok.list.grow hok.low hnu
  have hview := withCore_view hok hnu hmax
  have hlow := hok.low
  refine ⟨hnew, ?_, ⟨fun b hb => ?_, fun b hb i hlo hhi => ?_⟩, ?_⟩
  · exact hview.heapOk hlist (Finset.Subset.refl _) hok.start (Nat.le_add_right_of_le hlow) hmax
  · have hne : b ≠ h.brk := by
      rintro rfl
      exact hnew (mem_headers_of_used hb)
    rw [hview.size b (mem_headers_of_used (Finset.mem_insert_of_mem hb)), update_of_ne hne]
  · have hne : b ≠ h.brk := by
      rintro rfl
      exact hnew (mem_headers_of_used hb)
    refine hview.frame i (hlist.outside (Finset.mem_union_right _ (Finset.mem_insert_of_mem hb))
      hlo ?_)
    rw [update_of_ne hne]
    exact hhi
  · rw [hview.size _ (mem_headers_of_used (Finset.mem_insert_self _ _)), update_self]

/-- The end of `morecore`: the new block is freed. -/
def freeCore (h : Heap) (brk nu : ℕ) : Except Stop (ℕ × Heap) := do
  let h ← DzOS.Libc.free (withCore h brk nu) (h.brk + 16)
  return (h.freep, h)

/-- The heap after it has grown by `m` units, which are in the list. -/
structure Grown (k : System) (h h' : Heap) (m : ℕ) (free used free' : Finset ℕ) : Prop where
  ok : HeapOk k h' free' used
  keeps : Keeps used h h'
  card : free'.card ≤ free.card + 1
  large : ∃ x ∈ free', m ≤ h'.size x
  brk : h'.brk = h.brk + 16 * m
  covers : ∀ bytes, Covers h free used bytes →
    Covers h' free' used (Set.Ico h.brk (h.brk + 16 * m) ∪ bytes)

/-- The end of `morecore` with new memory: the block of the new memory is freed. -/
theorem freeCore_grows {m : ℕ} (hok : HeapOk k h free used) (hpos : 0 < m)
    (hhigh : h.brk + 16 * m < HEAP_MAX) :
    ∃ h' free', freeCore h (h.brk + 16 * m) m = .ok (h'.freep, h') ∧
      Grown k h h' m free used free' := by
  obtain ⟨hnew, hcore, hkeeps, hsize⟩ := withCore_ok hok hpos hhigh
  obtain ⟨h', free', hfree, hfreed, hcovers⟩ := free_covers hcore (Finset.mem_insert_self _ _)
  have hnot : h.brk ∉ used := fun hmem => hnew (mem_headers_of_used hmem)
  have hkeeps' := hfreed.keeps hcore
  have hok' := hfreed.ok
  rw [Finset.erase_insert hnot] at hkeeps' hok' hcovers
  refine ⟨h', free', bind_ok hfree, hok', hkeeps.trans hkeeps', ?_, ?_, hfreed.brk, ?_⟩
  · exact (Finset.card_le_card hfreed.sub).trans (Finset.card_insert_le _ _)
  · obtain ⟨x, hx, hlow, hend⟩ := hfreed.block
    rw [hsize] at hend
    exact ⟨x, hx, by omega⟩
  · intro bytes hbytes
    refine hcovers _ ((withCore_view hok hpos hhigh).covers (Finset.Subset.refl _) ?_ ?_)
    · intro a ha
      have hne : a ≠ h.brk := by
        rintro rfl
        exact hnew (mem_headers_of_free (Finset.mem_insert_of_mem ha))
      rw [update_of_ne hne]
      exact hbytes.spaced a ha
    · rw [hok.list.spans_grow hok.low hpos, hbytes.bytes]

/-- What the end of `morecore` leaves for `2 ^ 60` units: the heap has not grown, but the list has
a block of this size, from which `malloc` takes what is behind the end of the heap. -/
structure Wrapped (h h' : Heap) (nodes : Finset ℕ) : Prop where
  circular : Circular nodes h'.ptr
  start : h'.freep ∈ nodes
  pos : h'.freep ≠ 0
  brk : h'.brk = h.brk
  large : ∃ x ∈ nodes, 2 ^ 60 ≤ h'.size x
  takes : ∀ prev, h'.ptr prev ∈ nodes → 2 ^ 60 ≤ h'.size (h'.ptr prev) →
    (takeFrom h' (2 ^ 60) prev (h'.ptr prev)).1 = h.brk + 16

/-- The header behind the heap overlaps no node of the list. -/
theorem HeapOk.clear_brk (hok : HeapOk k h free used) :
    ((insert h.brk (insert k.base free) : Finset ℕ) : Set ℕ).Pairwise Clear := by
  intro a ha b hb hne
  rcases Finset.mem_insert.mp ha with rfl | ha
  · rcases Finset.mem_insert.mp hb with rfl | hb
    · exact absurd rfl hne
    · exact .inr (hok.node_lt hb)
  · rcases Finset.mem_insert.mp hb with rfl | hb
    · exact .inl (hok.node_lt ha)
    · exact hok.list.clear (mem_headers_of_free ha) (mem_headers_of_free hb) hne

/-- A node of the list ends inside of the heap. -/
theorem HeapOk.node_end (hok : HeapOk k h free used) (ha : a ∈ insert k.base free) :
    a + 16 * h.size a ≤ h.brk := by
  rcases Finset.mem_insert.mp ha with rfl | hmem
  · have := hok.node_lt ha
    rw [hok.list.base]
    omega
  · exact (hok.list.placed a (Finset.mem_union_left used hmem)).2.2

/-- A block of `2 ^ 60` units ends where it starts. -/
theorem advance_wraps (hlt : a < HEAP_MAX) : advance a (2 ^ 60) = a := by
  unfold HEAP_MAX at hlt
  unfold advance ADDRESS_END
  omega

section
variable {h₂ : Heap}

/-- The case where the last block of the list ends at the end of the heap. The two are joined, and
the nodes are the same. -/
theorem wrapped_join (hok : HeapOk k h free used) (hp : p ∈ insert k.base free)
    (hgap : p + 16 * h.size p = h.brk) (hcircular : Circular (insert k.base free) ptr)
    (hsize : ∀ b ∈ insert k.base free, size b = h.size b)
    (hview : View (insert h.brk (insert k.base free)) h₀ h₂
      (update (update ptr h.brk (ptr p)) p (ptr p)) (update size p (h.size p + 2 ^ 60)))
    (hfreep : h₂.freep = p) (hbrk : h₂.brk = h.brk) : Wrapped h h₂ (insert k.base free) := by
  have hhigh := hok.high
  unfold HEAP_MAX at hhigh
  have hend := hok.node_lt hp
  have hmem : ∀ b ∈ insert k.base free, b ∈ insert h.brk (insert k.base free) :=
    fun b hb => Finset.mem_insert_of_mem hb
  have hsizep : h₂.size p = h.size p + 2 ^ 60 := by
    rw [hview.size p (hmem p hp), update_self]
  refine ⟨hcircular.congr fun b hb => ?_, hfreep ▸ hp, ?_, hbrk, ⟨p, hp, by omega⟩, ?_⟩
  · rw [hview.ptr b (hmem b hb)]
    by_cases hbp : b = p
    · rw [hbp, update_self]
    · have := hok.node_lt hb
      rw [update_of_ne hbp, update_of_ne (by omega)]
  · rw [hfreep]
    exact (hok.node_pos hp).ne'
  · intro prev hx hlarge
    generalize h₂.ptr prev = x at hx hlarge ⊢
    -- The other nodes are inside of the heap, which is too short for so many units.
    have hxp : x = p := by
      by_contra hne
      have := hok.node_end hx
      rw [hview.size x (hmem x hx), update_of_ne hne, hsize x hx] at hlarge
      omega
    subst hxp
    have hrest : (h₂.setSize x (h.size x)).size x = h.size x :=
      size_setSize_self (by unfold ADDRESS_END; omega)
    rw [takeFrom, hsizep, if_neg (by omega), Nat.add_sub_cancel]
    dsimp only
    rw [hrest, advance_of_lt (by unfold HEAP_MAX; omega), hgap]

/-- The case where the last block of the list ends earlier. The end of the heap is a new node. -/
theorem wrapped_apart (hok : HeapOk k h free used) (hp : p ∈ insert k.base free)
    (hcircular : Circular (insert k.base free) ptr) (hbefore : Before ptr p h.brk)
    (hsize : ∀ b ∈ insert k.base free, size b = h.size b) (hsize' : size h.brk = 2 ^ 60)
    (hview : View (insert h.brk (insert k.base free)) h₀ h₂
      (update (update ptr h.brk (ptr p)) p h.brk) size)
    (hfreep : h₂.freep = p) (hbrk : h₂.brk = h.brk) :
    Wrapped h h₂ (insert h.brk (insert k.base free)) := by
  have hhigh := hok.high
  unfold HEAP_MAX at hhigh
  have hself := Finset.mem_insert_self h.brk (insert k.base free)
  have hmem : ∀ b ∈ insert k.base free, b ∈ insert h.brk (insert k.base free) :=
    fun b hb => Finset.mem_insert_of_mem hb
  have hpb : h.brk ≠ p := by
    have := hok.node_lt hp
    omega
  refine ⟨?_, hfreep ▸ hmem p hp, ?_, hbrk, ⟨h.brk, hself, ?_⟩, ?_⟩
  · refine hcircular.insert hp hbefore ?_ ?_ fun x hx hxp => ?_
    · rw [hview.ptr p (hmem p hp), update_self]
    · rw [hview.ptr h.brk hself, update_of_ne hpb, update_self]
    · have := hok.node_lt hx
      rw [hview.ptr x (hmem x hx), update_of_ne hxp, update_of_ne (by omega)]
  · rw [hfreep]
    exact (hok.node_pos hp).ne'
  · rw [hview.size h.brk hself, hsize']
  · intro prev hx hlarge
    generalize h₂.ptr prev = x at hx hlarge ⊢
    rcases Finset.mem_insert.mp hx with rfl | hnode
    · rw [takeFrom, if_pos ((hview.size _ hself).trans hsize')]
    · have := hok.node_end hnode
      rw [hview.size x hx, hsize x hnode] at hlarge
      omega

end

/-- For `2 ^ 60` units no memory is added, but the end of the heap gets a header. The block at it
ends where it starts, so the next node does not follow it, and `free` puts it into the list. -/
theorem freeCore_wraps (hok : HeapOk k h free used) :
    ∃ h' nodes, freeCore h h.brk (2 ^ 60) = .ok (h'.freep, h') ∧ Wrapped h h' nodes ∧
      nodes.card ≤ (insert k.base free).card + 1 := by
  obtain ⟨h₀, hh₀⟩ : ∃ h₀, h₀ = withCore h h.brk (2 ^ 60) := ⟨_, rfl⟩
  have hhigh := hok.high
  have hself := Finset.mem_insert_self h.brk (insert k.base free)
  have hmem : ∀ b ∈ insert k.base free, b ∈ insert h.brk (insert k.base free) :=
    fun b hb => Finset.mem_insert_of_mem hb
  have hcore : View (insert h.brk (insert k.base free)) h h₀ h.ptr
      (update h.size h.brk (2 ^ 60)) := by
    rw [hh₀]
    exact View.setSize (h := { h with brk := h.brk })
      ⟨fun _ _ => rfl, fun _ _ => rfl, fun _ _ => rfl⟩ hok.clear_brk hself
      (by unfold ADDRESS_END; omega)
  have hnot : h.brk ∉ insert k.base free := fun hbrk => by
    have := hok.node_lt hbrk
    omega
  have hsize : ∀ b ∈ insert k.base free, update h.size h.brk (2 ^ 60) b = h.size b :=
    fun b hb => update_of_ne (fun heq : b = h.brk => hnot (heq ▸ hb)) _ _
  have hcircular := hok.list.circular.congr fun b hb => hcore.ptr b (hmem b hb)
  have hfreep : h₀.freep = h.freep := by rw [hh₀]; rfl
  have hbrk : h₀.brk = h.brk := by rw [hh₀]; rfl
  obtain ⟨p, hp, hfind, hbefore⟩ := findPlace_found hcircular (hfreep ▸ hok.start) hnot
    (hbrk ▸ Nat.le_of_add_right_le hok.card_lt)
  have hpc := hmem p hp
  have hxN : h.ptr p ∈ insert k.base free := hok.list.circular.mem p hp
  have hpb : h.brk ≠ p := fun heq => hnot (heq ▸ hp)
  -- The next node is not where the new block ends.
  have hnext : joinNext h₀ p h.brk = h₀.setPtr h.brk (h.ptr p) := by
    rw [joinNext, hcore.size _ hself, update_self, advance_wraps hhigh, hcore.ptr p hpc,
      if_neg fun heq : h.brk = h.ptr p => hnot (heq ▸ hxN)]
  have hview := hcore.setPtr hok.clear_brk hself (v := h.ptr p) (hok.node_address hxN)
  have hpend := hok.node_end hp
  have hprev : joinPrev (h₀.setPtr h.brk (h.ptr p)) p h.brk =
      if p + 16 * h.size p = h.brk then
        ((h₀.setPtr h.brk (h.ptr p)).setSize p (h.size p + 2 ^ 60)).setPtr p
          (((h₀.setPtr h.brk (h.ptr p)).setSize p (h.size p + 2 ^ 60)).ptr h.brk)
      else (h₀.setPtr h.brk (h.ptr p)).setPtr p h.brk := by
    rw [joinPrev, hview.size p hpc, hsize p hp, hview.size _ hself, update_self,
      advance_of_lt (by omega)]
  have hfree : DzOS.Libc.free h₀ (h.brk + 16) = .ok
      { joinPrev (h₀.setPtr h.brk (h.ptr p)) p h.brk with freep := p } := by
    refine (if_neg (by omega)).trans ?_
    rw [Nat.add_sub_cancel, ← hnext]
    exact bind_ok hfind
  have hrun : ∀ h₂, joinPrev (h₀.setPtr h.brk (h.ptr p)) p h.brk = h₂ →
      freeCore h h.brk (2 ^ 60) = .ok (p, { h₂ with freep := p }) := by
    rintro h₂ rfl
    rw [freeCore, ← hh₀]
    exact bind_ok hfree
  by_cases hgap : p + 16 * h.size p = h.brk
  · have hsum : h.size p + 2 ^ 60 < ADDRESS_END := by
      unfold HEAP_MAX at hhigh
      unfold ADDRESS_END
      omega
    have hview' := hview.setSize hok.clear_brk hpc hsum
    have hlink : ((h₀.setPtr h.brk (h.ptr p)).setSize p (h.size p + 2 ^ 60)).ptr h.brk =
        h.ptr p := by
      rw [hview'.ptr _ hself, update_self]
    rw [if_pos hgap, hlink] at hprev
    refine ⟨_, _, hrun _ hprev, wrapped_join hok hp hgap hok.list.circular hsize
      ((hview'.setPtr hok.clear_brk hpc (hok.node_address hxN)).setFreep p) rfl hbrk,
      Nat.le_succ _⟩
  · rw [if_neg hgap] at hprev
    have hplace : Before h.ptr p h.brk := by
      unfold Before at hbefore ⊢
      rw [hcore.ptr p hpc] at hbefore
      exact hbefore
    refine ⟨_, _, hrun _ hprev, wrapped_apart hok hp hok.list.circular hplace hsize
      (update_self _ _ _) ((hview.setPtr hok.clear_brk hpc (lt_address_end hhigh)).setFreep p) rfl
      hbrk, Finset.card_insert_le _ _⟩

/-- What `morecore` makes of the answer of `sbrk`: it stops when the kernel panics or the amount was
not positive, there is no memory, the heap grows, or the amount wrapped to 0. -/
theorem morecore_cases (hok : HeapOk k h free used) (hmax : nu ≤ 2 ^ 60) :
    (∃ e, e ≠ .hang ∧ morecore k h nu = .error e ∧
      (k.sbrk h.brk (amount (coreUnits nu)) = none ∨ amount (coreUnits nu) ≤ 0 ∧
        ∃ brk', k.sbrk h.brk (amount (coreUnits nu)) = some (h.brk, brk'))) ∨
    (morecore k h nu = .ok (0, h) ∧
      k.sbrk h.brk (amount (coreUnits nu)) = some (NO_MEMORY, h.brk)) ∨
    (∃ h' free', morecore k h nu = .ok (h'.freep, h') ∧
      Grown k h h' (coreUnits nu) free used free' ∧
      k.sbrk h.brk (amount (coreUnits nu)) = some (h.brk, h'.brk)) ∨
    nu = 2 ^ 60 ∧ ∃ h' nodes, morecore k h nu = .ok (h'.freep, h') ∧ Wrapped h h' nodes ∧
      nodes.card ≤ (insert k.base free).card + 1 ∧
      k.sbrk h.brk (amount (coreUnits nu)) = some (h.brk, h.brk) := by
  have hunits : 0 < coreUnits nu ∧ coreUnits nu ≤ 2 ^ 60 := by
    unfold coreUnits
    split
    · omega
    · omega
  obtain ⟨hpos, hmax'⟩ := hunits
  have hmem : h.brk ≠ NO_MEMORY := by
    have := hok.high
    unfold HEAP_MAX at this
    unfold NO_MEMORY
    omega
  -- The steps behind `sbrk`.
  have hstep : ∀ brk', k.sbrk h.brk (amount (coreUnits nu)) = some (h.brk, brk') →
      morecore k h nu = if pageRoundUp brk' < h.brk + 16 then .error .pageFault
        else freeCore h brk' (coreUnits nu) := fun brk' hcall =>
    (bind_ok (callSbrk_some hcall)).trans (if_neg hmem)
  rcases sbrk_cases h hpos hmax' hok.low with hcall | hcall | ⟨brk', hcall, hcases⟩
  · exact .inl ⟨.panic, by decide, bind_error (callSbrk_none hcall), .inl hcall⟩
  · exact .inr (.inl ⟨(bind_ok (callSbrk_some hcall)).trans (if_pos rfl), hcall⟩)
  · rcases hcases with ⟨rfl, hhigh⟩ | ⟨hneg, hcases⟩
    · have hroom : ¬ pageRoundUp (h.brk + 16 * coreUnits nu) < h.brk + 16 := by
        have := le_pageRoundUp (h.brk + 16 * coreUnits nu)
        omega
      obtain ⟨h', free', hcore, hgrown⟩ := freeCore_grows hok hpos hhigh
      refine .inr (.inr (.inl ⟨h', free', ?_, hgrown, ?_⟩))
      · rw [hstep _ hcall, if_neg hroom, hcore]
      · rw [hgrown.brk, hcall]
    · by_cases hfault : pageRoundUp brk' < h.brk + 16
      · exact .inl ⟨.pageFault, by decide, (hstep _ hcall).trans (if_pos hfault),
          .inr ⟨hneg, brk', hcall⟩⟩
      · obtain ⟨rfl, hlong⟩ := hcases.resolve_left hfault
        have hcore : coreUnits nu = 2 ^ 60 := by
          unfold ADDRESS_END at hlong
          omega
        have hnu : nu = 2 ^ 60 := by
          unfold coreUnits at hcore
          split at hcore
          · omega
          · exact hcore
        obtain ⟨h', nodes, hrun, hwrapped, hcard⟩ := freeCore_wraps hok
        refine .inr (.inr (.inr ⟨hnu, h', nodes, ?_, hwrapped, hcard, hcall⟩))
        rw [hstep _ hcall, if_neg hfault, hcore, hrun]

/-! ### The loop -/

/-- What `malloc` does with a request for units: it stops, it returns 0 or a block, or the amount
wrapped and it returns an address behind the heap. -/
inductive Allocates (k : System) (h : Heap) (used : Finset ℕ) (n : ℕ) :
    Except Stop (ℕ × Heap) → Prop where
  | stop {e : Stop} (he : e ≠ .hang) : Allocates k h used n (.error e)
  | none {h' : Heap} {free' : Finset ℕ} (hok : HeapOk k h' free' used)
      (hkeeps : Keeps used h h') : Allocates k h used n (.ok (0, h'))
  | block {h' : Heap} {free' : Finset ℕ} {a : ℕ} (hnew : a ∉ used)
      (hok : HeapOk k h' free' (insert a used)) (hsize : h'.size a = n) (hkeeps : Keeps used h h') :
      Allocates k h used n (.ok (a + 16, h'))
  | wraps {h' : Heap} {q : ℕ} (hn : n = 2 ^ 60) (hq : q ≠ 0) (hbehind : h'.brk ≤ q) :
      Allocates k h used n (.ok (q, h'))

/-- What is kept before is kept by the whole. -/
theorem Allocates.after {r : Except Stop (ℕ × Heap)} (hkeeps : Keeps used h h')
    (halloc : Allocates k h' used n r) : Allocates k h used n r := by
  cases halloc with
  | stop he => exact .stop he
  | none hok hkeeps' => exact .none hok (hkeeps.trans hkeeps')
  | block hnew hok hsize hkeeps' => exact .block hnew hok hsize (hkeeps.trans hkeeps')
  | wraps hn hq hbehind => exact .wraps hn hq hbehind

/-- The heap after a block `a` of `n` units is taken. -/
structure Taken (k : System) (h h' : Heap) (n a : ℕ) (free used free' : Finset ℕ) : Prop where
  new : a ∉ used
  ok : HeapOk k h' free' (insert a used)
  size : h'.size a = n
  keeps : Keeps used h h'
  brk : h'.brk = h.brk
  covers : ∀ bytes, Covers h free used bytes → Covers h' free' (insert a used) bytes

section

variable (hok : HeapOk k h free used) (hprev : prevp ∈ insert k.base free) (hn : 0 < n)

include hok hprev hn

/-- A block of the size of the request is taken out of the list. -/
theorem takeFrom_whole (hexact : h.size (h.ptr prevp) = n) :
    ∃ a h' free', takeFrom h n prevp (h.ptr prevp) = (a + 16, h') ∧
      Taken k h h' n a free used free' := by
  obtain ⟨x, hx⟩ : ∃ x, x = h.ptr prevp := ⟨_, rfl⟩
  have hnode := hok.list.circular.mem prevp hprev
  have hunlink := hok.list.unlink hprev (by rw [hexact]; exact hn)
  have hgaps : Spaced h.ptr h.size free → h.ptr prevp ∈ free →
      Spaced (update h.ptr prevp (h.ptr (h.ptr prevp))) h.size (free.erase (h.ptr prevp)) :=
    fun hspaced => hspaced.unlink hok.list hprev
  rw [← hx] at hexact hnode hunlink hgaps ⊢
  have hfree : x ∈ free := hok.list.mem_free hnode (by omega)
  have hnot : x ∉ used := Finset.disjoint_left.mp hok.list.disjoint hfree
  have hlink : h.ptr x < ADDRESS_END := hok.node_address (hok.list.circular.mem x hnode)
  have hview := ((view_self (headers k free used) h).setPtr hok.list.clear
    (mem_headers_of_free hprev) hlink).setFreep prevp
  have hunion : free.erase x ∪ insert x used = free ∪ used := by
    rw [Finset.union_insert, ← Finset.insert_union, Finset.insert_erase hfree]
  have hsub : headers k (free.erase x) (insert x used) ⊆ headers k free used := by
    rw [headers, hunion]
  have hstart : prevp ∈ insert k.base (free.erase x) := by
    have hne : prevp ≠ x := hx ▸ (hok.list.next_ne hprev (hx ▸ hfree)).symm
    rcases Finset.mem_insert.mp hprev with rfl | hmem
    · exact Finset.mem_insert_self _ _
    · exact Finset.mem_insert_of_mem (Finset.mem_erase.mpr ⟨hne, hmem⟩)
  refine ⟨x, _, free.erase x, if_pos hexact, hnot,
    hview.heapOk hunlink hsub hstart hok.low hok.high, ?_,
    ⟨fun b hb => ?_, fun b hb i hlo hhi => ?_⟩, rfl, fun bytes hcovers => ?_⟩
  · rw [hview.size x (mem_headers_of_free hnode), hexact]
  · exact hview.size b (mem_headers_of_used hb)
  · exact hview.frame i (hok.list.outside (Finset.mem_union_right free hb) hlo hhi)
  · refine hview.covers hsub (hgaps hcovers.spaced hfree) ?_
    rw [hunion]
    exact hcovers.bytes

/-- The end of a larger block is taken. -/
theorem takeFrom_end (hlarge : n < h.size (h.ptr prevp)) :
    ∃ a h' free', takeFrom h n prevp (h.ptr prevp) = (a + 16, h') ∧
      Taken k h h' n a free used free' := by
  have hnode := hok.list.circular.mem prevp hprev
  generalize h.ptr prevp = x at hlarge hnode ⊢
  have hfree : x ∈ free := hok.list.mem_free hnode (by omega)
  have hnot : x ∉ used := Finset.disjoint_left.mp hok.list.disjoint hfree
  have hend := (hok.list.placed x (Finset.mem_union_left used hfree)).2.2
  have hhigh := hok.high
  obtain ⟨hnew, hsplit⟩ := hok.list.split hfree hn hlarge
  have hspans := hok.list.spans_split hfree hn hlarge
  have hgaps : Spaced h.ptr h.size free →
      Spaced h.ptr (update (update h.size x (h.size x - n)) (x + 16 * (h.size x - n)) n) free :=
    fun hspaced => hspaced.split hok.list hfree hn hlarge
  obtain ⟨a, ha⟩ : ∃ a, a = x + 16 * (h.size x - n) := ⟨_, rfl⟩
  rw [← ha] at hnew hsplit hspans hgaps
  have hac : a ∈ headers k free (insert a used) :=
    mem_headers_of_used (Finset.mem_insert_self a used)
  have hview := (view_self (headers k free (insert a used)) h).setSize hsplit.clear
    (mem_headers_of_free hnode) (v := h.size x - n) (lt_address_end (by omega))
  have hview' := (hview.setSize hsplit.clear hac (v := n)
    (lt_address_end (by omega))).setFreep prevp
  have hsize : (h.setSize x (h.size x - n)).size x = h.size x - n :=
    size_setSize_self (lt_address_end (by omega))
  have hstep : takeFrom h n prevp x = (a + 16,
      { (h.setSize x (h.size x - n)).setSize a n with freep := prevp }) := by
    rw [takeFrom, if_neg (Nat.ne_of_gt hlarge), ha]
    dsimp only
    rw [hsize, advance_of_lt (by omega)]
  -- The sizes of the used blocks are not written.
  have hkept : ∀ b ∈ used, update (update h.size x (h.size x - n)) a n b = h.size b := by
    intro b hb
    have hba : b ≠ a := by
      rintro rfl
      exact hnew (mem_headers_of_used hb)
    have hbx : b ≠ x := by
      rintro rfl
      exact hnot hb
    rw [update_of_ne hba, update_of_ne hbx]
  refine ⟨a, _, free, hstep, fun hmem => hnew (mem_headers_of_used hmem),
    hview'.heapOk hsplit (Finset.Subset.refl _) hprev hok.low hok.high, ?_,
    ⟨fun b hb => ?_, fun b hb i hlo hhi => ?_⟩, rfl, fun bytes hcovers => ?_⟩
  · rw [hview'.size a hac, update_self]
  · rw [hview'.size b (mem_headers_of_used (Finset.mem_insert_of_mem hb)), hkept b hb]
  · refine hview'.frame i (hsplit.outside
      (Finset.mem_union_right free (Finset.mem_insert_of_mem hb)) hlo ?_)
    rw [hkept b hb]
    exact hhi
  · exact hview'.covers (Finset.Subset.refl _) (hgaps hcovers.spaced) (hspans.trans hcovers.bytes)

/-- A block that is large enough is taken, or its end. -/
theorem takeFrom_taken (hlarge : n ≤ h.size (h.ptr prevp)) :
    ∃ a h' free', takeFrom h n prevp (h.ptr prevp) = (a + 16, h') ∧
      Taken k h h' n a free used free' := by
  rcases hlarge.eq_or_lt with hexact | hlt
  · exact takeFrom_whole hok hprev hn hexact.symm
  · exact takeFrom_end hok hprev hn hlt

end

/-- The branch of the loop for a whole round without a block that is large enough. -/
def askForMore (k : System) (n fuel : ℕ) (h : Heap) : Except Stop (ℕ × Heap) := do
  let (p, h) ← morecore k h n
  if p = 0 then return (0, h) else mallocLoop k n fuel h p (h.ptr p)

/-- At the end of a round, the loop has come by all nodes. -/
theorem all_small (hcircular : Circular nodes h.ptr) (hstart : h.freep ∈ nodes)
    (hbehind : h.ptr prevp = h.ptr^[i] (h.ptr h.freep)) (hback : h.ptr prevp = h.freep)
    (hsmall : ∀ m < i, h.size (h.ptr^[m] (h.ptr h.freep)) < n)
    (hlast : ¬ h.size (h.ptr prevp) ≥ n) :
    ∀ y ∈ nodes, h.size y < n := by
  intro y hy
  obtain ⟨m, hm, rfl⟩ := hcircular.covers hstart (hbehind.symm.trans hback) y hy
  -- The `i` nodes behind the loop and the last one are all nodes of the circle.
  rcases hm.eq_or_lt with rfl | hlt
  · rw [← hbehind]
    exact not_le.mp hlast
  · exact hsmall m hlt

/-- A round of the loop: it takes a block, or no block of the list is large enough. `i` nodes are
behind it, and `j` are in front. -/
theorem mallocLoop_tour (hcircular : Circular nodes h.ptr) (hstart : h.freep ∈ nodes) {j : ℕ}
    (hprev : prevp ∈ nodes) (hbehind : h.ptr prevp = h.ptr^[i] (h.ptr h.freep))
    (hfront : h.ptr^[i + j] (h.ptr h.freep) = h.freep)
    (hsmall : ∀ m < i, h.size (h.ptr^[m] (h.ptr h.freep)) < n) (hfuel : j < fuel) :
    (∃ prev ∈ nodes, n ≤ h.size (h.ptr prev) ∧
      mallocLoop k n fuel h prevp (h.ptr prevp) = .ok (takeFrom h n prev (h.ptr prev))) ∨
    ((∀ y ∈ nodes, h.size y < n) ∧ ∃ fuel', fuel ≤ fuel' + j + 1 ∧
      mallocLoop k n fuel h prevp (h.ptr prevp) = askForMore k n fuel' h) := by
  -- The induction is on the nodes in front: a turn moves one of them behind the loop.
  induction j generalizing i fuel prevp with
  | zero =>
    obtain ⟨fuel, rfl⟩ := Nat.exists_eq_add_one_of_ne_zero (Nat.ne_of_gt hfuel)
    by_cases hlarge : h.size (h.ptr prevp) ≥ n
    · exact .inl ⟨prevp, hprev, hlarge, if_pos hlarge⟩
    · have hback : h.ptr prevp = h.freep := hbehind.trans hfront
      exact .inr ⟨all_small hcircular hstart hbehind hback hsmall hlarge, fuel, Nat.le_refl _,
        (if_neg hlarge).trans (if_pos hback)⟩
  | succ j ih =>
    obtain ⟨fuel, rfl⟩ := Nat.exists_eq_add_one_of_ne_zero (Nat.ne_of_gt (Nat.zero_lt_of_lt hfuel))
    by_cases hlarge : h.size (h.ptr prevp) ≥ n
    · exact .inl ⟨prevp, hprev, hlarge, if_pos hlarge⟩
    · by_cases hback : h.ptr prevp = h.freep
      · exact .inr ⟨all_small hcircular hstart hbehind hback hsmall hlarge, fuel, by omega,
          (if_neg hlarge).trans (if_pos hback)⟩
      · have hstep : mallocLoop k n (fuel + 1) h prevp (h.ptr prevp) =
            mallocLoop k n fuel h (h.ptr prevp) (h.ptr (h.ptr prevp)) :=
          (if_neg hlarge).trans (if_neg hback)
        have hindex : i + 1 + j = i + (j + 1) := by omega
        rw [hstep]
        have hnext := ih (hcircular.mem prevp hprev) (i := i + 1)
          (by rw [hbehind, Function.iterate_succ_apply'])
          (by rw [hindex]; exact hfront) (fun m hm => ?_) (show j < fuel by omega)
        · rcases hnext with htake | ⟨hall, fuel', hle, hrun⟩
          · exact .inl htake
          · exact .inr ⟨hall, fuel', by omega, hrun⟩
        · rcases Nat.lt_succ_iff_lt_or_eq.mp hm with hlt | rfl
          · exact hsmall m hlt
          · rw [← hbehind]
            exact not_le.mp hlarge

/-- The round behind `morecore`, over a list with a node that is large enough. -/
theorem askForMore_takes (fuel : ℕ) (hmore : morecore k h n = .ok (h'.freep, h'))
    (hpos : h'.freep ≠ 0) (hcircular : Circular nodes h'.ptr) (hstart : h'.freep ∈ nodes)
    (hlarge : ∃ x ∈ nodes, n ≤ h'.size x) (hfuel : 2 * nodes.card ≤ fuel) :
    ∃ prev ∈ nodes, n ≤ h'.size (h'.ptr prev) ∧
      askForMore k n fuel h = .ok (takeFrom h' n prev (h'.ptr prev)) := by
  have hstep : (if h'.freep = 0 then (return (0, h') : Except Stop (ℕ × Heap))
      else mallocLoop k n fuel h' h'.freep (h'.ptr h'.freep)) =
      mallocLoop k n fuel h' h'.freep (h'.ptr h'.freep) := if_neg hpos
  rw [askForMore, bind_ok hmore]
  dsimp only
  rw [hstep]
  obtain ⟨j, hj, hback⟩ := hcircular.reach (hcircular.mem _ hstart) hstart
  have hround := mallocLoop_tour (k := k) (n := n) (i := 0) (j := j) hcircular hstart hstart rfl
    (by rw [Nat.zero_add]; exact hback) (fun m hm => absurd hm (Nat.not_lt_zero m))
    (show j < fuel by omega)
  -- The round cannot end without a block.
  refine hround.resolve_right fun hnone => ?_
  obtain ⟨x, hx, hle⟩ := hlarge
  exact absurd (hnone.1 x hx) (not_lt.mpr hle)

/-- How the loop serves a request for `n` units: a block of the list is large enough, or none is and
`morecore` stops, finds no memory, makes the heap grow, or gets nothing for an amount that wrapped
to 0. -/
inductive Serves (k : System) (h : Heap) (free used : Finset ℕ) (n : ℕ) :
    Except Stop (ℕ × Heap) → Prop where
  | fits {a : ℕ} {h' : Heap} {free' : Finset ℕ} (hlarge : ∃ x ∈ free, n ≤ h.size x)
      (htaken : Taken k h h' n a free used free') : Serves k h free used n (.ok (a + 16, h'))
  | stop {e : Stop} (hsmall : ∀ x ∈ free, h.size x < n) (hmore : morecore k h n = .error e) :
      Serves k h free used n (.error e)
  | none (hsmall : ∀ x ∈ free, h.size x < n) (hmore : morecore k h n = .ok (0, h)) :
      Serves k h free used n (.ok (0, h))
  | grows {h₁ : Heap} {free₁ : Finset ℕ} {a : ℕ} {h' : Heap} {free' : Finset ℕ}
      (hsmall : ∀ x ∈ free, h.size x < n) (hmore : morecore k h n = .ok (h₁.freep, h₁))
      (hgrown : Grown k h h₁ (coreUnits n) free used free₁)
      (htaken : Taken k h₁ h' n a free₁ used free') : Serves k h free used n (.ok (a + 16, h'))
  | wraps {h' : Heap} (hn : n = 2 ^ 60) (hbrk : h'.brk = h.brk)
      (hcall : k.sbrk h.brk (amount (coreUnits n)) = some (h.brk, h.brk)) :
      Serves k h free used n (.ok (h.brk + 16, h'))

theorem le_coreUnits (nu : ℕ) : nu ≤ coreUnits nu := by
  unfold coreUnits
  split
  · omega
  · exact Nat.le_refl nu

theorem takeFrom_brk (h : Heap) (n prevp p : ℕ) : (takeFrom h n prevp p).2.brk = h.brk := by
  unfold takeFrom
  split
  · rfl
  · rfl

/-- The loop from the start of the list. -/
theorem mallocLoop_serves (hok : HeapOk k h free used) (hn : 0 < n) (hmax : n ≤ 2 ^ 60) :
    Serves k h free used n (mallocLoop k n (4 * h.brk) h h.freep (h.ptr h.freep)) := by
  have hcard := hok.card_lt
  obtain ⟨j, hj, hback⟩ := hok.list.circular.reach (hok.list.circular.mem _ hok.start) hok.start
  have hround := mallocLoop_tour (k := k) (n := n) (i := 0) (j := j)
    hok.list.circular hok.start hok.start rfl (by rw [Nat.zero_add]; exact hback)
    (fun m hm => absurd hm (Nat.not_lt_zero m)) (show j < 4 * h.brk by omega)
  rcases hround with ⟨prev, hprev, hlarge, hrun⟩ | ⟨hall, fuel, hfuel, hrun⟩
  · obtain ⟨a, h', free', htake, htaken⟩ := takeFrom_taken hok hprev hn hlarge
    have hfree := hok.list.mem_free (hok.list.circular.mem prev hprev) (hn.trans_le hlarge)
    rw [hrun, htake]
    exact .fits ⟨_, hfree, hlarge⟩ htaken
  · have hsmall : ∀ x ∈ free, h.size x < n := fun x hx => hall x (Finset.mem_insert_of_mem hx)
    rw [hrun]
    rcases morecore_cases hok hmax with ⟨e, -, hmore, -⟩ | ⟨hmore, -⟩ |
      ⟨h', free', hmore, hgrown, -⟩ | ⟨rfl, h', nodes, hmore, hwrapped, hnodes, hcall⟩
    · rw [askForMore, bind_error hmore]
      exact .stop hsmall hmore
    · rw [askForMore, bind_ok hmore]
      exact .none hsmall hmore
    -- The second round is over the new list, which has a node more at most.
    · have hok' := hgrown.ok
      have hnodes : (insert k.base free').card ≤ (insert k.base free).card + 1 := by
        have hbase : k.base ∉ free := fun hmem => by
          have := hok.list.base_lt (Finset.mem_union_left used hmem)
          omega
        have hmore' := hgrown.card
        rw [Finset.card_insert_of_notMem hbase]
        exact (Finset.card_insert_le _ _).trans (by omega)
      obtain ⟨x, hx, hle⟩ := hgrown.large
      obtain ⟨prev, hprev, hbig, hrun'⟩ := askForMore_takes fuel hmore hok'.freep_ne_zero
        hok'.list.circular hok'.start
        ⟨x, Finset.mem_insert_of_mem hx, (le_coreUnits n).trans hle⟩ (by omega)
      obtain ⟨a, h'', free'', htake, htaken⟩ := takeFrom_taken hok' hprev hn hbig
      rw [hrun', htake]
      exact .grows hsmall hmore hgrown htaken
    · obtain ⟨prev, hprev, hbig, hrun'⟩ := askForMore_takes fuel hmore hwrapped.pos
        hwrapped.circular hwrapped.start hwrapped.large (by omega)
      have haddr := hwrapped.takes prev (hwrapped.circular.mem _ hprev) hbig
      rw [hrun', ← Prod.mk.eta (p := takeFrom h' (2 ^ 60) prev (h'.ptr prev)), haddr]
      exact .wraps rfl ((takeFrom_brk _ _ _ _).trans hwrapped.brk) hcall

/-- The loop ends with a block or without one. -/
theorem mallocLoop_ok (hok : HeapOk k h free used) (hn : 0 < n) (hmax : n ≤ 2 ^ 60) :
    Allocates k h used n (mallocLoop k n (4 * h.brk) h h.freep (h.ptr h.freep)) := by
  have hserves := mallocLoop_serves hok hn hmax
  generalize mallocLoop k n (4 * h.brk) h h.freep (h.ptr h.freep) = r at hserves
  cases hserves with
  | fits _ htaken => exact .block htaken.new htaken.ok htaken.size htaken.keeps
  | stop _ hmore =>
    rcases morecore_cases hok hmax with
      ⟨e, he, hmore', -⟩ | ⟨hmore', -⟩ | ⟨_, _, hmore', -⟩ | ⟨-, _, _, hmore', -⟩
    · cases hmore.symm.trans hmore'
      exact .stop he
    · cases hmore.symm.trans hmore'
    · cases hmore.symm.trans hmore'
    · cases hmore.symm.trans hmore'
  | none _ _ => exact .none hok (Keeps.refl used h)
  | grows _ _ hgrown htaken =>
    exact .block htaken.new htaken.ok htaken.size (hgrown.keeps.trans htaken.keeps)
  | wraps hn hbrk _ => exact .wraps hn (Nat.succ_ne_zero _) (by omega)

/-! ### `malloc` -/

/-- The invariant of the heap, where nothing is used before the first call. -/
def HeapInv (k : System) (h : Heap) (used : Finset ℕ) : Prop :=
  (h.freep = 0 ∧ used = ∅ ∧ k.initial ≤ h.brk ∧ h.brk < HEAP_MAX) ∨ ∃ free, HeapOk k h free used

/-- The first call makes the list. -/
theorem initList_first (hfreep : h.freep = 0) (hlow : k.initial ≤ h.brk)
    (hhigh : h.brk < HEAP_MAX) : HeapOk k (initList k h) ∅ ∅ := by
  have hbase : k.base < ADDRESS_END := by
    have := k.base_below
    exact lt_address_end (by omega)
  have hinit : initList k h =
      { (h.setPtr k.base k.base).setSize k.base 0 with freep := k.base } := if_pos hfreep
  have hptr : (initList k h).ptr k.base = k.base := by
    rw [hinit]
    exact ptr_setSize_self.trans (ptr_setPtr_self hbase)
  have hsize : (initList k h).size k.base = 0 := by
    rw [hinit]
    exact size_setSize_self (k.base_pos.trans hbase)
  have hfreep' : (initList k h).freep = k.base := by rw [hinit]
  have hbrk : (initList k h).brk = h.brk := by
    rw [hinit]
    rfl
  refine ⟨⟨circular_singleton hptr, hsize, ?_, ?_, Finset.disjoint_empty_left ∅⟩, ?_, ?_, ?_⟩
  · exact fun a ha => absurd ha (Finset.notMem_empty a)
  · exact fun a ha => absurd ha (Finset.notMem_empty a)
  · rw [hfreep']
    exact Finset.mem_insert_self _ _
  · rw [hbrk]
    exact hlow
  · rw [hbrk]
    exact hhigh

/-- The later calls find it. -/
theorem HeapOk.initList (hok : HeapOk k h free used) : DzOS.Libc.initList k h = h :=
  if_neg hok.freep_ne_zero

theorem initList_brk : (initList k h).brk = h.brk := by
  unfold DzOS.Libc.initList
  split
  · rfl
  · rfl

theorem initList_ok (hinv : HeapInv k h used) :
    ∃ free, HeapOk k (initList k h) free used ∧ Keeps used h (initList k h) := by
  rcases hinv with ⟨hfreep, rfl, hlow, hhigh⟩ | ⟨free, hok⟩
  · refine ⟨∅, initList_first hfreep hlow hhigh, ⟨?_, ?_⟩⟩
    · exact fun b hb => absurd hb (Finset.notMem_empty b)
    · exact fun b hb => absurd hb (Finset.notMem_empty b)
  · rw [hok.initList]
    exact ⟨free, hok, Keeps.refl used h⟩

theorem nunits_bounds (nbytes : ℕ) : 0 < nunits nbytes ∧ nunits nbytes ≤ 2 ^ 60 := by
  unfold nunits ADDRESS_END
  omega

/-- `malloc` serves a request from the list. -/
theorem malloc_serves (hok : HeapOk k (initList k h) free used) (nbytes : ℕ) :
    Serves k (initList k h) free used (nunits nbytes) (malloc k h nbytes) := by
  obtain ⟨hpos, hmax⟩ := nunits_bounds nbytes
  exact mallocLoop_serves hok hpos hmax

/-- `malloc` ends, keeps the invariant, and returns a new block with the units of the request. -/
theorem malloc_ok (hinv : HeapInv k h used) (nbytes : ℕ) :
    Allocates k h used (nunits nbytes) (malloc k h nbytes) := by
  obtain ⟨free, hok, hkeeps⟩ := initList_ok hinv
  obtain ⟨hpos, hmax⟩ := nunits_bounds nbytes
  exact (mallocLoop_ok hok hpos hmax).after hkeeps

/-- For `2 ^ 60` units, an address that `malloc` returns is not in front of the end of the heap, and
`sbrk` has granted an amount of 0. -/
theorem malloc_wraps (hinv : HeapInv k h used) {nbytes q : ℕ} (hunits : nunits nbytes = 2 ^ 60)
    (hrun : malloc k h nbytes = .ok (q, h')) (hnull : q ≠ 0) :
    h'.brk ≤ q ∧ k.sbrk h.brk (amount (coreUnits (nunits nbytes))) = some (h.brk, h.brk) := by
  obtain ⟨free, hok, -⟩ := initList_ok hinv
  have hhigh := hok.high
  unfold HEAP_MAX at hhigh
  have hserves := malloc_serves hok nbytes
  rw [hrun] at hserves
  cases hserves with
  -- No block of the heap has so many units, and the heap cannot grow by them.
  | fits hlarge _ =>
    obtain ⟨x, hx, hle⟩ := hlarge
    have hend := hok.node_end (Finset.mem_insert_of_mem hx)
    omega
  | none => exact absurd rfl hnull
  | grows _ _ hgrown _ =>
    have hgrow := hgrown.brk
    have hlarge := hgrown.ok.high
    have hcore := le_coreUnits (nunits nbytes)
    unfold HEAP_MAX at hlarge
    omega
  | wraps _ hbrk hcall =>
    rw [initList_brk] at hcall
    exact ⟨by omega, hcall⟩

end DzOS.Proofs.Libc
