import DzOS.Lib.Run
import DzOS.Proofs.Mem.KernelMapping
import DzOS.Proofs.Mem.SpaceItems
import DzOS.Sched.Scheduler

/-!
# `DzOS.Proofs.Mem.KernelStack`: the slots of the kernel stacks

A slot has a guard page and four stack pages, and the slots lie one behind the other.
`SlotMapped t i guard frames` says which entries a used slot has: the entry of the guard page
has a frame but is not present, and each stack page has a frame of its own.

`vmmAllocateProcKernelStack_slot` and `vmmFreeProcKernelStackFrames_slot` are the two calls, by
their effect on the entries. `kernelStack_slot` puts them together: what one slot has survives
every run of calls for the others, and its release gives back the frames that it got.
-/

set_option autoImplicit false

namespace DzOS.Proofs.Mem

open scoped List

open DzOS.Lib DzOS.Mem DzOS.Sched
open DzOS.Proofs.Mem.SpaceItems (PageOk)

variable {e va pa q top guard physMaxEnd : UInt64} {perm : PtePermissions} {t t' t'' : PageTree 3}
  {i j k left : Nat} {pages rest frames : List UInt64}

/-! ### The pages of a slot -/

/-- `q` lies in the slot `i`. -/
def OnSlot (i : Nat) (q : UInt64) : Prop :=
  SamePage q (kernelStackVa i) ∨ OnStack i 0 STACK_PAGES q

/-- The five pages of a slot. -/
def slotPages (i : Nat) : List UInt64 :=
  kernelStackVa i :: (List.range STACK_PAGES).map (stackPageVa i)

/-- A page of the slot is the guard page or one of the stack pages. -/
theorem mem_slotPages : va ∈ slotPages i ↔
    va = kernelStackVa i ∨ ∃ k, k < STACK_PAGES ∧ va = stackPageVa i k := by
  simp only [slotPages, List.mem_cons, List.mem_map, List.mem_range, eq_comm]

/-- A slot is its five pages. -/
theorem onSlot_iff : OnSlot i q ↔ ∃ va ∈ slotPages i, SamePage q va := by
  constructor
  · rintro (hguard | ⟨k, -, hk, hsame⟩)
    · exact ⟨_, mem_slotPages.mpr (Or.inl rfl), hguard⟩
    · rw [Nat.zero_add] at hk
      exact ⟨_, mem_slotPages.mpr (Or.inr ⟨k, hk, rfl⟩), hsame⟩
  · rintro ⟨va, hva, hsame⟩
    rcases mem_slotPages.mp hva with rfl | ⟨k, hk, rfl⟩
    · exact Or.inl hsame
    · exact Or.inr ⟨k, Nat.zero_le k, by omega, hsame⟩

/-- The pages of a slot lie in the kernel half. -/
theorem stackPageVa_ge (hi : i < 64) (hk : k < STACK_PAGES) :
    ¬ stackPageVa i k < KERNEL_VA_MIN := by
  have hmin : KERNEL_VA_MIN.toNat = 2 ^ 47 := by decide
  have hva := toNat_stackPageVa hi hk
  rw [UInt64.lt_iff_toNat_lt]
  omega

theorem kernelStackVa_ge (hi : i < 64) : ¬ kernelStackVa i < KERNEL_VA_MIN := by
  have hmin : KERNEL_VA_MIN.toNat = 2 ^ 47 := by decide
  have hva := toNat_kernelStackVa hi
  rw [UInt64.lt_iff_toNat_lt]
  omega

/-- No page of a slot lies in another slot. -/
theorem not_onSlot (hi : i < 64) (hj : j < 64) (hij : i ≠ j) (hva : va ∈ slotPages i) :
    ¬ OnSlot j va := by
  rw [onSlot_iff]
  rintro ⟨va', hva', hsame⟩
  rw [samePage_iff] at hsame
  have hguard := guardPage_number hi
  have hguard' := guardPage_number hj
  rcases mem_slotPages.mp hva with rfl | ⟨k, hk, rfl⟩
  · rcases mem_slotPages.mp hva' with rfl | ⟨k', hk', rfl⟩
    · omega
    · have hpage' := stackPage_number hj hk'
      have hcount : STACK_PAGES = 4 := by decide
      omega
  · have hpage := stackPage_number hi hk
    have hcount : STACK_PAGES = 4 := by decide
    rcases mem_slotPages.mp hva' with rfl | ⟨k', hk', rfl⟩
    · omega
    · have hpage' := stackPage_number hj hk'
      omega

/-! ### One page -/

/-- The leaves outside of `on` are kept, and the open ways too. -/
structure KeptOff (t t' : PageTree 3) (on : UInt64 → Prop) : Prop where
  kept : ∀ q, ¬ on q → Kept t t' q
  opens : ∀ q, OpenPath t q → OpenPath t' q

theorem KeptOff.trans {on on' on'' : UInt64 → Prop} (h : KeptOff t t' on) (h' : KeptOff t' t'' on')
    (hon : ∀ q, on q → on'' q) (hon' : ∀ q, on' q → on'' q) : KeptOff t t'' on'' where
  kept q hq := (h.kept q fun hc => hq (hon q hc)).trans (h'.kept q fun hc => hq (hon' q hc))
  opens q hq := h'.opens q (h.opens q hq)

/-- A walk of the kernel with a write to the leaf that it found. -/
theorem walkKernel_writeLeaf (hwalk : walkKernel t va pages = .ok (true, t', rest)) (v : UInt64) :
    readLeaf (writeLeaf t' va v) va = some v ∧
      KeptOff t (writeLeaf t' va v) (fun q => SamePage q va) := by
  have hkept := walkKernel_walkKept hwalk
  have hset := leafSet_write (hkept.slot rfl) hkept.kept v
  exact ⟨hset.own, hset.others, fun q hq => openPath_writeLeaf v (hkept.opens q hq)⟩

/-- A walk of the kernel with three pages succeeds. -/
theorem walkKernel_succeeds (hva : ¬ va < KERNEL_VA_MIN) (hpages : 3 ≤ pages.length) :
    ∃ t' rest, walkKernel t va pages = .ok (true, t', rest) ∧ pages.length ≤ rest.length + 3 := by
  rcases hext : extendPath (PTE_P ||| PTE_W) t va pages with ⟨ok, t', rest⟩
  have hwalk : walkKernel t va pages = .ok (ok, t', rest) := by
    rw [walkKernel, if_neg hva, hext]
  obtain ⟨rfl, hlen⟩ := (walkKernel_walkKept hwalk).enough hpages
  exact ⟨t', rest, hwalk, hlen⟩

/-- `vmm_map_kernel_pages` of one page is a walk with a write. -/
theorem vmmMapKernelPages_page (hva : va.toNat % 4096 = 0) (hpa : pa.toNat % 4096 = 0) :
    vmmMapKernelPages t va pa PAGE_SIZE.toUInt64 perm pages =
      mapKernelPagesFrom va pa perm 1 0 t pages := by
  have hal : ∀ a : UInt64, a.toNat % 4096 = 0 → a % PAGE_SIZE.toUInt64 = 0 := by
    intro a ha
    rw [← UInt64.toNat_inj, UInt64.toNat_mod, toNat_PAGE_SIZE_toUInt64, UInt64.toNat_zero]
    exact ha
  have hnot : ¬ (va % PAGE_SIZE.toUInt64 ≠ 0 ∨ pa % PAGE_SIZE.toUInt64 ≠ 0 ∨
      PAGE_SIZE.toUInt64 % PAGE_SIZE.toUInt64 ≠ 0) := by
    rw [hal va hva, hal pa hpa, hal _ (by decide)]
    simp
  rw [vmmMapKernelPages, if_neg hnot, show (PAGE_SIZE.toUInt64 / PAGE_SIZE.toUInt64).toNat = 1 by
    decide]

/-- The leaf that a successful mapping of one page wrote. -/
theorem vmmMapKernelPages_leaf {r : Int} (hr : ¬ r < 0)
    (h : vmmMapKernelPages t va pa PAGE_SIZE.toUInt64 perm pages = .ok (r, t', rest)) :
    readLeaf t' va = some (kernelPte pa perm) ∧ KeptOff t t' (fun q => SamePage q va) ∧
      rest <:+ pages := by
  unfold vmmMapKernelPages at h
  split at h
  · cases h
  have hcount : (PAGE_SIZE.toUInt64 / PAGE_SIZE.toUInt64).toNat = 1 := by decide
  have hzero : ∀ a : UInt64, a + UInt64.ofNat 0 * PAGE_SIZE.toUInt64 = a := by simp
  rw [hcount, mapKernelPagesFrom, hzero] at h
  split at h
  · cases h
  · cases h
    exact absurd (by decide) hr
  · rename_i t₁ pages₁ hwalk
    split at h
    · cases h
    · rw [hzero] at h
      cases h
      obtain ⟨hleaf, hkept⟩ := walkKernel_writeLeaf hwalk (kernelPte pa perm)
      exact ⟨hleaf, hkept, (walkKernel_walkKept hwalk).supply⟩

/-- A page that is not present can be mapped with three pages for tables. -/
theorem vmmMapKernelPages_succeeds (perm : PtePermissions) (hva : va.toNat % 4096 = 0)
    (hpa : pa.toNat % 4096 = 0) (hge : ¬ va < KERNEL_VA_MIN) (habsent : ¬ Present t va)
    (hpages : 3 ≤ pages.length) :
    ∃ t' rest, vmmMapKernelPages t va pa PAGE_SIZE.toUInt64 perm pages = .ok (0, t', rest) ∧
      pages.length ≤ rest.length + 3 := by
  obtain ⟨t₁, rest, hwalk, hlen⟩ := walkKernel_succeeds (t := t) hge hpages
  have habsent₁ : ¬ leafPresent t₁ va = true := fun h => habsent (((walkKernel_ok hwalk).1 va).mp h)
  have hzero : ∀ a : UInt64, a + UInt64.ofNat 0 * PAGE_SIZE.toUInt64 = a := by simp
  refine ⟨writeLeaf t₁ va (kernelPte pa perm), rest, ?_, hlen⟩
  rw [vmmMapKernelPages_page hva hpa, mapKernelPagesFrom, hzero, hwalk]
  dsimp only
  rw [if_neg habsent₁, hzero]
  rfl

/-! ### The stack pages -/

/-- The entry of a stack page. -/
theorem stackPte_flags (hok : PageOk physMaxEnd pa) :
    pteFollow (kernelPte pa stackPermissions) = pa ∧
      pteIsWritable (kernelPte pa stackPermissions) = true ∧
      pteIsUser (kernelPte pa stackPermissions) = false ∧
      pteIsExecutable (kernelPte pa stackPermissions) = false := by
  have hpte : kernelPte pa stackPermissions = (PTE_P ||| PTE_W ||| PTE_XD) ||| PTE_SET_ADDR pa := by
    simp only [kernelPte, stackPermissions, if_true, Bool.not_false]
    ac_rfl
  rw [hpte]
  refine ⟨(pte_flags_addr _ (by decide) (by decide) hok.aligned hok.lt).2, ?_, ?_, ?_⟩
  · rw [pteIsWritable, flags_and_addr (by decide)]
    decide
  · rw [pteIsUser, flags_and_addr (by decide)]
    decide
  · rw [pteIsExecutable, flags_and_addr (by decide)]
    decide

/-- The stack pages from the `k`-th on have the frames of the list. -/
def StackMapped (t : PageTree 3) (i k : Nat) (frames : List UInt64) : Prop :=
  ∀ j f, frames[j]? = some f →
    readLeaf t (stackPageVa i (k + j)) = some (kernelPte f stackPermissions)

/-- The first page and the rest of them. -/
theorem stackMapped_cons {f : UInt64} : StackMapped t i k (f :: frames) ↔
    readLeaf t (stackPageVa i k) = some (kernelPte f stackPermissions) ∧
      StackMapped t i (k + 1) frames := by
  constructor
  · intro h
    refine ⟨h 0 f rfl, fun j g hg => ?_⟩
    rw [Nat.add_assoc, Nat.add_comm 1 j]
    exact h (j + 1) g hg
  · rintro ⟨hfirst, hrest⟩ j g hg
    cases j with
    | zero =>
      cases hg
      exact hfirst
    | succ j =>
      have hnext := hrest j g hg
      rwa [Nat.add_assoc, Nat.add_comm 1 j] at hnext

/-- Entries that stay keep the stack. -/
theorem StackMapped.mono (h : StackMapped t i k frames)
    (hkept : ∀ j < frames.length, Kept t t' (stackPageVa i (k + j))) :
    StackMapped t' i k frames := by
  intro j f hf
  obtain ⟨hj, -⟩ := List.getElem?_eq_some_iff.mp hf
  exact (hkept j hj).eq_some (h j f hf)

/-- The pages behind the `k`-th do not lie in it. -/
theorem not_samePage_next (hi : i < 64) (hk : k < STACK_PAGES) (hj : k + 1 + j < STACK_PAGES) :
    ¬ SamePage (stackPageVa i (k + 1 + j)) (stackPageVa i k) := by
  rw [samePage_stackPage hi hi hj hk]
  omega

/-- The loop of `vmm_allocate_proc_kernel_stack`. Each page takes its frame out of the supply. -/
theorem mapStackPages_frames (hi : i < 64) (hk : k + left ≤ STACK_PAGES)
    (h : mapStackPages i left k t pages = .ok (t', rest)) :
    ∃ frames, frames.length = left ∧ StackMapped t' i k frames ∧ (frames ++ rest) <+ pages ∧
      KeptOff t t' (OnStack i k left) := by
  induction left generalizing k t pages with
  | zero =>
    cases h
    refine ⟨[], rfl, fun j f hf => ?_, List.Sublist.refl _, fun q _ => Kept.refl _ q,
      fun q hq => hq⟩
    cases hf
  | succ left ih =>
    unfold mapStackPages at h
    split at h
    · cases h
    · rename_i kernelPa pages₁
      split at h
      · cases h
      · rename_i r t₁ pages₂ hmap
        split at h
        · cases h
        · rename_i hr
          obtain ⟨hleaf, hone, hsupply⟩ := vmmMapKernelPages_leaf hr hmap
          have hk₁ : k + 1 + left ≤ STACK_PAGES := by omega
          obtain ⟨frames, hlen, hmapped, hsub, hkept⟩ := ih hk₁ h
          refine ⟨kernelPa :: frames, by rw [List.length_cons, hlen], ?_, ?_, ?_⟩
          · -- The later pages lie elsewhere, so the entry of the first one stays.
            refine stackMapped_cons.mpr ⟨(hkept.kept _ ?_).eq_some hleaf, hmapped⟩
            rintro ⟨j, hkj, hj, hsame⟩
            rw [samePage_stackPage hi hi (by omega) (by omega)] at hsame
            omega
          · exact (hsub.trans hsupply.sublist).cons_cons kernelPa
          · exact hone.trans hkept (fun q hq => onStack_succ.mpr (Or.inl hq))
              (fun q hq => onStack_succ.mpr (Or.inr hq))

/-- The loop succeeds when no page of it is present and four pages are left for each of them: the
frame, and three tables. -/
theorem mapStackPages_succeeds (hi : i < 64) (hk : k + left ≤ STACK_PAGES)
    (hal : ∀ p ∈ pages, p.toNat % 4096 = 0)
    (habsent : ∀ j, k ≤ j → j < k + left → ¬ Present t (stackPageVa i j))
    (hpages : 4 * left ≤ pages.length) : ∃ r, mapStackPages i left k t pages = .ok r := by
  induction left generalizing k t pages with
  | zero => exact ⟨_, rfl⟩
  | succ left ih =>
    cases pages with
    | nil =>
      rw [List.length_nil] at hpages
      omega
    | cons kernelPa pages =>
      rw [List.length_cons] at hpages
      have hfirst : k < STACK_PAGES := by omega
      have hthree : 3 ≤ pages.length := by omega
      have hva : (stackPageVa i k).toNat % 4096 = 0 := by
        rw [toNat_stackPageVa hi hfirst]
        omega
      obtain ⟨t₁, pages₁, hmap, hlen⟩ := vmmMapKernelPages_succeeds stackPermissions hva
        (hal kernelPa List.mem_cons_self) (stackPageVa_ge hi hfirst)
        (habsent k (Nat.le_refl k) (by omega)) hthree
      -- The pages that are left come from the same supply, and one page more is present.
      obtain ⟨-, -, hsupply⟩ := vmmMapKernelPages_leaf (by decide) hmap
      have hpresent := ((vmmMapKernelPages_one hmap).1 0 t₁ pages₁ rfl (Int.le_refl 0)).2
      have hrest : ∃ r, mapStackPages i left (k + 1) t₁ pages₁ = .ok r := by
        have hk₁ : k + 1 + left ≤ STACK_PAGES := by omega
        have hlen₁ : 4 * left ≤ pages₁.length := by omega
        refine ih hk₁ (fun p hp => hal p (List.mem_cons_of_mem _ (hsupply.subset hp))) ?_ hlen₁
        intro j hkj hj hp
        rcases (hpresent _).mp hp with hsame | hold
        · rw [samePage_stackPage hi hi (by omega) hfirst] at hsame
          omega
        · exact habsent j (by omega) (by omega) hold
      rw [mapStackPages, hmap]
      dsimp only
      rw [if_neg (by decide)]
      exact hrest

/-- The loop of `vmm_free_proc_kernel_stack`. The frames come back in the order of their pages. -/
theorem freeStackPages_frames (hi : i < 64) (hk : k + frames.length ≤ STACK_PAGES)
    (hok : ∀ f ∈ frames, PageOk physMaxEnd f) (hmapped : StackMapped t i k frames) :
    ∃ t', freeStackPages i frames.length k t = .ok (t', frames) ∧
      (∀ j < frames.length, readLeaf t' (stackPageVa i (k + j)) = some 0) ∧
      ∀ q, ¬ OnStack i k frames.length q → readLeaf t' q = readLeaf t q := by
  induction frames generalizing k t with
  | nil =>
    refine ⟨t, rfl, fun j hj => ?_, fun q _ => rfl⟩
    exact absurd hj (Nat.not_lt_zero j)
  | cons f frames ih =>
    rw [List.length_cons] at hk
    obtain ⟨hread, hnext⟩ := stackMapped_cons.mp hmapped
    have hfirst : k < STACK_PAGES := by omega
    have hk₁ : k + 1 + frames.length ≤ STACK_PAGES := by omega
    -- Clearing the entry of this page leaves those of the later pages.
    have hnext₁ : StackMapped (writeLeaf t (stackPageVa i k) 0) i (k + 1) frames := by
      refine hnext.mono fun j hj => Or.inl ?_
      exact readLeaf_writeLeaf_of_ne 0 (not_samePage_next hi hfirst (by omega))
    obtain ⟨t', hfree, hzero, hothers⟩ :=
      ih hk₁ (fun g hg => hok g (List.mem_cons_of_mem f hg)) hnext₁
    refine ⟨t', ?_, ?_, ?_⟩
    · have hfollow := (stackPte_flags (hok f List.mem_cons_self)).1
      rw [List.length_cons, freeStackPages, walkKernelNoAlloc, if_neg (stackPageVa_ge hi hfirst),
        hread]
      dsimp only
      rw [kernelPte_present, hfree, hfollow]
      rfl
    · intro j hj
      cases j with
      | zero =>
        -- The rest of the loop does not come back to this page.
        have hkeep : readLeaf t' (stackPageVa i k) =
            readLeaf (writeLeaf t (stackPageVa i k) 0) (stackPageVa i k) := by
          refine hothers _ ?_
          rintro ⟨j, hkj, hj, hsame⟩
          rw [samePage_stackPage hi hi hfirst (by omega)] at hsame
          omega
        have hleaf : (readLeaf t (stackPageVa i k)).isSome := by
          rw [hread]
          rfl
        rw [Nat.add_zero, hkeep, readLeaf, writeLeaf, Radix.leaf_setLeaf hleaf]
        exact if_pos (samePage_refl _)
      | succ j =>
        rw [List.length_cons] at hj
        have hz := hzero j (by omega)
        rwa [Nat.add_assoc, Nat.add_comm 1 j] at hz
    · intro q hq
      rw [List.length_cons, onStack_succ, not_or] at hq
      rw [hothers q hq.2, readLeaf_writeLeaf_of_ne 0 hq.1]

/-! ### The two calls -/

/-- The entries of a used slot: the guard page has the frame `guard` but is not present, and the
stack pages have the frames of the list. -/
structure SlotMapped (t : PageTree 3) (i : Nat) (guard : UInt64) (frames : List UInt64) :
    Prop where
  guard : readLeaf t (kernelStackVa i) = some (PTE_SET_ADDR guard)
  stack : StackMapped t i 0 frames
  count : frames.length = STACK_PAGES

/-- Every page of a used slot has an entry. -/
theorem SlotMapped.entry (h : SlotMapped t i guard frames) (hva : va ∈ slotPages i) :
    ∃ e, readLeaf t va = some e := by
  rcases mem_slotPages.mp hva with rfl | ⟨k, hk, rfl⟩
  · exact ⟨_, h.guard⟩
  · rw [← h.count] at hk
    have hread := h.stack k frames[k] (List.getElem?_eq_getElem hk)
    rw [Nat.zero_add] at hread
    exact ⟨_, hread⟩

/-- Entries that stay keep the slot. -/
theorem SlotMapped.congr (h : SlotMapped t i guard frames)
    (hsame : ∀ va ∈ slotPages i, readLeaf t' va = readLeaf t va) :
    SlotMapped t' i guard frames where
  guard := (hsame _ (mem_slotPages.mpr (Or.inl rfl))).trans h.guard
  stack := by
    refine h.stack.mono fun j hj => Or.inl (hsame _ (mem_slotPages.mpr (Or.inr ⟨j, ?_, ?_⟩)))
    · rw [← h.count]
      exact hj
    · rw [Nat.zero_add]
  count := h.count

/-- `vmm_allocate_proc_kernel_stack` maps its slot, with five frames out of the supply. -/
theorem vmmAllocateProcKernelStack_slot (hi : i < 64)
    (h : vmmAllocateProcKernelStack t i pages = .ok (top, t', rest)) :
    ∃ guard frames, SlotMapped t' i guard frames ∧ (guard :: frames ++ rest) <+ pages ∧
      KeptOff t t' (OnSlot i) ∧
      top = kernelStackVa i + KERNEL_STACK_GUARD_SIZE + KERNEL_STACK_SIZE := by
  unfold vmmAllocateProcKernelStack at h
  split at h
  · cases h
  · cases h
  · cases h
  · rename_i t₁ guard pages₁ hwalk
    dsimp only at h
    split at h
    · cases h
    · rename_i t₂ pages₂ hmap
      obtain ⟨htop, htail⟩ := Prod.mk.inj (Except.ok.inj h)
      obtain ⟨rfl, rfl⟩ := Prod.mk.inj htail
      obtain ⟨hguard, hone⟩ := walkKernel_writeLeaf hwalk (PTE_SET_ADDR guard)
      have hfour : 0 + STACK_PAGES ≤ STACK_PAGES := Nat.le_of_eq (Nat.zero_add _)
      obtain ⟨frames, hlen, hmapped, hsub, hkept⟩ := mapStackPages_frames hi hfour hmap
      refine ⟨guard, frames, ⟨?_, hmapped, hlen⟩, ?_, ?_, htop.symm⟩
      · -- The stack pages lie above the guard page.
        refine (hkept.kept _ ?_).eq_some hguard
        rintro ⟨k, -, hk, hsame⟩
        exact not_samePage_guard hi hi (by omega) fun l hl => (hsame l hl).symm
      · exact (hsub.cons_cons guard).trans (walkKernel_walkKept hwalk).supply.sublist
      · exact hone.trans hkept (fun q hq => Or.inl hq) (fun q hq => Or.inr hq)

/-- `vmm_allocate_proc_kernel_stack` succeeds when no stack page of the slot is present and twenty
pages are left: five frames, and three tables for each of them. -/
theorem vmmAllocateProcKernelStack_succeeds (hi : i < 64)
    (hal : ∀ p ∈ pages, p.toNat % 4096 = 0)
    (habsent : ∀ k < STACK_PAGES, ¬ Present t (stackPageVa i k)) (hpages : 20 ≤ pages.length) :
    ∃ top t' rest, vmmAllocateProcKernelStack t i pages = .ok (top, t', rest) := by
  have hthree : 3 ≤ pages.length := by omega
  obtain ⟨t₁, pages₁, hwalk, hlen⟩ := walkKernel_succeeds (t := t) (kernelStackVa_ge hi) hthree
  have hsupply := (walkKernel_walkKept hwalk).supply
  rw [vmmAllocateProcKernelStack, hwalk]
  cases pages₁ with
  | nil =>
    rw [List.length_nil] at hlen
    omega
  | cons guard pages₂ =>
    have hfour : 0 + STACK_PAGES ≤ STACK_PAGES := Nat.le_of_eq (Nat.zero_add _)
    have hmemory : 4 * STACK_PAGES ≤ pages₂.length := by
      rw [List.length_cons] at hlen
      have hcount : STACK_PAGES = 4 := by decide
      omega
    have hal₂ : ∀ p ∈ pages₂, p.toNat % 4096 = 0 :=
      fun p hp => hal p (hsupply.subset (List.mem_cons_of_mem guard hp))
    -- The guard page is none of the stack pages, so those are still absent.
    have habsent₂ : ∀ j, 0 ≤ j → j < 0 + STACK_PAGES →
        ¬ Present (writeLeaf t₁ (kernelStackVa i) (PTE_SET_ADDR guard)) (stackPageVa i j) := by
      intro j _ hj hp
      rw [Nat.zero_add] at hj
      rw [present_writeLeaf ((walkKernel_ok hwalk).2 rfl)] at hp
      rcases hp with ⟨hsame, -⟩ | ⟨-, hold⟩
      · exact not_samePage_guard hi hi hj hsame
      · exact habsent j hj (((walkKernel_ok hwalk).1 _).mp hold)
    obtain ⟨r, hmap⟩ := mapStackPages_succeeds hi hfour hal₂ habsent₂ hmemory
    dsimp only
    rw [hmap]
    exact ⟨_, _, _, rfl⟩

/-- `vmm_free_proc_kernel_stack` of a used slot clears its entries, and the frames go back. -/
theorem vmmFreeProcKernelStackFrames_slot (hi : i < 64) (h : SlotMapped t i guard frames)
    (hok : ∀ f ∈ guard :: frames, PageOk physMaxEnd f) :
    ∃ t', vmmFreeProcKernelStackFrames t i = .ok (t', guard :: frames) ∧
      (∀ va ∈ slotPages i, readLeaf t' va = some 0) ∧
      ∀ q, ¬ OnSlot i q → readLeaf t' q = readLeaf t q := by
  have hfour : 0 + frames.length ≤ STACK_PAGES := by
    rw [Nat.zero_add, h.count]
  have hmapped : StackMapped (writeLeaf t (kernelStackVa i) 0) i 0 frames := by
    refine h.stack.mono fun j hj => Or.inl (readLeaf_writeLeaf_of_ne 0 ?_)
    rw [h.count] at hj
    rw [Nat.zero_add]
    exact not_samePage_guard hi hi hj
  obtain ⟨t', hfree, hzero, hothers⟩ := freeStackPages_frames hi hfour
    (fun f hf => hok f (List.mem_cons_of_mem guard hf)) hmapped
  rw [h.count] at hfree hzero hothers
  -- The entry of the guard page is not present, but it has its frame.
  have hfollow : pteFollow (PTE_SET_ADDR guard) = guard := by
    have hg := hok guard List.mem_cons_self
    rw [pteFollow, PTE_SET_ADDR, UInt64.and_assoc, UInt64.and_self]
    exact PTE_SET_ADDR_eq hg.aligned hg.lt
  refine ⟨t', ?_, ?_, ?_⟩
  · rw [vmmFreeProcKernelStackFrames, walkKernelNoAlloc, if_neg (kernelStackVa_ge hi), h.guard]
    dsimp only
    rw [hfree, hfollow]
  · intro va hva
    rcases mem_slotPages.mp hva with rfl | ⟨k, hk, rfl⟩
    · have hguard : ¬ OnStack i 0 STACK_PAGES (kernelStackVa i) := by
        rintro ⟨k, -, hk, hsame⟩
        exact not_samePage_guard hi hi (by omega) fun l hl => (hsame l hl).symm
      have hleaf : (readLeaf t (kernelStackVa i)).isSome := by
        rw [h.guard]
        rfl
      rw [hothers _ hguard, readLeaf, writeLeaf, Radix.leaf_setLeaf hleaf]
      exact if_pos (samePage_refl _)
    · have hz := hzero k hk
      rwa [Nat.zero_add] at hz
  · intro q hq
    unfold OnSlot at hq
    rw [not_or] at hq
    rw [hothers q hq.2, readLeaf_writeLeaf_of_ne 0 hq.1]

/-! ### Other slots -/

/-- The loop that releases the stack pages, without the frames. -/
theorem freeStackPages_fst (i left k : Nat) (t : PageTree 3) :
    (freeStackPages i left k t).map Prod.fst = unmapStackPages i left k t := by
  induction left generalizing k t with
  | zero => rfl
  | succ left ih =>
    rw [freeStackPages, unmapStackPages]
    cases walkKernelNoAlloc t (stackPageVa i k) with
    | error e => rfl
    | ok pte =>
      cases pte with
      | none => rfl
      | some pte =>
        dsimp only [Option.any_some]
        rw [← ih]
        by_cases hp : pteIsPresent pte = true
        · rw [if_pos hp, hp, if_neg (by decide)]
          generalize freeStackPages i left (k + 1) (writeLeaf t (stackPageVa i k) 0) = r
          cases r with
          | error e => rfl
          | ok r => rfl
        · rw [if_neg hp, Bool.not_eq_true _ |>.mp hp, if_pos (by decide)]
          rfl

/-- Without its frames, the call is `vmmFreeProcKernelStack`. -/
theorem vmmFreeProcKernelStackFrames_fst (t : PageTree 3) (i : Nat) :
    (vmmFreeProcKernelStackFrames t i).map Prod.fst = vmmFreeProcKernelStack t i := by
  rw [vmmFreeProcKernelStackFrames, vmmFreeProcKernelStack]
  cases walkKernelNoAlloc t (kernelStackVa i) with
  | error e => rfl
  | ok guardPte =>
    cases guardPte with
    | none => exact freeStackPages_fst i STACK_PAGES 0 t
    | some guardPte =>
      dsimp only [Option.isSome_some]
      rw [if_pos rfl, ← freeStackPages_fst]
      generalize freeStackPages i STACK_PAGES 0 (writeLeaf t (kernelStackVa i) 0) = r
      cases r with
      | error e => rfl
      | ok r => rfl

/-- A call for another slot leaves the entries of a used slot as they are. -/
theorem stackStep_kept {c : StackCall} (hi : i < 64) (hc : c.slot < 64) (hne : c.slot ≠ i)
    (hstep : stackStep t c = some t') (hva : va ∈ slotPages i) (he : readLeaf t va = some e) :
    readLeaf t' va = some e := by
  have hoff := not_onSlot hi hc hne.symm hva
  cases c with
  | allocate j pages =>
    obtain ⟨⟨top, t₁, rest⟩, hcall, rfl⟩ := Option.map_eq_some_iff.mp hstep
    obtain ⟨-, -, -, -, hkept, -⟩ := vmmAllocateProcKernelStack_slot hc (eq_ok_of_toOption hcall)
    exact (hkept.kept va hoff).eq_some he
  | free j =>
    obtain ⟨⟨t₁, frames⟩, hcall, rfl⟩ := Option.map_eq_some_iff.mp hstep
    have hfree : vmmFreeProcKernelStack t j = .ok t₁ := by
      rw [← vmmFreeProcKernelStackFrames_fst, eq_ok_of_toOption hcall]
      rfl
    unfold OnSlot at hoff
    rw [not_or] at hoff
    rw [readLeaf_vmmFreeProcKernelStack hfree hoff.1 hoff.2]
    exact he

/-- So does a run of such calls. -/
theorem runSteps_kept {calls : List StackCall} (hi : i < 64)
    (hcalls : ∀ c ∈ calls, c.slot < 64 ∧ c.slot ≠ i) (hrun : runSteps stackStep t calls = some t')
    (hva : va ∈ slotPages i) (he : readLeaf t va = some e) : readLeaf t' va = some e := by
  induction calls generalizing t with
  | nil =>
    cases hrun
    exact he
  | cons c calls ih =>
    obtain ⟨t₁, hstep, hrest⟩ := runSteps_cons_some hrun
    obtain ⟨hc, hne⟩ := hcalls c List.mem_cons_self
    exact ih (fun d hd => hcalls d (List.mem_cons_of_mem c hd)) hrest
      (stackStep_kept hi hc hne hstep hva he)

/-! ### Slots are independent and reversible -/

/-- What a used slot must be. -/
structure StackSlot (t : PageTree 3) (i : Nat) (guard : UInt64) (frames : List UInt64) :
    Prop where
  guardAbsent : ¬ Present t (kernelStackVa i)
  guardFrame : (readLeaf t (kernelStackVa i)).map pteFollow = some guard
  count : frames.length = STACK_PAGES
  stack : ∀ k f, frames[k]? = some f → ∃ e, readLeaf t (stackPageVa i k) = some e ∧
    pteIsPresent e = true ∧ pteIsWritable e = true ∧ pteIsUser e = false ∧
    pteIsExecutable e = false ∧ pteFollow e = f
  distinct : (guard :: frames).Nodup

/-- The entries of a used slot are as they must be. -/
theorem SlotMapped.stackSlot (h : SlotMapped t i guard frames)
    (hok : ∀ f ∈ guard :: frames, PageOk physMaxEnd f) (hnodup : (guard :: frames).Nodup) :
    StackSlot t i guard frames where
  guardAbsent hp := by
    rw [Present, leafPresent, h.guard, Option.any_some, addr_not_present] at hp
    cases hp
  guardFrame := by
    have hg := hok guard List.mem_cons_self
    rw [h.guard, Option.map_some, pteFollow, PTE_SET_ADDR, UInt64.and_assoc, UInt64.and_self]
    exact congrArg some (PTE_SET_ADDR_eq hg.aligned hg.lt)
  count := h.count
  stack k f hf := by
    have hread := h.stack k f hf
    rw [Nat.zero_add] at hread
    have hmem : f ∈ frames := List.mem_of_getElem? hf
    obtain ⟨hfollow, hwrite, huser, hexec⟩ :=
      stackPte_flags (hok f (List.mem_cons_of_mem guard hmem))
    exact ⟨_, hread, kernelPte_present _ _, hwrite, huser, hexec, hfollow⟩
  distinct := hnodup

/-- The CPU reaches the frame of a stack page when the tables on the way allow writing. -/
theorem StackSlot.translate (hi : i < 64) (h : StackSlot t i guard frames) (hk : k < STACK_PAGES)
    (hopen : OpenPath t (stackPageVa i k)) :
    ∃ f ∈ frames, translate t (stackPageVa i k) = some ⟨f, 0, true, false, false⟩ := by
  rw [← h.count] at hk
  have hf := List.getElem?_eq_getElem hk
  obtain ⟨e, hread, hpresent, hwrite, huser, hexec, hfollow⟩ := h.stack k _ hf
  refine ⟨_, List.mem_of_getElem? hf, ?_⟩
  have hcanonical : canonical (stackPageVa i k) = true := by
    unfold canonical
    have hle : (0xFFFF800000000000 : UInt64) ≤ stackPageVa i k := by
      rw [h.count] at hk
      rw [UInt64.le_iff_toNat_le, toNat_stackPageVa hi hk,
        show (0xFFFF800000000000 : UInt64).toNat = 0xFFFF800000000000 by decide]
      omega
    rw [Bool.or_eq_true]
    exact Or.inr (decide_eq_true hle)
  rw [translate_open hcanonical hopen hread hpresent huser hexec, hfollow, hwrite]

/-- The pages of a call for one slot are present in no other. -/
theorem absent_other {pages' : List UInt64} (hi : i < 64) (hj : j < 64) (hij : i ≠ j)
    (h : vmmAllocateProcKernelStack t i pages = .ok (top, t', rest))
    (habsent : ∀ k < STACK_PAGES, ¬ Present t (stackPageVa j k))
    (hal : ∀ p ∈ pages', p.toNat % 4096 = 0) (hmemory : 20 ≤ pages'.length) :
    ∃ top' u rest', vmmAllocateProcKernelStack t' j pages' = .ok (top', u, rest') := by
  refine vmmAllocateProcKernelStack_succeeds hj hal (fun k hk hp => ?_) hmemory
  rcases ((vmmAllocateProcKernelStack_ok hi h).2 _).mp hp with ⟨k', -, hk', hsame⟩ | ⟨hold, -⟩
  · rw [samePage_stackPage hj hi hk (by omega)] at hsame
    exact hij hsame.1.symm
  · exact habsent k hk hold

/-- After `vmm_allocate_proc_kernel_stack(i)` the slot `i` has a guard page and four stack pages
with frames of their own, no run of calls for other slots changes its entries, and
`vmm_free_proc_kernel_stack(i)` clears them and gives back its five frames. -/
theorem kernelStack_slot (hi : i < MAX_PROCESSES) (hj : j < MAX_PROCESSES) (hij : i ≠ j)
    (hfree : ∀ va ∈ slotPages i, ¬ Present t va) (hfree' : ∀ va ∈ slotPages j, ¬ Present t va)
    (hok : ∀ p ∈ pages, PageOk physMaxEnd p) (hnodup : pages.Nodup) (hmemory : 20 ≤ pages.length) :
    ∃ top t' rest guard frames,
      vmmAllocateProcKernelStack t i pages = .ok (top, t', rest) ∧
      StackSlot t' i guard frames ∧ (guard :: frames ++ rest) <+ pages ∧
      (∀ k < STACK_PAGES, OpenPath t (stackPageVa i k) →
        ∃ f ∈ frames, translate t' (stackPageVa i k) = some ⟨f, 0, true, false, false⟩) ∧
      (∀ pages' : List UInt64, (∀ p ∈ pages', p.toNat % 4096 = 0) → 20 ≤ pages'.length →
        ∃ top' u rest', vmmAllocateProcKernelStack t' j pages' = .ok (top', u, rest')) ∧
      ∀ calls u, (∀ c ∈ calls, c.slot < MAX_PROCESSES ∧ c.slot ≠ i) →
        runSteps stackStep t' calls = some u →
        (∀ va ∈ slotPages i, readLeaf u va = readLeaf t' va) ∧
        ∃ u', vmmFreeProcKernelStackFrames u i = .ok (u', guard :: frames) ∧
          (∀ va ∈ slotPages i, readLeaf u' va = some 0) ∧
          ∀ q, ¬ OnSlot i q → readLeaf u' q = readLeaf u q := by
  have hal : ∀ p ∈ pages, p.toNat % 4096 = 0 := fun p hp => (hok p hp).aligned
  have habsent : ∀ k < STACK_PAGES, ¬ Present t (stackPageVa i k) :=
    fun k hk => hfree _ (mem_slotPages.mpr (Or.inr ⟨k, hk, rfl⟩))
  have habsent' : ∀ k < STACK_PAGES, ¬ Present t (stackPageVa j k) :=
    fun k hk => hfree' _ (mem_slotPages.mpr (Or.inr ⟨k, hk, rfl⟩))
  obtain ⟨top, t', rest, hcall⟩ := vmmAllocateProcKernelStack_succeeds hi hal habsent hmemory
  obtain ⟨guard, frames, hmapped, hsub, hkept, -⟩ := vmmAllocateProcKernelStack_slot hi hcall
  have hframes : (guard :: frames) <+ pages := (List.sublist_append_left _ _).trans hsub
  have hok' : ∀ f ∈ guard :: frames, PageOk physMaxEnd f := fun f hf => hok f (hframes.subset hf)
  have hslot := hmapped.stackSlot hok' (hnodup.sublist hframes)
  refine ⟨top, t', rest, guard, frames, hcall, hslot, hsub, ?_, ?_, ?_⟩
  · intro k hk hopen
    exact hslot.translate hi hk (hkept.opens _ hopen)
  · intro pages' hal' hmemory'
    exact absent_other hi hj hij hcall habsent' hal' hmemory'
  · intro calls u hcalls hrun
    have hsame : ∀ va ∈ slotPages i, readLeaf u va = readLeaf t' va := by
      intro va hva
      obtain ⟨e, he⟩ := hmapped.entry hva
      rw [he]
      exact runSteps_kept hi hcalls hrun hva he
    exact ⟨hsame, vmmFreeProcKernelStackFrames_slot hi (hmapped.congr hsame) hok'⟩

/-- Twenty pages for a stack. -/
def twentyPages : List UInt64 := (List.range 20).map fun n => UInt64.ofNat ((n + 1) * 4096)

/-- They are pages, and no two of them are the same. -/
theorem twentyPages_ok : (∀ p ∈ twentyPages, PageOk 0x100000 p) ∧ twentyPages.Nodup := by
  have hpage : ∀ n < 20, (UInt64.ofNat ((n + 1) * 4096)).toNat = (n + 1) * 4096 := by
    intro n hn
    rw [UInt64.toNat_ofNat']
    omega
  constructor
  · intro p hp
    obtain ⟨n, hn, rfl⟩ := List.mem_map.mp hp
    have hlt := List.mem_range.mp hn
    have hmax : (0x100000 : UInt64).toNat = 0x100000 := by decide
    refine ⟨?_, UInt64.lt_iff_toNat_lt.mpr ?_, ?_⟩
    · rw [hpage n hlt]
      exact Nat.mul_mod_left _ 4096
    · rw [hpage n hlt, hmax]
      omega
    · rw [hpage n hlt]
      omega
  · refine List.Nodup.map_on (fun m hm n hn h => ?_) List.nodup_range
    have h' := congrArg UInt64.toNat h
    rw [hpage m (List.mem_range.mp hm), hpage n (List.mem_range.mp hn)] at h'
    omega

/-- The slots 0 and 1 of a table without mappings. -/
theorem kernelStack_slot_zero :
    ∃ top t' rest guard frames,
      vmmAllocateProcKernelStack (Radix.empty 0 3) 0 twentyPages = .ok (top, t', rest) ∧
      StackSlot t' 0 guard frames ∧
      ∃ u', vmmFreeProcKernelStackFrames t' 0 = .ok (u', guard :: frames) := by
  have hempty : ∀ i, ∀ va ∈ slotPages i, ¬ Present (Radix.empty 0 3) va := by
    intro i va _ hp
    rw [present_iff, Radix.mapping_empty (by decide)] at hp
    cases hp
  obtain ⟨hok, hnodup⟩ := twentyPages_ok
  have hlength : 20 ≤ twentyPages.length := by decide
  obtain ⟨top, t', rest, guard, frames, hcall, hslot, -, -, -, hcalls⟩ :=
    kernelStack_slot (i := 0) (j := 1) (by decide) (by decide) (by decide) (hempty 0) (hempty 1)
      hok hnodup hlength
  obtain ⟨-, u', hfree, -⟩ := hcalls [] t' (by simp) rfl
  exact ⟨top, t', rest, guard, frames, hcall, hslot, u', hfree⟩

end DzOS.Proofs.Mem
