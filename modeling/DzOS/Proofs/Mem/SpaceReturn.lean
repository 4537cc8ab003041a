import DzOS.Lib.Run
import DzOS.Proofs.Mem.SpaceCreation

/-!
# `DzOS.Proofs.Mem.SpaceReturn`: an address space returns its memory

`Spends` says what the calls on an address space do with the supply of pages: each page that is
taken goes to the user half of the table, or straight back. So the account of a new address space
stays right through its whole life (`Inv.step`), and at its end `vmm_user_pagetable_free` returns
all pages but the lost ones. `addressSpace_returned_iff` says when there are none: the kernel table
must lead to no other table, and the stacks must have found memory for their tables.

A kernel with mappings has tables to copy. `copiedTables_lost` is such a kernel.
-/

set_option autoImplicit false

namespace DzOS.Proofs.Mem.SpaceReturn

open scoped List

open DzOS.Lib DzOS.Mem DzOS.Proofs.Mem DzOS.Proofs.Mem.SpaceItems DzOS.Proofs.Mem.SpaceCreation

variable {mem : Bytes} {newSbrk root : UInt64} {recycled : UInt64 → Bool} {rest pages : List UInt64}
  {t : PageTree 3}

/-! ### The property -/

/-- The page was taken for the address space, and was not given back yet. -/
def Holds (l : Lifetime) (p : UInt64) : Prop := l.space.freed.count p < l.taken.count p

/-- What the allocator promises for a supply of pages: they are pages of the memory, and each is
handed out once, while no one uses it. -/
structure Fresh (physMaxEnd : UInt64) (inUse : Set UInt64) (pages : List UInt64) : Prop where
  ok : ∀ p ∈ pages, PageOk physMaxEnd p
  nodup : pages.Nodup
  new : ∀ p ∈ pages, p ∉ inUse

/-- The allocator keeps its promise in a call: the pages are not in use by the kernel, and not by
the address space. -/
def FreshCall (physMaxEnd : UInt64) (kernelPages : Set UInt64) (l : Lifetime)
    (call : SpaceCall) : Prop :=
  Fresh physMaxEnd (kernelPages ∪ { p | Holds l p }) call.pages

/-- `vmm_user_pagetable_free` returns the memory of the address space: with the pages that were
given back before, all that were taken, each once, and none that the kernel uses. -/
structure Returned (physMaxEnd : UInt64) (kernelPages : Set UInt64) (l : Lifetime) : Prop where
  all : l.space.freed ++ vmmUserPagetableFree physMaxEnd l.space.pagetable l.root ~ l.taken
  once : (vmmUserPagetableFree physMaxEnd l.space.pagetable l.root).Nodup
  spared : ∀ p ∈ vmmUserPagetableFree physMaxEnd l.space.pagetable l.root, p ∉ kernelPages

variable {physMaxEnd : UInt64} {kernelPages : Set UInt64} {l : Lifetime} {p : UInt64}

theorem Holds.mem_taken (h : Holds l p) : p ∈ l.taken :=
  List.count_pos_iff.mp (Nat.lt_of_le_of_lt (Nat.zero_le _) h)

theorem Fresh.perm {inUse : Set UInt64} {pages' : List UInt64} (h : Fresh physMaxEnd inUse pages)
    (hperm : pages ~ pages') :
    Fresh physMaxEnd inUse pages' where
  ok := fun p hp => h.ok p (hperm.mem_iff.mpr hp)
  nodup := hperm.nodup_iff.mp h.nodup
  new := fun p hp => h.new p (hperm.mem_iff.mpr hp)

theorem Fresh.tail {inUse : Set UInt64} {pages : List UInt64}
    (h : Fresh physMaxEnd inUse (p :: pages)) : Fresh physMaxEnd inUse pages where
  ok := fun q hq => h.ok q (List.mem_cons_of_mem _ hq)
  nodup := (List.nodup_cons.mp h.nodup).2
  new := fun q hq => h.new q (List.mem_cons_of_mem _ hq)

/-! ### The calls -/

/-- What a call does with its supply: the pages `used` are taken, some of them are given back at
once, and the others are in the user half. -/
def Spends (physMaxEnd : UInt64) (s s' : UserSpace) : Prop :=
  ∃ used back kept, s.pages = used ++ s'.pages ∧ s'.freed = back ++ s.freed ∧
    used ~ back ++ kept ∧ Gains physMaxEnd s.pagetable s'.pagetable kept

variable {s s' s'' : UserSpace} {va : UInt64} {perm : PtePermissions}
  {clear : Bool} {r : Int} {k i : ℕ}

theorem Spends.refl (s : UserSpace) : Spends physMaxEnd s s :=
  ⟨[], [], [], rfl, rfl, List.Perm.refl _, Gains.refl _⟩

theorem Spends.trans (h : Spends physMaxEnd s s') (h' : Spends physMaxEnd s' s'') :
    Spends physMaxEnd s s'' := by
  obtain ⟨used, back, kept, hpages, hfreed, hperm, hgains⟩ := h
  obtain ⟨used', back', kept', hpages', hfreed', hperm', hgains'⟩ := h'
  refine ⟨used ++ used', back' ++ back, kept ++ kept', ?_, ?_, ?_, hgains.trans hgains'⟩
  · rw [hpages, hpages', List.append_assoc]
  · rw [hfreed', hfreed, List.append_assoc]
  · rw [List.perm_iff_count] at hperm hperm' ⊢
    intro p
    have hcount := hperm p
    have hcount' := hperm' p
    simp only [List.count_append] at hcount hcount' ⊢
    omega

theorem Spends.ok (h : Spends physMaxEnd s s') (hpages : ∀ p ∈ s.pages, PageOk physMaxEnd p) :
    ∀ p ∈ s'.pages, PageOk physMaxEnd p := by
  obtain ⟨used, -, -, hsplit, -⟩ := h
  intro p hp
  exact hpages p (by rw [hsplit]; exact List.mem_append_right _ hp)

section

variable (hpages : ∀ p ∈ s.pages, PageOk physMaxEnd p)

include hpages

/-- What the loop of `vmm_allocate` does with its supply. -/
theorem allocateFrom_spends (h : allocateFrom va perm clear k i s = .ok (r, s')) :
    Spends physMaxEnd s s' := by
  induction k generalizing i s with
  | zero =>
    cases h
    exact Spends.refl _
  | succ k ih =>
    unfold allocateFrom at h
    dsimp only at h
    cases hs : s.pages with
    | nil =>
      rw [hs] at h
      cases h
      exact Spends.refl _
    | cons frame pages =>
      rw [hs] at h hpages
      dsimp only at h
      have hframe := hpages frame List.mem_cons_self
      have hrest : ∀ p ∈ pages, PageOk physMaxEnd p := fun p hp =>
        hpages p (List.mem_cons_of_mem _ hp)
      generalize hwalk : walkUser s.pagetable (va + UInt64.ofNat i * PAGE_SIZE.toUInt64) false
        pages = res at h
      cases res with
      | error e => cases h
      | ok res =>
        obtain ⟨ok, t, rest⟩ := res
        obtain ⟨used, hused, hgains⟩ := walkUser_gains hwalk hrest
        cases ok with
        | false =>
          -- no memory for a table: the frame goes back
          cases h
          exact ⟨frame :: used, [frame], used, by rw [hs, hused]; rfl, rfl, List.Perm.refl _,
            hgains⟩
        | true =>
          dsimp only at h
          split at h
          · cases h
          · rename_i hfree
            obtain ⟨-, hhi, -⟩ := walkUser_window hwalk
            have hleaf := (walkUser_walked hwalk).slot rfl
            have hwrite := writeLeaf_gains perm hhi hleaf hfree hframe
            refine Spends.trans ?_ (ih (fun p hp => hrest p ?_) h)
            · refine ⟨frame :: used, [], used ++ [frame], by rw [hs, hused]; rfl, rfl, ?_,
                hgains.trans hwrite⟩
              exact (List.perm_append_singleton frame used).symm
            · rw [hused]
              exact List.mem_append_right _ hp

theorem vmmAllocate_spends {size : UInt64} (h : s.vmmAllocate va size perm clear = .ok (r, s')) :
    Spends physMaxEnd s s' := by
  unfold UserSpace.vmmAllocate at h
  split_ifs at h
  exact allocateFrom_spends hpages h

theorem sbrkAllocateFrom_spends {fuel : ℕ}
    (h : UserSpace.sbrkAllocateFrom newSbrk fuel va s = .ok s') : Spends physMaxEnd s s' := by
  induction fuel generalizing va s with
  | zero =>
    cases h
    exact Spends.refl _
  | succ fuel ih =>
    unfold UserSpace.sbrkAllocateFrom at h
    split at h
    · split at h
      · cases h
      · rename_i r s₁ halloc
        split at h
        · cases h
        · have hspends := vmmAllocate_spends hpages halloc
          exact hspends.trans (ih (hspends.ok hpages) h)
    · cases h
      exact Spends.refl _

theorem vmmUserSbrkAllocate_spends {oldSbrk delta : UInt64}
    (h : s.vmmUserSbrkAllocate oldSbrk delta = .ok (newSbrk, s')) : Spends physMaxEnd s s' := by
  unfold UserSpace.vmmUserSbrkAllocate at h
  dsimp only at h
  split at h
  · cases h
  · rename_i s₁ hloop
    cases h
    exact sbrkAllocateFrom_spends hpages hloop

end

/-! ### The account -/

/-- The account of an address space: the pages that it holds are in its user half, its root, or
lost. -/
structure Inv (physMaxEnd : UInt64) (kernelPages : Set UInt64) (lost : List UInt64)
    (l : Lifetime) : Prop where
  visible : Visible physMaxEnd l.space.pagetable 0
  account : l.taken ~ l.space.freed ++ (spaceItems l.space.pagetable ++ [l.root] ++ lost)
  nodup : (spaceItems l.space.pagetable ++ [l.root] ++ lost).Nodup
  spared : ∀ p ∈ spaceItems l.space.pagetable ++ [l.root] ++ lost, p ∉ kernelPages

variable {lost : List UInt64} {l' : Lifetime}

theorem Inv.holds_iff (h : Inv physMaxEnd kernelPages lost l) (p : UInt64) :
    Holds l p ↔ p ∈ spaceItems l.space.pagetable ++ [l.root] ++ lost := by
  have hcount := h.account.count_eq p
  rw [List.count_append] at hcount
  rw [Holds, ← List.count_pos_iff]
  omega

/-- A call keeps the account. -/
theorem Inv.spend (h : Inv physMaxEnd kernelPages lost l)
    (hfresh : Fresh physMaxEnd (kernelPages ∪ { p | Holds l p }) pages)
    (hspends : Spends physMaxEnd { l.space with pages := pages } s') :
    Inv physMaxEnd kernelPages lost (l.after pages s') := by
  obtain ⟨used, back, kept, hpages, hfreed, hperm, hgains⟩ := hspends
  have hpages' : pages = used ++ s'.pages := hpages
  have htaken : pages.take (pages.length - s'.pages.length) = used := by
    rw [hpages', List.length_append, Nat.add_sub_cancel, List.take_left]
  have hmem : ∀ p ∈ kept, p ∈ pages := by
    intro p hp
    rw [hpages']
    exact List.mem_append_left _ (hperm.mem_iff.mpr (List.mem_append_right _ hp))
  have hkept : kept.Nodup := by
    have hused : used.Nodup := (hpages' ▸ hfresh.nodup).sublist (List.sublist_append_left _ _)
    exact (hperm.nodup_iff.mp hused).sublist (List.sublist_append_right _ _)
  -- the user half has the pages that were kept
  have hheld : spaceItems s'.pagetable ++ [l.root] ++ lost ~
      (spaceItems l.space.pagetable ++ [l.root] ++ lost) ++ kept := by
    have hitems := hgains.items
    rw [List.perm_iff_count] at hitems ⊢
    intro p
    have hcount := hitems p
    simp only [List.count_append] at hcount ⊢
    omega
  refine ⟨hgains.visible h.visible, ?_, ?_, fun p hp => ?_⟩
  · have haccount := h.account
    have hback : s'.freed = back ++ l.space.freed := hfreed
    show l.taken ++ pages.take (pages.length - s'.pages.length) ~
      s'.freed ++ (spaceItems s'.pagetable ++ [l.root] ++ lost)
    rw [htaken, hback]
    rw [List.perm_iff_count] at haccount hperm hheld ⊢
    intro p
    have h₁ := haccount p
    have h₂ := hperm p
    have h₃ := hheld p
    simp only [List.count_append] at h₁ h₂ h₃ ⊢
    omega
  · refine hheld.nodup_iff.mpr (List.nodup_append'.mpr ⟨h.nodup, hkept, fun p hp hkeep => ?_⟩)
    exact hfresh.new p (hmem p hkeep) (Or.inr ((h.holds_iff p).mpr hp))
  · rcases List.mem_append.mp (hheld.mem_iff.mp hp) with hold | hkeep
    · exact h.spared p hold
    · exact fun hkernel => hfresh.new p (hmem p hkeep) (Or.inl hkernel)

theorem Inv.step {call : SpaceCall} (h : Inv physMaxEnd kernelPages lost l)
    (hfresh : FreshCall physMaxEnd kernelPages l call) (hs : lifetimeStep l call = some l') :
    Inv physMaxEnd kernelPages lost l' := by
  cases call with
  | allocate va size permissions clear pages =>
    unfold lifetimeStep at hs
    dsimp only at hs
    split at hs
    · cases hs
    · rename_i r s' hrun
      cases hs
      exact h.spend hfresh (vmmAllocate_spends hfresh.ok hrun)
  | sbrkAllocate oldSbrk delta pages =>
    unfold lifetimeStep at hs
    dsimp only at hs
    split at hs
    · cases hs
    · rename_i newSbrk s' hrun
      cases hs
      exact h.spend hfresh (vmmUserSbrkAllocate_spends hfresh.ok hrun)

/-- The account throughout a life. -/
theorem Inv.run {calls : List SpaceCall} (h : Inv physMaxEnd kernelPages lost l)
    (hfresh : EachCall lifetimeStep l calls (FreshCall physMaxEnd kernelPages))
    (hrun : runSteps lifetimeStep l calls = some l') : Inv physMaxEnd kernelPages lost l' := by
  induction calls generalizing l with
  | nil =>
    cases hrun
    exact h
  | cons call calls ih =>
    obtain ⟨l₁, hstep, hrest⟩ := runSteps_cons_some hrun
    obtain ⟨hcall, hcalls⟩ := (eachCall_cons hstep).mp hfresh
    exact ih (h.step hcall hstep) hcalls hrest

/-- The memory is returned exactly if nothing is lost. -/
theorem Inv.returned_iff (h : Inv physMaxEnd kernelPages lost l) :
    Returned physMaxEnd kernelPages l ↔ lost = [] := by
  have hfree := vmmUserPagetableFree_eq h.visible l.root
  constructor
  · intro hreturned
    have hlength := (hreturned.all.trans h.account).length_eq
    rw [hfree] at hlength
    simp only [List.length_append] at hlength
    exact List.length_eq_zero_iff.mp (by omega)
  · rintro rfl
    have haccount := h.account
    have hnodup := h.nodup
    have hspared := h.spared
    rw [List.append_nil] at haccount hnodup hspared
    rw [← hfree] at haccount hnodup hspared
    exact ⟨haccount.symm, hnodup, hspared⟩

/-! ### From creation to the end -/

/-- A new address space, with the pages that were taken for it. -/
def newLifetime (k t : PageTree 3) (root : UInt64) (pages rest : List UInt64) (mem : Bytes)
    (recycled : UInt64 → Bool) : Lifetime where
  space := ⟨t, mem, rest, [], recycled⟩
  root := root
  taken := newTaken k (root :: pages) rest

/-- What is taken at first is of the supply. -/
theorem newLifetime_mem_supply {k : PageTree 3}
    (h : p ∈ (newLifetime k t root pages rest mem recycled).taken) :
    p ∈ newSupply k (root :: pages) :=
  newTaken_subset h

theorem inv_newLifetime {k : PageTree 3} (hempty : UserHalfEmpty k)
    (hfresh : Fresh physMaxEnd kernelPages (newSupply k (root :: pages)))
    (hnew : vmmUserPagetableNew k (root :: pages) = .ok (some t, rest)) :
    Inv physMaxEnd kernelPages (lostPages k (root :: pages))
      (newLifetime k t root pages rest mem recycled) := by
  obtain ⟨hvisible, haccount⟩ := vmmUserPagetableNew_account hempty hfresh.ok hnew
  refine ⟨hvisible, haccount, ?_, fun p hp => ?_⟩
  · exact haccount.nodup_iff.mp (hfresh.nodup.sublist (List.take_sublist _ _))
  · exact hfresh.new p (newTaken_subset (haccount.mem_iff.mpr hp))

/-- For every kernel table with an empty user half, and every life of a new address space: its
memory is returned at the end exactly if the kernel table leads to no other table, and the
allocator had the seven addresses that the root, the stacks and their tables need. -/
theorem addressSpace_returned_iff {k t : PageTree 3} {root : UInt64} {pages rest : List UInt64}
    (mem : Bytes) (recycled : UInt64 → Bool) {calls : List SpaceCall} (hempty : UserHalfEmpty k)
    (hfresh : Fresh physMaxEnd kernelPages (newSupply k (root :: pages)))
    (hnew : vmmUserPagetableNew k (root :: pages) = .ok (some t, rest))
    (hcalls : EachCall lifetimeStep (newLifetime k t root pages rest mem recycled) calls
      (FreshCall physMaxEnd kernelPages))
    (hrun : runSteps lifetimeStep (newLifetime k t root pages rest mem recycled) calls = some l) :
    Returned physMaxEnd kernelPages l ↔ NoTables k ∧ 7 ≤ (root :: pages).length := by
  have hinv := (inv_newLifetime hempty hfresh hnew).run hcalls hrun
  rw [hinv.returned_iff]
  exact lostPages_eq_nil_iff hempty hnew

/-! ### Two kernels -/

/-- What the allocator returns for the stacks: their blocks, and three tables. -/
def stackAddresses : List UInt64 := [0x200000, 0x210000, 0x220000, 0x300000, 0x301000, 0x302000]

/-- The pages behind these addresses. -/
def stackSupply : List UInt64 :=
  stackPages 0x200000 0x210000 0x220000 ++ [0x300000, 0x301000, 0x302000]

/-- They are free with a page for the root and one for a copy, when the kernel uses `0x1000`. -/
theorem stackSupply_fresh : Fresh 0x1000000 {0x1000} (0x101000 :: 0x100000 :: stackSupply) := by
  have hall : (0x101000 :: 0x100000 :: stackSupply).all
      (fun p => p.toNat % 4096 == 0 && p < 0x1000000 && p != 0x1000) = true := by decide +kernel
  have hpage : ∀ p ∈ 0x101000 :: 0x100000 :: stackSupply,
      (p.toNat % 4096 = 0 ∧ p < 0x1000000) ∧ p ≠ 0x1000 := by
    intro p hp
    simpa using List.all_eq_true.mp hall p hp
  constructor
  · intro p hp
    obtain ⟨⟨haligned, hvalid⟩, -⟩ := hpage p hp
    have hbound : p.toNat < 0x1000000 := UInt64.lt_iff_toNat_lt.mp hvalid
    exact ⟨haligned, hvalid, by omega⟩
  · decide +kernel
  · intro p hp
    exact (hpage p hp).2

/-- A page more in the heap, with its frame and the three tables that it needs. -/
def heapCall : SpaceCall :=
  .sbrkAllocate 0x400000 0x1000 [0x400000, 0x401000, 0x402000, 0x403000]

/-- The new address space of a kernel with no table to copy. -/
def emptyKernelSpace (t : PageTree 3) : Lifetime :=
  newLifetime (Radix.empty 0 3) t 0x100000 stackAddresses [] (fun _ => 0) fun _ => false

/-- A creation that succeeds with all of the supply. -/
theorem new_of_any {k : PageTree 3} {P : PageTree 3 → Bool}
    (h : (vmmUserPagetableNew k pages).toOption.any (fun r => r.2.isEmpty && r.1.any P) = true) :
    ∃ t, vmmUserPagetableNew k pages = .ok (some t, []) ∧ P t = true := by
  cases hnew : vmmUserPagetableNew k pages with
  | error e =>
    rw [hnew] at h
    cases h
  | ok r =>
    obtain ⟨t, rest⟩ := r
    rw [hnew] at h
    obtain ⟨hrest, ht⟩ : rest = [] ∧ t.any P = true := by
      simpa [Except.toOption] using h
    cases t with
    | none => cases ht
    | some t => exact ⟨t, by rw [hrest], ht⟩

/-- The pages of the call are not in use. -/
theorem heapCall_fresh : FreshCall 0x1000000 {0x1000} (emptyKernelSpace t) heapCall := by
  have hsupply : newSupply (Radix.empty 0 3) (0x100000 :: stackAddresses) =
      0x100000 :: stackSupply := by decide +kernel
  have hlow : (0x100000 :: stackSupply).all (fun p => p < 0x400000) = true := by decide +kernel
  have hpages : ∀ p ∈ heapCall.pages, (p.toNat % 4096 = 0 ∧ p < 0x1000000) ∧
      ¬ p < 0x400000 ∧ p ≠ 0x1000 := by
    have hall : heapCall.pages.all (fun p => (p.toNat % 4096 == 0 && p < 0x1000000) &&
        (!decide (p < 0x400000) && p != 0x1000)) = true := by decide +kernel
    intro p hp
    simpa using List.all_eq_true.mp hall p hp
  constructor
  · intro p hp
    obtain ⟨⟨haligned, hvalid⟩, -⟩ := hpages p hp
    have hbound : p.toNat < 0x1000000 := UInt64.lt_iff_toNat_lt.mp hvalid
    exact ⟨haligned, hvalid, by omega⟩
  · decide +kernel
  · intro p hp hused
    obtain ⟨-, hhigh, hkernel⟩ := hpages p hp
    rcases hused with hused | hused
    · exact hkernel hused
    · have hheld : Holds (emptyKernelSpace t) p := hused
      have hmem := newLifetime_mem_supply hheld.mem_taken
      rw [hsupply] at hmem
      exact hhigh (by simpa using List.all_eq_true.mp hlow p hmem)

/-- A kernel with no table to copy: the memory of an address space with a page in its heap is
returned. -/
theorem addressSpace_returned_iff_heapCall :
    ∃ t l, vmmUserPagetableNew (Radix.empty 0 3) (0x100000 :: stackAddresses) =
        .ok (some t, []) ∧
      runSteps lifetimeStep (emptyKernelSpace t) [heapCall] = some l ∧
      Returned 0x1000000 {0x1000} l := by
  have hcomputed : (vmmUserPagetableNew (Radix.empty 0 3)
      (0x100000 :: stackAddresses)).toOption.any (fun r => r.2.isEmpty && r.1.any fun t =>
        (lifetimeStep (emptyKernelSpace t) heapCall).isSome) = true := by decide +kernel
  obtain ⟨t, hnew, hcall⟩ := new_of_any hcomputed
  obtain ⟨l, hstep⟩ := Option.isSome_iff_exists.mp hcall
  have hrun : runSteps lifetimeStep (emptyKernelSpace t) [heapCall] = some l := by
    rw [runSteps_cons hstep]
    rfl
  have hsupply : newSupply (Radix.empty 0 3) (0x100000 :: stackAddresses) =
      0x100000 :: stackSupply := by decide +kernel
  have hempty : UserHalfEmpty (Radix.empty 0 3) := fun i _ => by
    show pteIsPresent 0 = false
    decide
  have hnone : NoTables (Radix.empty 0 3) := fun i _ hp => by
    have habsent : pteIsPresent 0 = false := by decide
    rw [show (Radix.empty 0 3 : PageTree 3).branchAt i = (0, Radix.empty 0 2) from rfl,
      habsent] at hp
    cases hp
  refine ⟨t, l, hnew, hrun, ?_⟩
  refine (addressSpace_returned_iff (fun _ => 0) (fun _ => false) hempty ?_ hnew ?_ hrun).mpr
    ⟨hnone, by decide⟩
  · rw [hsupply]
    exact stackSupply_fresh.tail
  · exact (eachCall_cons hstep).mpr ⟨heapCall_fresh, eachCall_nil⟩

/-- A kernel table with one table, for the last addresses. -/
def oneTableKernel : PageTree 3 :=
  .node (fun i => if i = 511 then PTE_P ||| PTE_W ||| PTE_SET_ADDR 0x1000 else 0)
    fun _ => Radix.empty 0 2

/-- The table of this kernel is copied to `0x101000`, and this page is lost. -/
theorem copiedTables_lost :
    UserHalfEmpty oneTableKernel ∧
    Fresh 0x1000000 {0x1000} (newSupply oneTableKernel (0x100000 :: 0x101000 :: stackAddresses)) ∧
    ∃ t, vmmUserPagetableNew oneTableKernel (0x100000 :: 0x101000 :: stackAddresses) =
        .ok (some t, []) ∧
      ¬ Returned 0x1000000 {0x1000} (newLifetime oneTableKernel t 0x100000
        (0x101000 :: stackAddresses) [] (fun _ => 0) fun _ => false) := by
  have hempty : UserHalfEmpty oneTableKernel := fun i hi => by
    show pteIsPresent (if i = 511 then PTE_P ||| PTE_W ||| PTE_SET_ADDR 0x1000 else 0) = false
    rw [if_neg (by omega)]
    decide
  have hsupply : newSupply oneTableKernel (0x100000 :: 0x101000 :: stackAddresses) =
      0x100000 :: 0x101000 :: stackSupply := by decide +kernel
  have hfresh : Fresh 0x1000000 {0x1000}
      (newSupply oneTableKernel (0x100000 :: 0x101000 :: stackAddresses)) := by
    rw [hsupply]
    exact stackSupply_fresh.perm (List.Perm.swap _ _ _)
  have hlost : lostPages oneTableKernel (0x100000 :: 0x101000 :: stackAddresses) = [0x101000] := by
    decide +kernel
  have hcomputed : (vmmUserPagetableNew oneTableKernel
      (0x100000 :: 0x101000 :: stackAddresses)).toOption.any
        (fun r => r.2.isEmpty && r.1.any fun _ => true) = true := by decide +kernel
  obtain ⟨t, hnew, -⟩ := new_of_any hcomputed
  refine ⟨hempty, hfresh, t, hnew, fun hreturned => ?_⟩
  have hnil := (inv_newLifetime hempty hfresh hnew).returned_iff.mp hreturned
  rw [hlost] at hnil
  cases hnil

end DzOS.Proofs.Mem.SpaceReturn
