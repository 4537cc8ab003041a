import DzOS.Mem.NewSpace
import DzOS.Proofs.Mem.KernelHalf

/-!
# `DzOS.Proofs.Mem.NewSpaceLeak`: address spaces that cannot be built

When memory is out, `vmm_user_pagetable_new` gives back the inner tables on the way to the
failure and the stacks that it has. It does not give back the top table, nor the inner tables
that are complete already.

`CopySpec` is what `copy_pagetable` does to the allocator, for a number of tables that it needs.
`leaksNothing_iff` says when a failed call leaves the allocated pages as they were: only when the
first allocation is the one that fails.
-/

set_option autoImplicit false

namespace DzOS.Proofs.Mem

open DzOS.Lib DzOS.Mem

variable {numPages n left i need : Nat} {src : Nat → UInt64} {s s' : PageSupply} {p q root : UInt64}
  {pages : List UInt64}

/-- The inner tables that `copy_pagetable` makes: one for each present entry above the last level
that is no huge page. -/
def innerTables : {n : Nat} → PageTree n → Nat
  | _, .leaves _ => 0
  | _, .node entry child =>
    ((List.range' 0 PAGETABLE_PTE_COUNT).map fun i =>
      if pteIsPresent (entry i) && !pteIsHuge (entry i) then 1 + innerTables (child i) else 0).sum

/-! ### The allocator -/

/-- The only page of a block of one page. -/
theorem pageRun_one (p : UInt64) : pageRun p 1 = [p] := by
  simp [pageRun]

/-- The first page of a block. -/
theorem mem_pageRun (p : UInt64) (h : 0 < numPages) : p ∈ pageRun p numPages :=
  List.mem_map.mpr ⟨0, List.mem_range.mpr h, by simp⟩

/-- A release keeps the pages that are not in the block. -/
theorem mem_kfreePages {ptr : Option UInt64} (hp : p ∈ s.allocated)
    (hnot : ∀ q ∈ ptr, p ∉ pageRun q numPages) : p ∈ (s.kfreePages ptr numPages).allocated := by
  cases ptr with
  | none => exact hp
  | some q => exact List.mem_diff_of_mem hp (hnot q rfl)

/-- So does the end of a failed call. -/
theorem mem_freeStacks {userStack intStack syscallStack : Option UInt64} (hp : p ∈ s.allocated)
    (huser : ∀ q ∈ userStack, p ∉ pageRun q 8) (hint : ∀ q ∈ intStack, p ∉ pageRun q 8)
    (hsyscall : ∀ q ∈ syscallStack, p ∉ pageRun q 8) :
    p ∈ (s.freeStacks userStack intStack syscallStack).allocated :=
  mem_kfreePages (mem_kfreePages (mem_kfreePages hp huser) hint) hsyscall

/-! ### `copy_pagetable` -/

/-- What `copy_pagetable` does to the allocator when it needs `need` tables. It gives back only
pages that it got itself. -/
structure CopySpec {α : Type} (need : Nat) (s : PageSupply) (r : Option α × PageSupply) :
    Prop where
  enough : need ≤ s.pages.length → r.1.isSome ∧ r.2.pages = s.pages.drop need
  short : s.pages.length < need → r.1 = none
  supply : r.2.pages <:+ s.pages
  kept : ∀ p ∈ s.allocated, p ∉ s.pages → p ∈ r.2.allocated

/-- The loop over the entries from the `i`-th on, by what the calls for the inner tables do. -/
theorem copyEntries_spec {copyInner : Nat → PageSupply → Option (PageTree n) × PageSupply}
    {tables : Nat → Nat} (hinner : ∀ i s, CopySpec (tables i) s (copyInner i s))
    (entry : Nat → UInt64) (child : Nat → PageTree n) (s : PageSupply) :
    CopySpec ((List.range' i left).map fun i =>
        if pteIsPresent (src i) && !pteIsHuge (src i) then 1 + tables i else 0).sum s
      (s.copyEntries copyInner src left i entry child) := by
  induction left generalizing i entry child s with
  | zero =>
    exact ⟨fun _ => ⟨rfl, rfl⟩, fun h => absurd h (Nat.not_lt_zero _), List.suffix_refl _,
      fun p hp _ => hp⟩
  | succ left ih =>
    rw [List.range'_succ, List.map_cons, List.sum_cons]
    by_cases hrec : (pteIsPresent (src i) && !pteIsHuge (src i)) = true
    · rw [PageSupply.copyEntries, if_pos hrec, if_pos hrec]
      unfold PageSupply.kalloc PageSupply.kallocPages
      rcases s with ⟨pages, allocated⟩
      cases pages with
      | nil =>
        -- There is no page for the inner table.
        refine ⟨fun h => ?_, fun _ => rfl, List.suffix_refl _, fun p hp _ => hp⟩
        simp only [List.length_nil] at h
        omega
      | cons dstInner pages =>
        dsimp only
        rw [pageRun_one]
        have hspec := hinner i ⟨pages, [dstInner] ++ allocated⟩
        generalize copyInner i ⟨pages, [dstInner] ++ allocated⟩ = r at hspec
        rcases r with ⟨inner, s₁⟩
        have hsupply : s₁.pages <:+ dstInner :: pages := hspec.supply.trans (List.suffix_cons _ _)
        have hkept : ∀ p ∈ allocated, p ∉ dstInner :: pages → p ∈ s₁.allocated := fun p hp hnot =>
          hspec.kept p (List.mem_append_right _ hp) fun hc => hnot (List.mem_cons_of_mem _ hc)
        cases inner with
        | none =>
          -- The inner call failed, so its table goes back, and the memory was not enough.
          have hfew : pages.length < tables i := by
            by_contra hc
            exact absurd (hspec.enough (Nat.not_lt.mp hc)).1 Bool.false_ne_true
          refine ⟨fun h => ?_, fun _ => rfl, hsupply, fun p hp hnot => ?_⟩
          · simp only [List.length_cons] at h
            omega
          · refine mem_kfreePages (hkept p hp hnot) fun q hq => ?_
            cases hq
            rw [pageRun_one, List.mem_singleton]
            rintro rfl
            exact hnot List.mem_cons_self
        | some t =>
          -- The inner call had enough pages, and it took one for each table.
          have hmany : tables i ≤ pages.length := by
            by_contra hc
            have hnone := hspec.short (Nat.not_le.mp hc)
            cases hnone
          have hpages₁ : s₁.pages = pages.drop (tables i) := (hspec.enough hmany).2
          have hrest := ih (i := i + 1) (Function.update entry i (copiedPte (src i) dstInner))
            (Function.update child i t) s₁
          refine ⟨fun h => ?_, fun h => ?_, hrest.supply.trans hsupply, fun p hp hnot => ?_⟩
          · simp only [List.length_cons] at h
            obtain ⟨hsome, hdrop⟩ := hrest.enough (by rw [hpages₁, List.length_drop]; omega)
            refine ⟨hsome, hdrop.trans ?_⟩
            rw [hpages₁, List.drop_drop, Nat.add_assoc, Nat.add_comm 1, List.drop_succ_cons]
          · simp only [List.length_cons] at h
            exact hrest.short (by rw [hpages₁, List.length_drop]; omega)
          · exact hrest.kept p (hkept p hp hnot) fun hc => hnot (hsupply.subset hc)
    · rw [PageSupply.copyEntries, if_neg hrec, if_neg hrec, Nat.zero_add]
      exact ih entry child s

/-- `copy_pagetable` needs one page for each inner table. -/
theorem copyPagetable_spec (t : PageTree n) (s : PageSupply) :
    CopySpec (innerTables t) s (s.copyPagetable t) := by
  induction t generalizing s with
  | leaves entry =>
    exact ⟨fun _ => ⟨rfl, rfl⟩, fun h => absurd h (Nat.not_lt_zero _), List.suffix_refl _,
      fun p hp _ => hp⟩
  | node entry child ih =>
    rw [PageSupply.copyPagetable, innerTables]
    exact copyEntries_spec ih entry child s

/-- Without the account, the loop is the one of `DzOS.Mem.AddressSpace`. -/
theorem copyEntries_eq {copyInner : Nat → PageSupply → Option (PageTree n) × PageSupply}
    {inner : Nat → List UInt64 → Option (PageTree n × List UInt64)}
    (hinner : ∀ i s, inner i s.pages = (copyInner i s).1.map fun t => (t, (copyInner i s).2.pages))
    (entry : Nat → UInt64) (child : Nat → PageTree n) (s : PageSupply) :
    DzOS.Mem.copyEntries inner src left i entry child s.pages =
      (s.copyEntries copyInner src left i entry child).1.map fun t =>
        (t, (s.copyEntries copyInner src left i entry child).2.pages) := by
  induction left generalizing i entry child s with
  | zero => rfl
  | succ left ih =>
    by_cases hrec : (pteIsPresent (src i) && !pteIsHuge (src i)) = true
    · unfold PageSupply.copyEntries DzOS.Mem.copyEntries
      rw [if_pos hrec, if_pos hrec]
      unfold PageSupply.kalloc PageSupply.kallocPages
      rcases s with ⟨pages, allocated⟩
      cases pages with
      | nil => rfl
      | cons dstInner pages =>
        dsimp only
        have hcall := hinner i ⟨pages, pageRun dstInner 1 ++ allocated⟩
        dsimp only at hcall
        rw [hcall]
        generalize copyInner i ⟨pages, pageRun dstInner 1 ++ allocated⟩ = r
        rcases r with ⟨inner₁, s₁⟩
        cases inner₁ with
        | none => rfl
        | some t => exact ih _ _ s₁
    · unfold PageSupply.copyEntries DzOS.Mem.copyEntries
      rw [if_neg hrec, if_neg hrec]
      exact ih entry child s

/-- So is `copy_pagetable`. -/
theorem copyPagetable_eq (t : PageTree n) (s : PageSupply) :
    DzOS.Mem.copyPagetable t s.pages =
      (s.copyPagetable t).1.map fun t' => (t', (s.copyPagetable t).2.pages) := by
  induction t generalizing s with
  | leaves entry => rfl
  | node entry child ih =>
    rw [PageSupply.copyPagetable, DzOS.Mem.copyPagetable]
    exact copyEntries_eq ih entry child s

/-! ### `vmm_user_pagetable_new` -/

/-- The pages that the allocator hands out for the tables and the three stacks. -/
def handedOut (k : PageTree 3) (pages : List UInt64) : List UInt64 :=
  pages.take (1 + innerTables k) ++
    ((pages.drop (1 + innerTables k)).take 3).flatMap fun ptr => pageRun ptr 8

/-- When the call returns `NULL`, the allocated pages are those from before. -/
def LeaksNothing (k : PageTree 3) (s : PageSupply) : Prop :=
  ∀ s', s.vmmUserPagetableNew k = .ok (none, s') → ∀ p, p ∈ s'.allocated ↔ p ∈ s.allocated

variable {k : PageTree 3}

/-- The call without the account is the one of `DzOS.Mem.AddressSpace`. -/
theorem vmmUserPagetableNew_eq (k : PageTree 3) (s : PageSupply) :
    (s.vmmUserPagetableNew k).map Prod.fst =
      (DzOS.Mem.vmmUserPagetableNew k s.pages).map Prod.fst := by
  rcases s with ⟨pages, allocated⟩
  unfold PageSupply.vmmUserPagetableNew DzOS.Mem.vmmUserPagetableNew PageSupply.kalloc
  cases pages with
  | nil => rfl
  | cons root pages =>
    dsimp only [PageSupply.kallocPages]
    have hcopy := copyPagetable_eq k ⟨pages, pageRun root 1 ++ allocated⟩
    dsimp only at hcopy
    rw [hcopy]
    generalize PageSupply.copyPagetable k ⟨pages, pageRun root 1 ++ allocated⟩ = r
    rcases r with ⟨t, ⟨pages₁, allocated₁⟩⟩
    cases t with
    | none => rfl
    | some t =>
      rcases pages₁ with _ | ⟨userStack, _ | ⟨intStack, _ | ⟨syscallStack, pages₂⟩⟩⟩
      · rfl
      · rfl
      · rfl
      · dsimp only [Option.map_some, PageSupply.mapUserStacks]
        generalize DzOS.Mem.mapUserStacks t userStack intStack syscallStack pages₂ = m
        cases m with
        | error e => rfl
        | ok m => rfl

section

variable {tail allocated : List UInt64} (hfresh : (handedOut k (root :: tail) ++ allocated).Nodup)
  (hshort : tail.length < 3 + innerTables k)

include hfresh hshort

/-- The top table is no other page that the call gets, when the memory is not enough. -/
theorem root_not_mem :
    root ∉ allocated ∧ root ∉ tail ∧ ∀ q ∈ tail.drop (innerTables k), root ∉ pageRun q 8 := by
  have hsplit : handedOut k (root :: tail) = root :: (tail.take (innerTables k) ++
      (tail.drop (innerTables k)).flatMap fun ptr => pageRun ptr 8) := by
    have hthree : (tail.drop (innerTables k)).take 3 = tail.drop (innerTables k) :=
      List.take_of_length_le (by rw [List.length_drop]; omega)
    rw [handedOut, Nat.add_comm, List.take_succ_cons, List.drop_succ_cons, hthree]
    rfl
  rw [hsplit, List.cons_append, List.nodup_cons] at hfresh
  obtain ⟨hnot, -⟩ := hfresh
  rw [List.mem_append, List.mem_append, List.mem_flatMap] at hnot
  push Not at hnot
  obtain ⟨⟨htake, hblocks⟩, hallocated⟩ := hnot
  refine ⟨hallocated, fun hc => ?_, hblocks⟩
  rw [← List.take_append_drop (innerTables k) tail, List.mem_append] at hc
  rcases hc with hc | hc
  · exact htake hc
  · exact hblocks root hc (mem_pageRun root (by decide))

/-- A call that gets its top table, but not all that it needs, returns `NULL` and keeps the top
table. -/
theorem vmmUserPagetableNew_short :
    ∃ s', PageSupply.vmmUserPagetableNew ⟨root :: tail, allocated⟩ k = .ok (none, s') ∧
      root ∈ s'.allocated := by
  obtain ⟨-, htail, hblocks⟩ := root_not_mem hfresh hshort
  have hspec := copyPagetable_spec k ⟨tail, pageRun root 1 ++ allocated⟩
  have hroot := hspec.kept root (List.mem_append_left _ (mem_pageRun root (by decide))) htail
  unfold PageSupply.vmmUserPagetableNew PageSupply.kalloc
  dsimp only [PageSupply.kallocPages]
  generalize PageSupply.copyPagetable k ⟨tail, pageRun root 1 ++ allocated⟩ = r at hspec hroot
  rcases r with ⟨t, ⟨pages₁, allocated₁⟩⟩
  cases t with
  | none => exact ⟨_, rfl, hroot⟩
  | some t =>
    -- The copy is complete, so one of the three stacks is missing.
    have hmany : innerTables k ≤ tail.length := by
      by_contra hc
      have hnone := hspec.short (Nat.not_le.mp hc)
      cases hnone
    have hdrop : pages₁ = tail.drop (innerTables k) := (hspec.enough hmany).2
    rw [← hdrop] at hblocks
    have hfew : pages₁.length < 3 := by
      rw [hdrop, List.length_drop]
      omega
    have hroot₁ : root ∈ allocated₁ := hroot
    rcases pages₁ with _ | ⟨userStack, _ | ⟨intStack, _ | ⟨syscallStack, pages₂⟩⟩⟩
    · exact ⟨_, rfl, mem_freeStacks hroot₁ (by simp) (by simp) (by simp)⟩
    · have huser := hblocks userStack List.mem_cons_self
      refine ⟨_, rfl, mem_freeStacks (List.mem_append_right _ hroot₁) ?_ (by simp) (by simp)⟩
      rintro q hq
      cases hq
      exact huser
    · have huser := hblocks userStack List.mem_cons_self
      have hint := hblocks intStack (List.mem_cons_of_mem _ List.mem_cons_self)
      refine ⟨_, rfl, mem_freeStacks
        (List.mem_append_right _ (List.mem_append_right _ hroot₁)) ?_ ?_ (by simp)⟩
      · rintro q hq
        cases hq
        exact huser
      · rintro q hq
        cases hq
        exact hint
    · simp only [List.length_cons] at hfew
      omega

end

/-- A call that gets all that it needs does not return `NULL`. -/
theorem vmmUserPagetableNew_enough (hmany : 4 + innerTables k ≤ s.pages.length) :
    s.vmmUserPagetableNew k ≠ .ok (none, s') := by
  rcases s with ⟨pages, allocated⟩
  cases pages with
  | nil =>
    simp only [List.length_nil] at hmany
    omega
  | cons root tail =>
    simp only [List.length_cons] at hmany
    have hspec := copyPagetable_spec k ⟨tail, pageRun root 1 ++ allocated⟩
    unfold PageSupply.vmmUserPagetableNew PageSupply.kalloc
    dsimp only [PageSupply.kallocPages]
    generalize PageSupply.copyPagetable k ⟨tail, pageRun root 1 ++ allocated⟩ = r at hspec
    obtain ⟨hsome, hdrop⟩ := hspec.enough (by dsimp only; omega)
    rcases r with ⟨t, ⟨pages₁, allocated₁⟩⟩
    cases t with
    | none => cases hsome
    | some t =>
      have hlen : 3 ≤ pages₁.length := by
        have hdrop₁ : pages₁ = tail.drop (innerTables k) := hdrop
        rw [hdrop₁, List.length_drop]
        omega
      rcases pages₁ with _ | ⟨userStack, _ | ⟨intStack, _ | ⟨syscallStack, pages₂⟩⟩⟩
      · simp at hlen
      · simp at hlen
      · simp at hlen
      · intro h
        dsimp only at h
        split at h
        · cases h
        · cases h

/-- A failed call leaves the allocated pages as they were only when its first allocation is the
one that fails. With four pages more than there are inner tables to copy, it does not fail. -/
theorem leaksNothing_iff (hfresh : (handedOut k s.pages ++ s.allocated).Nodup) :
    LeaksNothing k s ↔ s.pages = [] ∨ 4 + innerTables k ≤ s.pages.length := by
  rcases s with ⟨pages, allocated⟩
  constructor
  · intro h
    cases pages with
    | nil => exact Or.inl rfl
    | cons root tail =>
      refine Or.inr (Nat.not_lt.mp fun hfew => ?_)
      simp only [List.length_cons] at hfew
      have hshort : tail.length < 3 + innerTables k := by omega
      obtain ⟨s', hcall, hroot⟩ := vmmUserPagetableNew_short hfresh hshort
      exact (root_not_mem hfresh hshort).1 ((h s' hcall root).mp hroot)
  · rintro (hnil | hmany) s' hcall
    · have hnil' : pages = [] := hnil
      rw [hnil'] at hcall
      have hsame := (Prod.mk.inj (Except.ok.inj hcall)).2
      rw [← hsame]
      exact fun p => Iff.rfl
    · exact absurd hcall (vmmUserPagetableNew_enough hmany)

/-- A kernel table with one inner table. -/
def oneInnerTable : PageTree 3 :=
  .node (fun i => if i = 511 then PTE_P ||| PTE_W ||| PTE_SET_ADDR 0x2000 else 0)
    fun _ => Radix.empty 0 2

/-- With no memory at all nothing is lost. -/
theorem leaksNothing_noMemory : LeaksNothing oneInnerTable ⟨[], [0x1000, 0x2000]⟩ :=
  (leaksNothing_iff (by simp [handedOut])).mpr (Or.inl rfl)

/-- With one page, the call returns `NULL` and the page is lost. -/
theorem topTable_lost : ∃ (k : PageTree 3) (s : PageSupply),
    (handedOut k s.pages ++ s.allocated).Nodup ∧ ¬ LeaksNothing k s := by
  have hfresh : (handedOut oneInnerTable [0x10000] ++ [0x1000, 0x2000]).Nodup := by
    have hone : handedOut oneInnerTable [0x10000] = [0x10000] := by
      rw [handedOut, Nat.add_comm, List.take_succ_cons, List.drop_succ_cons, List.take_nil,
        List.drop_nil]
      rfl
    rw [hone]
    decide
  refine ⟨oneInnerTable, ⟨[0x10000], [0x1000, 0x2000]⟩, hfresh, fun h => ?_⟩
  have hshort : ([] : List UInt64).length < 3 + innerTables oneInnerTable := by
    rw [List.length_nil]
    omega
  obtain ⟨s', hcall, hroot⟩ := vmmUserPagetableNew_short hfresh hshort
  have hold := (h s' hcall 0x10000).mp hroot
  simp at hold

end DzOS.Proofs.Mem
