import DzOS.Proofs.Mem.PageTableUpdate

/-!
# `DzOS.Proofs.Mem.Sbrk`: the heap pages follow the program break

`HeapPagesExact` is what the two `sbrk` functions maintain: of the pages from the start `b₀`
of the heap up to 4 GiB, those that are mapped are the ones with a byte below the break.

`vmm_user_sbrk_allocate` maps the pages from the old break, rounded up, to the new one.
`PAGE_ROUND_UP` wraps to 0 in the last page below 4 GiB, so that is right only when the break
is not inside that page. `vmm_user_sbrk_deallocate` walks down from the old break, rounded
down, while the page is above the new break. That is right only when neither break is
page-aligned: a page that starts at the old break is not mapped, and a page that starts at
the new break should go and stays. `PageSafe` states these conditions, and
`sbrk_heap_exact` says that every run that meets them keeps `HeapPagesExact`, releases only
frames of the heap and does not panic.
-/

set_option autoImplicit false

namespace DzOS.Proofs.Mem

open DzOS.Lib DzOS.Mem

variable {i n page : Nat} {s' s : MemState} {brk b₀ delta root : UInt64}

/-! ### Mapping one page -/

/-- What mapping the pages from `i` to `n` does: each gets a page of the allocator, all
different, and every other mapping stays. -/
structure MapsPages (s s' : MemState) (root : UInt64) (i n : Nat) : Prop where
  ok : TablesOk s' root
  hhdm : s'.hhdmOffset = s.hhdmOffset
  inside : ∀ page, i ≤ page → page < n → ∃ pte, mapping s'.mem root page = some pte ∧
    Held s' root (pteFollow pte) ∧ pteFollow pte ∈ stock s
  inj : ∀ page page' pte pte', i ≤ page → page < n → i ≤ page' → page' < n →
    mapping s'.mem root page = some pte → mapping s'.mem root page' = some pte' →
    pteFollow pte = pteFollow pte' → page = page'
  outside : ∀ page < 2 ^ 34, ¬ (i ≤ page ∧ page < n) →
    mapping s'.mem root page = mapping s.mem root page
  held : ∀ f, Held s root f → Held s' root f
  sub : ∀ p ∈ stock s', p ∈ stock s
  stock : (stock s).length ≤ (stock s').length + 4 * (n - i)

/-- `vmm_allocate` of one heap page that is not mapped: it maps the page, or memory is short
of the four pages that this can take. -/
theorem vmmAllocate_one {va : UInt64} (hok : TablesOk s root) (hva : va.toNat = page * 4096)
    (hlo : 1024 ≤ page) (hhi : page < 2 ^ 34) (hfree : mapping s.mem root page = none) :
    (∃ s', vmmAllocate s root va PAGE_SIZE.toUInt64 heapPermissions true = .ok (-1, s') ∧
      (stock s).length < 4) ∨
    ∃ s', vmmAllocate s root va PAGE_SIZE.toUInt64 heapPermissions true = .ok (0, s') ∧
      MapsPages s s' root page (page + 1) := by
  have hpage : va.toNat / 4096 = page := by omega
  have hmod : va % PAGE_SIZE.toUInt64 = 0 := by
    apply UInt64.toNat.inj
    rw [UInt64.toNat_mod, toNat_PAGE_SIZE_toUInt64]
    show va.toNat % 4096 = 0
    omega
  have hcur : va + UInt64.ofNat 0 * PAGE_SIZE.toUInt64 = va := by simp
  have hrun : vmmAllocate s root va PAGE_SIZE.toUInt64 heapPermissions true =
      vmmAllocateFrom root va heapPermissions true 1 0 s := by
    rw [vmmAllocate, if_neg (by simp [hmod]), if_neg (by decide), if_neg (by decide)]
    rfl
  rw [hrun, vmmAllocateFrom, hcur]
  simp only [if_true]
  split
  · rename_i s₁ halloc
    left
    refine ⟨s₁, rfl, ?_⟩
    rw [stock_of_kallocFill_none halloc, List.length_nil]
    omega
  · rename_i ptr s₁ halloc
    obtain ⟨hgrow, -, hheld, hal, hlt, hin⟩ := take_spec hok halloc
    have hleft := hgrow.stock
    rw [walk_window s₁ root va true (by omega) (by omega)]
    rcases walkLevels_alloc va hgrow.ok (by omega) (Nat.le_refl 3) rfl with
      ⟨s₂, hwalk, hhdm, hshort⟩ | ⟨s₂, u, hwalk, hgrow', hu⟩
    · -- No memory for the tables: the frame is given back.
      left
      rw [hwalk]
      have hfreed : kfree s₂ (some ptr) = .ok (pushFreePage s₂ ptr) := by
        refine kfree_ok ?_ ?_
        · rw [hhdm, hgrow.hhdm]; exact hok.hhdm
        · rw [MemState.V2P, hhdm, hgrow.hhdm]; exact hal
      simp only [hfreed]
      exact ⟨_, rfl, by omega⟩
    · right
      rw [hwalk]
      rw [hpage] at hu ⊢
      have hgrows := hgrow.trans hgrow'
      have hV2P : s₂.V2P ptr = s.V2P ptr := by rw [MemState.V2P, MemState.V2P, hgrows.hhdm]
      have habsent : pteIsPresent (readPte s₂.mem (u.toNat + 8 * pagePath page 3)) = false := by
        have hmap := hgrows.mapping page hhi
        rw [hfree, mapping_of_table hu] at hmap
        by_contra hc
        simp only [Bool.not_eq_false] at hc
        simp [Option.filter, tableEntry, hc] at hmap
      simp only [habsent, Bool.false_eq_true, if_false, vmmAllocateFrom, hV2P]
      obtain ⟨hpres, hfollow⟩ := heapPte_spec hal hlt
      have hmapping : ∀ {page' : Nat}, page' < 2 ^ 34 → mapping (writePte s₂
          (u.toNat + 8 * pagePath page 3) (buildPte (s.V2P ptr) heapPermissions)).mem root page' =
          if page' = page then some (buildPte (s.V2P ptr) heapPermissions)
          else mapping s.mem root page' := by
        intro page' hpage'
        rw [mapping_writeLeaf _ hgrows.ok hhi hu hpage', hgrows.mapping page' hpage']
        simp [Option.filter, hpres]
      have hheld' : ∀ f, Held s₁ root f → Held (writePte s₂ (u.toNat + 8 * pagePath page 3)
          (buildPte (s.V2P ptr) heapPermissions)) root f :=
        fun f hf => held_writeLeaf _ hgrows.ok hhi hu (hgrow'.held f hf)
      refine ⟨_, rfl, ?_⟩
      exact {
        ok := tablesOk_writeLeaf _ hgrows.ok hhi hu
        hhdm := hgrows.hhdm
        inside := fun page' h1 h2 => by
          have heq : page' = page := by omega
          rw [hmapping (by omega), if_pos heq]
          exact ⟨_, rfl, by rw [hfollow]; exact hheld' _ hheld, by rw [hfollow]; exact hin⟩
        inj := fun page₁ page₂ _ _ h1 h2 h3 h4 _ _ _ => by omega
        outside := fun page' hpage' hout => by
          rw [hmapping hpage', if_neg (by omega)]
        held := fun f hf => hheld' f (hgrow.held f hf)
        sub := hgrows.sub
        stock := by
          have := hgrows.stock
          show (stock s).length ≤ (stock s₂).length + 4 * (page + 1 - page)
          omega }

/-! ### The allocation loop -/

/-- Mapping no page. -/
theorem MapsPages.refl (hok : TablesOk s root) (h : n ≤ i) :
    MapsPages s s root i n where
  ok := hok
  hhdm := rfl
  inside := fun page h1 h2 => by omega
  inj := fun page page' _ _ h1 h2 => by omega
  outside := fun _ _ _ => rfl
  held := fun _ hf => hf
  sub := fun _ hp => hp
  stock := by omega

/-- Mapping one page and then the rest. -/
theorem MapsPages.cons {s₁ : MemState} (h : MapsPages s s₁ root i (i + 1))
    (h' : MapsPages s₁ s' root (i + 1) n) (hi : i < n) (hn : n ≤ 2 ^ 34) :
    MapsPages s s' root i n := by
  -- The later pages leave the mapping of the first one alone.
  have hfirst : mapping s'.mem root i = mapping s₁.mem root i :=
    h'.outside i (by omega) (by omega)
  obtain ⟨pte₀, hmap₀, hheld₀, hstock₀⟩ := h.inside i (Nat.le_refl i) (by omega)
  -- Their frames come from the allocator after the first frame has left it.
  have hlater : ∀ page pte, i + 1 ≤ page → page < n → mapping s'.mem root page = some pte →
      pteFollow pte ≠ pteFollow pte₀ := by
    intro page pte h1 h2 hpte heq
    obtain ⟨pte', hmap', -, hstock'⟩ := h'.inside page h1 h2
    rw [hpte] at hmap'
    cases hmap'
    rw [heq] at hstock'
    exact hheld₀.2 hstock'
  exact {
    ok := h'.ok
    hhdm := h'.hhdm.trans h.hhdm
    inside := fun page h1 h2 => by
      by_cases hpi : page = i
      · rw [hpi, hfirst]
        exact ⟨pte₀, hmap₀, h'.held _ hheld₀, hstock₀⟩
      · obtain ⟨pte, hmap, hheld, hstock⟩ := h'.inside page (by omega) h2
        exact ⟨pte, hmap, hheld, h.sub _ hstock⟩
    inj := fun page page' pte pte' h1 h2 h3 h4 hm hm' heq => by
      by_cases hpi : page = i <;> by_cases hpi' : page' = i
      · omega
      · rw [hpi, hfirst, hmap₀] at hm
        cases hm
        exact absurd heq.symm (hlater page' pte' (by omega) h4 hm')
      · rw [hpi', hfirst, hmap₀] at hm'
        cases hm'
        exact absurd heq (hlater page pte (by omega) h2 hm)
      · exact h'.inj page page' pte pte' (by omega) h2 (by omega) h4 hm hm' heq
    outside := fun page hp hout =>
      (h'.outside page hp (by omega)).trans (h.outside page hp (by omega))
    held := fun f hf => h'.held f (h.held f hf)
    sub := fun p hp => h.sub p (h'.sub p hp)
    stock := by
      have h1 := h.stock
      have h2 := h'.stock
      omega }

/-- The loop of `vmm_user_sbrk_allocate`, from page `i` to the page `n` that the new break is
rounded up to. -/
theorem sbrkAllocateFrom_spec (new : UInt64) {cur : UInt64} (fuel : Nat) (hok : TablesOk s root)
    (hcur : cur.toNat = i * 4096) (hn : n = (new.toNat + 4095) / 4096) (hlo : 1024 ≤ i)
    (hnew : new.toNat ≤ 2 ^ 32) (hfuel : n - i ≤ fuel)
    (hfree : ∀ page, i ≤ page → page < n → mapping s.mem root page = none) :
    (sbrkAllocateFrom root new fuel cur s = .error "sbrk: OOM" ∧
      (stock s).length < 4 * (n - i)) ∨
    ∃ s', sbrkAllocateFrom root new fuel cur s = .ok s' ∧ MapsPages s s' root i n := by
  induction fuel generalizing i cur s with
  | zero => exact Or.inr ⟨s, rfl, MapsPages.refl hok (by omega)⟩
  | succ fuel ih =>
    unfold sbrkAllocateFrom
    by_cases hi : i < n
    · have hlt : cur < new := by rw [UInt64.lt_iff_toNat_lt]; omega
      rw [if_pos hlt]
      rcases vmmAllocate_one hok hcur hlo (by omega) (hfree i (Nat.le_refl i) hi) with
        ⟨s₁, hrun, hshort⟩ | ⟨s₁, hrun, hmaps⟩
      · left
        rw [hrun]
        exact ⟨rfl, by omega⟩
      · rw [hrun]
        have hnext : (cur + PAGE_SIZE.toUInt64).toNat = (i + 1) * 4096 := by
          rw [UInt64.toNat_add, toNat_PAGE_SIZE_toUInt64]; omega
        have hfree₁ : ∀ page, i + 1 ≤ page → page < n → mapping s₁.mem root page = none := by
          intro page h1 h2
          rw [hmaps.outside page (by omega) (by omega)]
          exact hfree page (by omega) h2
        rcases ih hmaps.ok hnext (by omega) (by omega) hfree₁ with
          ⟨herr, hshort⟩ | ⟨s', hok', hrest⟩
        · left
          have := hmaps.stock
          exact ⟨herr, by omega⟩
        · exact Or.inr ⟨s', hok', hmaps.cons hrest hi (by omega)⟩
    · have hlt : ¬ cur < new := by rw [UInt64.lt_iff_toNat_lt]; omega
      rw [if_neg hlt]
      exact Or.inr ⟨s, rfl, MapsPages.refl hok (by omega)⟩

/-! ### The deallocation loop -/

/-- What unmapping the pages from `j` to `i` does: their frames go to the allocator, and every
other mapping stays. -/
structure UnmapsPages (s s' : MemState) (root : UInt64) (j i : Nat) : Prop where
  ok : TablesOk s' root
  mapping : ∀ page < 2 ^ 34, mapping s'.mem root page =
    if j ≤ page ∧ page < i then none else mapping s.mem root page
  held : ∀ f, Held s root f →
    (∀ page pte, j ≤ page → page < i → DzOS.Proofs.Mem.mapping s.mem root page = some pte →
      pteFollow pte ≠ f) → Held s' root f

/-- Unmapping one heap page and giving back its frame. -/
theorem unmap_one (va : UInt64) {pte : UInt64} (hok : TablesOk s root)
    (hva : va.toNat = page * 4096) (hlo : 1024 ≤ page) (hhi : page < 2 ^ 34)
    (hmap : mapping s.mem root page = some pte) (hheld : Held s root (pteFollow pte)) :
    ∃ slot, walk s root va false false = .ok (some slot, s) ∧ readPte s.mem slot = pte ∧
      ∃ s', kfree (writePte s slot 0) (some ((writePte s slot 0).P2V (pteFollow pte))) = .ok s' ∧
        UnmapsPages s s' root page (page + 1) := by
  have hpage : va.toNat / 4096 = page := by omega
  cases ht : tableAt s.mem root page 3 with
  | none =>
    rw [mapping_of_no_table ht] at hmap
    cases hmap
  | some t =>
    have hread : readPte s.mem (t.toNat + 8 * pagePath page 3) = pte := by
      rw [mapping_of_table ht] at hmap
      exact (Option.filter_eq_some_iff.mp hmap).1 |> Option.some.inj
    refine ⟨t.toNat + 8 * pagePath page 3, ?_, hread, ?_⟩
    · rw [walk_eq s root va (by omega) (by omega), hpage, leafSlot, ht]
      rfl
    generalize hs₁ : writePte s (t.toNat + 8 * pagePath page 3) 0 = s₁
    have hok₁ : TablesOk s₁ root := hs₁ ▸ tablesOk_writeLeaf 0 hok hhi ht
    have hheld₁ : ∀ f, Held s root f → Held s₁ root f :=
      fun f hf => hs₁ ▸ held_writeLeaf 0 hok hhi ht hf
    have hframe := toNat_pteFollow pte
    have hfreed := @kfree_ok s₁ (s₁.P2V (pteFollow pte)) hok₁.hhdm
      (by rw [V2P_P2V, hframe]; omega)
    have hstock : stock (pushFreePage s₁ (s₁.P2V (pteFollow pte))) = pteFollow pte :: stock s₁ := by
      show (MemState.V2P s₁ (s₁.P2V (pteFollow pte)) :: s₁.freepages.map s₁.V2P) ++ _ = _
      rw [V2P_P2V]
      rfl
    obtain ⟨hnt, hnotin⟩ := hheld₁ _ hheld
    refine ⟨_, hfreed, ?_⟩
    exact {
      ok := {
        hhdm := hok₁.hhdm
        regions := hok₁.regions
        nodup := by rw [hstock]; exact List.nodup_cons.mpr ⟨hnotin, hok₁.nodup⟩
        stockPage := by
          rw [hstock]
          intro p hp
          rcases List.mem_cons.mp hp with rfl | hp
          · omega
          · exact hok₁.stockPage p hp
        rootAligned := hok₁.rootAligned
        separate := hok₁.separate
        apart := by
          rw [hstock]
          intro u hu hc
          rcases List.mem_cons.mp hc with rfl | hc
          · exact hnt hu
          · exact hok₁.apart u hu hc }
      mapping := by
        intro page' hpage'
        show mapping s₁.mem root page' = _
        rw [← hs₁, mapping_writeLeaf 0 hok hhi ht hpage']
        by_cases heq : page' = page
        · rw [if_pos heq, if_pos (by omega)]
          rfl
        · rw [if_neg heq, if_neg (by omega)]
      held := by
        intro f hf hne
        refine ⟨(hheld₁ f hf).1, ?_⟩
        rw [hstock]
        intro hc
        rcases List.mem_cons.mp hc with rfl | hc
        · exact hne page pte (Nat.le_refl page) (by omega) hmap rfl
        · exact (hheld₁ f hf).2 hc }

/-- The loop of `vmm_user_sbrk_deallocate`, from page `i - 1` down to the page `j` behind the
one that the new break is in. The pages are heap pages. -/
theorem sbrkDeallocateFrom_spec (new cur : UInt64) (fuel : Nat) {j : Nat} (hok : TablesOk s root)
    (hcur : cur.toNat + 4096 = i * 4096) (hj : j = new.toNat / 4096 + 1)
    (hlo : 1024 ≤ new.toNat / 4096) (hji : j ≤ i) (hi : i ≤ 2 ^ 20) (hfuel : i - j ≤ fuel)
    (hmap : ∀ page, j ≤ page → page < i → ∃ pte, mapping s.mem root page = some pte ∧
      Held s root (pteFollow pte))
    (hinj : ∀ page page' pte pte', j ≤ page → page < i → j ≤ page' → page' < i →
      mapping s.mem root page = some pte → mapping s.mem root page' = some pte' →
      pteFollow pte = pteFollow pte' → page = page') :
    ∃ s' released, sbrkDeallocateFrom root new fuel cur s = .ok (s', released) ∧
      UnmapsPages s s' root j i ∧
      ∀ r ∈ released, ∃ page, j ≤ page ∧ page < i ∧ r.1.toNat = page * 4096 ∧
        mapping s.mem root page = some r.2 := by
  have hrefl : i ≤ j → UnmapsPages s s root j i := fun h => {
    ok := hok
    mapping := fun page _ => by rw [if_neg (by omega)]
    held := fun f hf _ => hf }
  induction fuel generalizing i cur s with
  | zero => exact ⟨s, [], rfl, hrefl (by omega), fun r hr => by cases hr⟩
  | succ fuel ih =>
    unfold sbrkDeallocateFrom
    by_cases hlast : j < i
    · have hgt : cur > new := by rw [gt_iff_lt, UInt64.lt_iff_toNat_lt]; omega
      obtain ⟨pte, hpte, hheld⟩ := hmap (i - 1) (by omega) (by omega)
      obtain ⟨slot, hwalk, hread, s₁, hfree, hun⟩ := unmap_one cur hok (by omega)
        (by omega) (by omega) hpte hheld
      rw [if_pos hgt, hwalk]
      simp only [hread, hfree]
      have hnext : (cur - PAGE_SIZE.toUInt64).toNat + 4096 = (i - 1) * 4096 := by
        rw [UInt64.toNat_sub_of_le _ _ (by
          rw [UInt64.le_iff_toNat_le, toNat_PAGE_SIZE_toUInt64]; omega),
          toNat_PAGE_SIZE_toUInt64]
        omega
      -- The pages below keep their mappings, and their frames are other frames.
      have hkeep : ∀ page, j ≤ page → page < i - 1 → mapping s₁.mem root page =
          mapping s.mem root page := by
        intro page h1 h2
        rw [hun.mapping page (by omega), if_neg (by omega)]
      have hmap₁ : ∀ page, j ≤ page → page < i - 1 → ∃ pte, mapping s₁.mem root page = some pte ∧
          Held s₁ root (pteFollow pte) := by
        intro page h1 h2
        obtain ⟨pte', hpte', hheld'⟩ := hmap page h1 (by omega)
        refine ⟨pte', (hkeep page h1 h2).trans hpte', hun.held _ hheld' ?_⟩
        intro page₀ pte₀ h3 h4 hpte₀ heq
        have := hinj page₀ page pte₀ pte' (by omega) (by omega) h1 (by omega) hpte₀ hpte' heq
        omega
      obtain ⟨s', released, hrun, hrest, hrel⟩ := ih _ hun.ok hnext (by omega) (by omega)
        (by omega)
        hmap₁ (fun page page' pte₁ pte₂ h1 h2 h3 h4 hm₁ hm₂ heq =>
          hinj page page' pte₁ pte₂ h1 (by omega) h3 (by omega) ((hkeep page h1 h2).symm.trans hm₁)
            ((hkeep page' h3 h4).symm.trans hm₂) heq)
        (fun h => {
          ok := hun.ok
          mapping := fun page _ => by rw [if_neg (by omega)]
          held := fun f hf _ => hf })
      rw [hrun]
      refine ⟨s', _, rfl, ?_, ?_⟩
      · exact {
          ok := hrest.ok
          mapping := by
            intro page hp
            rw [hrest.mapping page hp, hun.mapping page hp]
            by_cases h1 : j ≤ page ∧ page < i - 1
            · rw [if_pos h1, if_pos (by omega)]
            · rw [if_neg h1]
              by_cases h2 : i - 1 ≤ page ∧ page < i - 1 + 1
              · rw [if_pos h2, if_pos (by omega)]
              · rw [if_neg h2, if_neg (by omega)]
          held := by
            intro f hf hne
            refine hrest.held f (hun.held f hf ?_) ?_
            · intro page pte' h1 h2 hm
              exact hne page pte' (by omega) (by omega) hm
            · intro page pte' h1 h2 hm
              exact hne page pte' h1 (by omega) ((hkeep page h1 h2).symm.trans hm) }
      · intro r hr
        rcases List.mem_cons.mp hr with rfl | hr
        · exact ⟨i - 1, by omega, by omega, by simp only; omega, hpte⟩
        · obtain ⟨page, h1, h2, h3, h4⟩ := hrel r hr
          exact ⟨page, h1, by omega, h3, (hkeep page h1 h2).symm.trans h4⟩
    · have hgt : ¬ cur > new := by rw [gt_iff_lt, UInt64.lt_iff_toNat_lt]; omega
      rw [if_neg hgt]
      exact ⟨s, [], rfl, hrefl (by omega), fun r hr => by cases hr⟩

/-! ### Runs -/

/-- A process heap: the memory and the break. -/
structure Heap where
  state : MemState
  brk : UInt64

/-- The calls that move the break. -/
inductive SbrkCall
  | allocate (delta : UInt64)
  | deallocate (delta : UInt64)

variable {call : SbrkCall} {h : Heap}

/-- Of the pages from `b₀` to 4 GiB, those that are mapped are the ones with a byte of
`[b₀, brk)`. -/
def HeapPagesExact (s : MemState) (root : UInt64) (b₀ brk : Nat) : Prop :=
  ∀ page, b₀ ≤ page * 4096 → page < 2 ^ 20 →
    ((mapping s.mem root page).isSome ↔ ∃ a, b₀ ≤ a ∧ a < brk ∧ a / 4096 = page)

/-- The start of a run: the break `b₀` is page-aligned and in the user window, the tables are
in order, and no heap page is mapped. -/
structure HeapStart (s : MemState) (root b₀ : UInt64) : Prop where
  tables : TablesOk s root
  aligned : b₀.toNat % 4096 = 0
  lo : USERSPACE_VA_MIN.toNat ≤ b₀.toNat
  hi : b₀.toNat < 2 ^ 32
  unmapped : ∀ page, b₀.toNat ≤ page * 4096 → page < 2 ^ 20 → mapping s.mem root page = none

namespace Heap

/-- One call. The list has the pages that the call unmapped, with their entries. -/
def exec (root : UInt64) (h : Heap) : SbrkCall → Except String (Heap × List (UInt64 × UInt64))
  | .allocate delta =>
    match vmmUserSbrkAllocate h.state root h.brk delta with
    | .error e => .error e
    | .ok (brk, s) => .ok ({ state := s, brk := brk }, [])
  | .deallocate delta =>
    match vmmUserSbrkDeallocate h.state root h.brk delta with
    | .error e => .error e
    | .ok (brk, s, released) => .ok ({ state := s, brk := brk }, released)

/-- The calls under consideration: the break moves, stays at or above `b₀` and below 4 GiB, and
memory does not run out. -/
def Legal (root b₀ : UInt64) (h : Heap) : SbrkCall → Prop
  | .allocate delta => 0 < delta.toNat ∧ h.brk.toNat + delta.toNat < 2 ^ 32 ∧
      h.exec root (.allocate delta) ≠ .error "sbrk: OOM"
  | .deallocate delta => 0 < delta.toNat ∧ b₀.toNat + delta.toNat ≤ h.brk.toNat

/-- The condition under which the code is right. An allocation does not start inside the last
page below 4 GiB. A deallocation neither starts nor ends at a page boundary. -/
def PageSafe (h : Heap) : SbrkCall → Prop
  | .allocate _ => h.brk.toNat ≤ 2 ^ 32 - 4096
  | .deallocate delta => h.brk.toNat % 4096 ≠ 0 ∧ (h.brk.toNat - delta.toNat) % 4096 ≠ 0

/-- The call returns without a panic, the heap pages are exact afterwards, and every frame that
it released was mapped at a heap page. -/
def CallExact (root b₀ : UInt64) (h : Heap) (call : SbrkCall) : Prop :=
  ∃ h' released, h.exec root call = .ok (h', released) ∧
    HeapPagesExact h'.state root b₀.toNat h'.brk.toNat ∧
    ∀ r ∈ released, b₀.toNat ≤ r.1.toNat ∧
      mapping h.state.mem root (r.1.toNat / 4096) = some r.2

/-- The heaps that legal and page-safe calls reach. -/
inductive Reachable (root b₀ : UInt64) (s₀ : MemState) : Heap → Prop
  | init : Reachable root b₀ s₀ { state := s₀, brk := b₀ }
  | step {h h' : Heap} {call : SbrkCall} {released : List (UInt64 × UInt64)}
      (hr : Reachable root b₀ s₀ h) (hlegal : h.Legal root b₀ call) (hsafe : h.PageSafe call)
      (hexec : h.exec root call = .ok (h', released)) : Reachable root b₀ s₀ h'

/-- The invariant of a run. -/
structure Inv (root b₀ : UInt64) (h : Heap) : Prop where
  ok : TablesOk h.state root
  lo : b₀.toNat ≤ h.brk.toNat
  hi : h.brk.toNat < 2 ^ 32
  mapped : ∀ page, b₀.toNat ≤ page * 4096 → page < 2 ^ 20 →
    ((mapping h.state.mem root page).isSome ↔ page * 4096 < h.brk.toNat)
  held : ∀ page pte, b₀.toNat ≤ page * 4096 → page < 2 ^ 20 →
    mapping h.state.mem root page = some pte → Held h.state root (pteFollow pte)
  inj : ∀ page page' pte pte', b₀.toNat ≤ page * 4096 → page < 2 ^ 20 →
    b₀.toNat ≤ page' * 4096 → page' < 2 ^ 20 → mapping h.state.mem root page = some pte →
    mapping h.state.mem root page' = some pte' → pteFollow pte = pteFollow pte' → page = page'

/-- The invariant says which heap pages are mapped. -/
theorem Inv.exact (hinv : h.Inv root b₀) : HeapPagesExact h.state root b₀.toNat h.brk.toNat := by
  intro page h1 h2
  rw [hinv.mapped page h1 h2]
  constructor
  · intro hlt
    exact ⟨page * 4096, h1, hlt, by omega⟩
  · rintro ⟨a, ha1, ha2, rfl⟩
    omega

section Steps

variable {root b₀ : UInt64}

/-- The invariant at the start. -/
theorem inv_init (hstart : HeapStart s root b₀) :
    Inv root b₀ { state := s, brk := b₀ } where
  ok := hstart.tables
  lo := Nat.le_refl _
  hi := hstart.hi
  mapped := fun page h1 h2 => by
    simp only [hstart.unmapped page h1 h2, Option.isSome_none, Bool.false_eq_true, false_iff]
    omega
  held := fun page pte h1 h2 hm => by simp [hstart.unmapped page h1 h2] at hm
  inj := fun page page' pte pte' h1 h2 _ _ hm => by simp [hstart.unmapped page h1 h2] at hm

/-- An allocation: it runs out of memory, with fewer than four pages in stock for each page to
map, or it maps the pages between the breaks. -/
theorem exec_allocate (hlo : USERSPACE_VA_MIN.toNat ≤ b₀.toNat) (hinv : h.Inv root b₀)
    (delta : UInt64) (hdelta : h.brk.toNat + delta.toNat < 2 ^ 32)
    (hsafe : h.brk.toNat ≤ 2 ^ 32 - 4096) :
    (h.exec root (.allocate delta) = .error "sbrk: OOM" ∧ (stock h.state).length <
      4 * ((h.brk.toNat + delta.toNat + 4095) / 4096 - (h.brk.toNat + 4095) / 4096)) ∨
    ∃ s', h.exec root (.allocate delta) = .ok ({ state := s', brk := h.brk + delta }, []) ∧
      (h.brk + delta).toNat = h.brk.toNat + delta.toNat ∧
      MapsPages h.state s' root ((h.brk.toNat + 4095) / 4096)
        ((h.brk.toNat + delta.toNat + 4095) / 4096) := by
  rw [toNat_USERSPACE_VA_MIN] at hlo
  have hblo := hinv.lo
  have hnew : (h.brk + delta).toNat = h.brk.toNat + delta.toNat := by
    rw [UInt64.toNat_add]; omega
  have hround : (PAGE_ROUND_UP h.brk).toNat = (h.brk.toNat + 4095) / 4096 * 4096 := by
    rw [toNat_PAGE_ROUND_UP _ (by omega)]; omega
  have hfree : ∀ page, (h.brk.toNat + 4095) / 4096 ≤ page →
      page < (h.brk.toNat + delta.toNat + 4095) / 4096 →
      mapping h.state.mem root page = none := by
    intro page h1 h2
    have hiff := hinv.mapped page (by omega) (by omega)
    have : ¬ page * 4096 < h.brk.toNat := by omega
    rw [← hiff] at this
    simpa using this
  have hspec := sbrkAllocateFrom_spec (h.brk + delta)
    ((h.brk + delta).toNat / 4096 + 1) hinv.ok hround rfl (by omega) (by omega)
    (by omega) (by rw [hnew]; exact hfree)
  simp only [exec, vmmUserSbrkAllocate]
  rw [hnew] at hspec ⊢
  rcases hspec with ⟨herr, hshort⟩ | ⟨s', hok, hmaps⟩
  · left
    rw [herr]
    exact ⟨rfl, hshort⟩
  · right
    rw [hok]
    exact ⟨s', rfl, rfl, hmaps⟩

/-- A page-safe deallocation unmaps the pages between the breaks. -/
theorem exec_deallocate (hlo : USERSPACE_VA_MIN.toNat ≤ b₀.toNat) (hinv : h.Inv root b₀)
    (delta : UInt64) (hdelta : b₀.toNat + delta.toNat ≤ h.brk.toNat)
    (hbrk : h.brk.toNat % 4096 ≠ 0) :
    ∃ s' released,
      h.exec root (.deallocate delta) = .ok ({ state := s', brk := h.brk - delta }, released) ∧
      (h.brk - delta).toNat = h.brk.toNat - delta.toNat ∧
      UnmapsPages h.state s' root ((h.brk.toNat - delta.toNat) / 4096 + 1)
        (h.brk.toNat / 4096 + 1) ∧
      ∀ r ∈ released, b₀.toNat ≤ r.1.toNat ∧
        mapping h.state.mem root (r.1.toNat / 4096) = some r.2 := by
  rw [toNat_USERSPACE_VA_MIN] at hlo
  have hhi := hinv.hi
  have hnew : (h.brk - delta).toNat = h.brk.toNat - delta.toNat :=
    UInt64.toNat_sub_of_le _ _ (by rw [UInt64.le_iff_toNat_le]; omega)
  have hround : (PAGE_ROUND_DOWN h.brk).toNat = h.brk.toNat / 4096 * 4096 := by
    rw [toNat_PAGE_ROUND_DOWN]; omega
  have hmap : ∀ page, (h.brk.toNat - delta.toNat) / 4096 + 1 ≤ page →
      page < h.brk.toNat / 4096 + 1 →
      ∃ pte, mapping h.state.mem root page = some pte ∧ Held h.state root (pteFollow pte) := by
    intro page h1 h2
    have hsome := (hinv.mapped page (by omega) (by omega)).mpr (by omega)
    obtain ⟨pte, hpte⟩ := Option.isSome_iff_exists.mp hsome
    exact ⟨pte, hpte, hinv.held page pte (by omega) (by omega) hpte⟩
  obtain ⟨s', released, hrun, hun, hrel⟩ := sbrkDeallocateFrom_spec (h.brk - delta)
    (PAGE_ROUND_DOWN h.brk) ((PAGE_ROUND_DOWN h.brk).toNat / 4096 + 1)
    (i := h.brk.toNat / 4096 + 1) (j := (h.brk.toNat - delta.toNat) / 4096 + 1) hinv.ok
    (by omega) (by rw [hnew]) (by omega) (by omega) (by omega) (by omega) hmap
    (fun page page' pte pte' h1 h2 h3 h4 =>
      hinv.inj page page' pte pte' (by omega) (by omega) (by omega) (by omega))
  refine ⟨s', released, ?_, hnew, hun, fun r hr => ?_⟩
  · simp only [exec, vmmUserSbrkDeallocate, hrun]
  · obtain ⟨page, h1, h2, h3, h4⟩ := hrel r hr
    rw [h3, Nat.mul_div_cancel _ (by omega)]
    exact ⟨by omega, h4⟩

/-- Mapping the pages between the breaks keeps the invariant. -/
theorem Inv.allocate (hinv : h.Inv root b₀) (hle : h.brk.toNat ≤ brk.toNat)
    (hhi : brk.toNat < 2 ^ 32)
    (hmaps : MapsPages h.state s' root ((h.brk.toNat + 4095) / 4096) ((brk.toNat + 4095) / 4096)) :
    Inv root b₀ { state := s', brk := brk } := by
  have hlo := hinv.lo
  -- A frame of the heap from before is in use, so it is not one that the allocator gave.
  have hold : ∀ page pte, b₀.toNat ≤ page * 4096 → page < 2 ^ 20 →
      ¬ ((h.brk.toNat + 4095) / 4096 ≤ page ∧ page < (brk.toNat + 4095) / 4096) →
      mapping s'.mem root page = some pte →
      mapping h.state.mem root page = some pte ∧ pteFollow pte ∉ stock h.state := by
    intro page pte h1 h2 hout hm
    rw [hmaps.outside page (by omega) hout] at hm
    exact ⟨hm, (hinv.held page pte h1 h2 hm).2⟩
  have hnew : ∀ page pte, (h.brk.toNat + 4095) / 4096 ≤ page ∧ page < (brk.toNat + 4095) / 4096 →
      mapping s'.mem root page = some pte →
      Held s' root (pteFollow pte) ∧ pteFollow pte ∈ stock h.state := by
    intro page pte hin hm
    obtain ⟨pte', hm', hheld, hstock⟩ := hmaps.inside page hin.1 hin.2
    rw [hm] at hm'
    cases hm'
    exact ⟨hheld, hstock⟩
  exact {
    ok := hmaps.ok
    lo := by simp only; omega
    hi := hhi
    mapped := fun page h1 h2 => by
      by_cases hin : (h.brk.toNat + 4095) / 4096 ≤ page ∧ page < (brk.toNat + 4095) / 4096
      · obtain ⟨pte, hm, -⟩ := hmaps.inside page hin.1 hin.2
        simp only [hm, Option.isSome_some, true_iff]
        omega
      · simp only [hmaps.outside page (by omega) hin, hinv.mapped page h1 h2]
        omega
    held := fun page pte h1 h2 hm => by
      by_cases hin : (h.brk.toNat + 4095) / 4096 ≤ page ∧ page < (brk.toNat + 4095) / 4096
      · exact (hnew page pte hin hm).1
      · exact hmaps.held _ (hinv.held page pte h1 h2 (hold page pte h1 h2 hin hm).1)
    inj := fun page page' pte pte' h1 h2 h3 h4 hm hm' heq => by
      by_cases hin : (h.brk.toNat + 4095) / 4096 ≤ page ∧ page < (brk.toNat + 4095) / 4096 <;>
        by_cases hin' : (h.brk.toNat + 4095) / 4096 ≤ page' ∧ page' < (brk.toNat + 4095) / 4096
      · exact hmaps.inj page page' pte pte' hin.1 hin.2 hin'.1 hin'.2 hm hm' heq
      · exact absurd (heq ▸ (hnew page pte hin hm).2) (hold page' pte' h3 h4 hin' hm').2
      · exact absurd (heq ▸ (hnew page' pte' hin' hm').2) (hold page pte h1 h2 hin hm).2
      · exact hinv.inj page page' pte pte' h1 h2 h3 h4 (hold page pte h1 h2 hin hm).1
          (hold page' pte' h3 h4 hin' hm').1 heq }

/-- Unmapping the pages between two breaks that are inside pages keeps the invariant. -/
theorem Inv.deallocate (hinv : h.Inv root b₀) (hlo : b₀.toNat ≤ brk.toNat)
    (hle : brk.toNat ≤ h.brk.toNat) (hbrk : brk.toNat % 4096 ≠ 0) (hold : h.brk.toNat % 4096 ≠ 0)
    (hun : UnmapsPages h.state s' root (brk.toNat / 4096 + 1) (h.brk.toNat / 4096 + 1)) :
    Inv root b₀ { state := s', brk := brk } := by
  have hhi := hinv.hi
  have hheap : ∀ page, brk.toNat / 4096 + 1 ≤ page → page < h.brk.toNat / 4096 + 1 →
      b₀.toNat ≤ page * 4096 ∧ page < 2 ^ 20 := fun page h1 h2 => by omega
  have hkeep : ∀ page pte, page < 2 ^ 20 → mapping s'.mem root page = some pte →
      ¬ (brk.toNat / 4096 + 1 ≤ page ∧ page < h.brk.toNat / 4096 + 1) ∧
      mapping h.state.mem root page = some pte := by
    intro page pte h2 hm
    rw [hun.mapping page (by omega)] at hm
    split at hm
    · cases hm
    · rename_i hout
      exact ⟨hout, hm⟩
  exact {
    ok := hun.ok
    lo := hlo
    hi := by simp only; omega
    mapped := fun page h1 h2 => by
      simp only
      rw [hun.mapping page (by omega)]
      split
      · simp only [Option.isSome_none, Bool.false_eq_true, false_iff]
        omega
      · rw [hinv.mapped page h1 h2]
        omega
    held := fun page pte h1 h2 hm => by
      obtain ⟨hout, hm⟩ := hkeep page pte h2 hm
      refine hun.held _ (hinv.held page pte h1 h2 hm) fun page' pte' h3 h4 hm' heq => ?_
      obtain ⟨hp1, hp2⟩ := hheap page' h3 h4
      exact hout (hinv.inj page' page pte' pte hp1 hp2 h1 h2 hm' hm heq ▸ ⟨h3, h4⟩)
    inj := fun page page' pte pte' h1 h2 h3 h4 hm hm' heq =>
      hinv.inj page page' pte pte' h1 h2 h3 h4 (hkeep page pte h2 hm).2
        (hkeep page' pte' h4 hm').2 heq }

section

variable (hlo : USERSPACE_VA_MIN.toNat ≤ b₀.toNat) (hinv : h.Inv root b₀)
  (hlegal : h.Legal root b₀ call) (hsafe : h.PageSafe call)

include hlo hinv hlegal hsafe

/-- A legal and page-safe call returns, keeps the invariant and releases only frames of heap
pages. -/
theorem exec_inv :
    ∃ h' released, h.exec root call = .ok (h', released) ∧ h'.Inv root b₀ ∧
      ∀ r ∈ released, b₀.toNat ≤ r.1.toNat ∧
        mapping h.state.mem root (r.1.toNat / 4096) = some r.2 := by
  cases call with
  | allocate delta =>
    obtain ⟨hpos, hdelta, hmem⟩ := hlegal
    rcases exec_allocate hlo hinv delta hdelta hsafe with ⟨herr, -⟩ | ⟨s', hrun, hnew, hmaps⟩
    · exact absurd herr hmem
    · rw [← hnew] at hmaps
      exact ⟨_, _, hrun, hinv.allocate (by omega) (by omega) hmaps, fun r hr => by cases hr⟩
  | deallocate delta =>
    obtain ⟨hpos, hdelta⟩ := hlegal
    obtain ⟨s', released, hrun, hnew, hun, hrel⟩ := exec_deallocate hlo hinv delta hdelta hsafe.1
    have hbrk := hsafe.2
    rw [← hnew] at hun hbrk
    exact ⟨_, _, hrun, hinv.deallocate (by omega) (by omega) hbrk hsafe.1 hun, hrel⟩

/-- A legal and page-safe call is exact. -/
theorem callExact_of_pageSafe : h.CallExact root b₀ call := by
  obtain ⟨h', released, hrun, hinv', hrel⟩ := exec_inv hlo hinv hlegal hsafe
  exact ⟨h', released, hrun, hinv'.exact, hrel⟩

end

/-- An allocation that starts inside the last page below 4 GiB panics: the loop starts at
address 0. -/
theorem exec_allocate_panics (root : UInt64) (hhi : h.brk.toNat < 2 ^ 32) (hdelta : 0 < delta.toNat)
    (hnew : h.brk.toNat + delta.toNat < 2 ^ 32) (hsafe : 2 ^ 32 - 4096 < h.brk.toNat) :
    ∃ e, h.exec root (.allocate delta) = .error e := by
  have hround : PAGE_ROUND_UP h.brk = 0 := by
    apply UInt64.toNat.inj
    rw [toNat_PAGE_ROUND_UP _ (by omega), UInt64.toNat_zero]
    omega
  have hnew' : (h.brk + delta).toNat = h.brk.toNat + delta.toNat := by
    rw [UInt64.toNat_add]; omega
  have hlt : (0 : UInt64) < h.brk + delta := by
    rw [UInt64.lt_iff_toNat_lt, UInt64.toNat_zero]; omega
  simp only [exec, vmmUserSbrkAllocate, hround]
  rw [sbrkAllocateFrom, if_pos hlt, vmmAllocate, if_neg (by decide), if_neg (by decide),
    if_neg (by decide)]
  rw [show (PAGE_SIZE.toUInt64 / PAGE_SIZE.toUInt64).toNat = 1 by decide, vmmAllocateFrom]
  simp only [if_true]
  cases kcalloc h.state with
  | mk frame s =>
    cases frame with
    | none => exact ⟨_, rfl⟩
    | some frame =>
      simp only
      rw [walk_panic s root _ true (Or.inl (by decide))]
      exact ⟨_, rfl⟩

/-- A deallocation from a page boundary panics, or releases what a page that is not mapped
holds. -/
theorem exec_deallocate_boundary (hlo : USERSPACE_VA_MIN.toNat ≤ b₀.toNat) (hinv : h.Inv root b₀)
    (hpos : 0 < delta.toNat) (hdelta : b₀.toNat + delta.toNat ≤ h.brk.toNat)
    (hbrk : h.brk.toNat % 4096 = 0) {h' : Heap} {released : List (UInt64 × UInt64)}
    (hexec : h.exec root (.deallocate delta) = .ok (h', released)) :
    ∃ r ∈ released, mapping h.state.mem root (r.1.toNat / 4096) = none := by
  rw [toNat_USERSPACE_VA_MIN] at hlo
  have hhi := hinv.hi
  have hnew : (h.brk - delta).toNat = h.brk.toNat - delta.toNat :=
    UInt64.toNat_sub_of_le _ _ (by rw [UInt64.le_iff_toNat_le]; omega)
  have hround : PAGE_ROUND_DOWN h.brk = h.brk := by
    apply UInt64.toNat.inj
    rw [toNat_PAGE_ROUND_DOWN]; omega
  have hgt : h.brk > h.brk - delta := by rw [gt_iff_lt, UInt64.lt_iff_toNat_lt]; omega
  have hnone : mapping h.state.mem root (h.brk.toNat / 4096) = none := by
    have hiff := hinv.mapped (h.brk.toNat / 4096) (by omega) (by omega)
    have hge : ¬ h.brk.toNat / 4096 * 4096 < h.brk.toNat := by omega
    rw [← hiff] at hge
    simpa using hge
  simp only [exec, vmmUserSbrkDeallocate, hround] at hexec
  rw [sbrkDeallocateFrom, if_pos hgt, walk_eq _ root h.brk (by omega) (by omega)] at hexec
  cases hslot : leafSlot h.state.mem root (h.brk.toNat / 4096) with
  | none => simp [hslot] at hexec
  | some slot =>
    simp only [hslot] at hexec
    split at hexec
    · cases hexec
    · rename_i brk' s' rel hrun
      split at hrun
      · cases hrun
      · rename_i s₁ hloop
        split at hloop
        · cases hloop
        · split at hloop
          · cases hloop
          · cases hloop
            cases hrun
            cases hexec
            exact ⟨_, List.mem_cons_self, hnone⟩

/-- A legal call that is not page-safe is not exact. -/
theorem pageSafe_of_callExact (hlo : USERSPACE_VA_MIN.toNat ≤ b₀.toNat) (hinv : h.Inv root b₀)
    (hlegal : h.Legal root b₀ call) (hexact : h.CallExact root b₀ call) : h.PageSafe call := by
  obtain ⟨h', released, hexec, hpages, hrel⟩ := hexact
  have hhi := hinv.hi
  cases call with
  | allocate delta =>
    obtain ⟨hpos, hdelta, -⟩ := hlegal
    by_contra hsafe
    unfold PageSafe at hsafe
    obtain ⟨e, he⟩ := exec_allocate_panics root hhi hpos hdelta (by omega)
    rw [he] at hexec
    cases hexec
  | deallocate delta =>
    obtain ⟨hpos, hdelta⟩ := hlegal
    have hbrk : h.brk.toNat % 4096 ≠ 0 := by
      intro hal
      obtain ⟨r, hr, hnone⟩ := exec_deallocate_boundary hlo hinv hpos hdelta hal hexec
      have hsome := (hrel r hr).2
      rw [hnone] at hsome
      cases hsome
    refine ⟨hbrk, fun hal => ?_⟩
    -- The page that starts at the new break is still mapped.
    obtain ⟨s', released', hrun, hnew, hun, -⟩ := exec_deallocate hlo hinv delta hdelta hbrk
    rw [hexec] at hrun
    cases hrun
    simp only [hnew] at hpages
    have hiff := hpages ((h.brk.toNat - delta.toNat) / 4096) (by omega) (by omega)
    rw [hun.mapping _ (by omega), if_neg (by omega),
      hinv.mapped _ (by omega) (by omega)] at hiff
    obtain ⟨a, ha1, ha2, ha3⟩ := hiff.mp (by omega)
    omega

end Steps

/-- The invariant holds in every reachable heap. -/
theorem Reachable.inv {s₀ : MemState} (hstart : HeapStart s₀ root b₀)
    (hr : Reachable root b₀ s₀ h) :
    h.Inv root b₀ := by
  induction hr with
  | init => exact inv_init hstart
  | step _ hlegal hsafe hexec ih =>
    obtain ⟨h', released, hrun, hinv, -⟩ := exec_inv hstart.lo ih hlegal hsafe
    rw [hexec] at hrun
    cases hrun
    exact hinv

end Heap

/-- In every run of legal and page-safe calls from a heap with no page mapped:

- the pages mapped from `b₀` on are exactly those with a byte of `[b₀, brk)`;
- the next legal call does not panic, keeps that so, and releases only frames that were mapped
  at heap pages, if and only if it is page-safe;
- an allocation for which four pages are in stock for each page to map does not run out of
  memory;
- deallocating right after allocating the same amount restores the break and every mapping. -/
theorem sbrk_heap_exact (root b₀ : UInt64) (s₀ : MemState) (hstart : HeapStart s₀ root b₀)
    (h : Heap) (hr : Heap.Reachable root b₀ s₀ h) :
    HeapPagesExact h.state root b₀.toNat h.brk.toNat ∧
    (∀ call, h.Legal root b₀ call → (h.CallExact root b₀ call ↔ h.PageSafe call)) ∧
    (∀ delta : UInt64, h.brk.toNat + delta.toNat < 2 ^ 32 → h.PageSafe (.allocate delta) →
      4 * ((h.brk.toNat + delta.toNat + 4095) / 4096 - (h.brk.toNat + 4095) / 4096) ≤
        (stock h.state).length →
      h.exec root (.allocate delta) ≠ .error "sbrk: OOM") ∧
    (∀ (delta : UInt64) (h₁ : Heap) (released : List (UInt64 × UInt64)),
      h.Legal root b₀ (.allocate delta) → h.PageSafe (.allocate delta) →
      h.exec root (.allocate delta) = .ok (h₁, released) → h₁.PageSafe (.deallocate delta) →
      ∃ h₂ released', h₁.exec root (.deallocate delta) = .ok (h₂, released') ∧
        h₂.brk = h.brk ∧
        ∀ page < 2 ^ 34, mapping h₂.state.mem root page = mapping h.state.mem root page) := by
  have hinv := hr.inv hstart
  refine ⟨hinv.exact, fun call hlegal => ?_, ?_, ?_⟩
  · exact ⟨Heap.pageSafe_of_callExact hstart.lo hinv hlegal,
      Heap.callExact_of_pageSafe hstart.lo hinv hlegal⟩
  · intro delta hdelta hsafe hstock herr
    rcases Heap.exec_allocate hstart.lo hinv delta hdelta hsafe with ⟨-, hshort⟩ | ⟨s', hrun, -⟩
    · omega
    · rw [hrun] at herr
      cases herr
  · intro delta h₁ released hlegal hsafe hexec hsafe₁
    obtain ⟨hpos, hdelta, hmem⟩ := hlegal
    rcases Heap.exec_allocate hstart.lo hinv delta hdelta hsafe with
      ⟨herr, -⟩ | ⟨s₁, hrun, hnew, hmaps⟩
    · exact absurd herr hmem
    rw [hexec] at hrun
    cases hrun
    rw [← hnew] at hmaps
    have hinv₁ := hinv.allocate (by omega) (by omega) hmaps
    have hblo := hinv.lo
    obtain ⟨s₂, released', hrun', hnew', hun, -⟩ := Heap.exec_deallocate hstart.lo hinv₁
      delta (by simp only; omega) hsafe₁.1
    have hsafe₂ := hsafe₁.2
    simp only at hun hnew' hsafe₂
    refine ⟨_, _, hrun', by simp, fun page hp => ?_⟩
    -- The pages that were unmapped are the pages that were mapped before.
    have hrange : (h.brk.toNat + 4095) / 4096 ≤ page ∧
        page < ((h.brk + delta).toNat + 4095) / 4096 ↔
        ((h.brk + delta).toNat - delta.toNat) / 4096 + 1 ≤ page ∧
          page < (h.brk + delta).toNat / 4096 + 1 := by
      have := hsafe₁.1
      simp only at this
      omega
    simp only
    rw [hun.mapping page hp]
    split
    · rename_i hin
      rw [← hrange] at hin
      have hnone := hinv.mapped page (by omega) (by omega)
      have hge : ¬ page * 4096 < h.brk.toNat := by omega
      rw [← hnone] at hge
      exact (by simpa using hge : mapping h.state.mem root page = none).symm
    · rename_i hout
      rw [← hrange] at hout
      exact hmaps.outside page hp hout

/-! ### A small machine -/

/-- A machine with six free pages and an empty page table at `0x1000`. -/
def smallMachine : MemState :=
  { MemState.boot Bytes.zero with regions := [{ physCur := 0x2000, physEnd := 0x8000 }] }

/-- The free pages of the small machine. -/
theorem stock_smallMachine :
    stock smallMachine = [0x2000, 0x3000, 0x4000, 0x5000, 0x6000, 0x7000] := by rfl

/-- In zero memory there is no table but the root. -/
theorem tableAt_zero {t : UInt64} {d : Nat} (h : tableAt Bytes.zero root page d = some t) :
    d = 0 ∧ t = root := by
  cases d with
  | zero => exact ⟨rfl, (Option.some.inj h).symm⟩
  | succ d =>
    rw [tableAt, Trie.node_succ] at h
    obtain ⟨u, -, hu⟩ := Option.bind_eq_some_iff.mp h
    rw [tableEntry, readPte, Bytes.getLE_zero] at hu
    have hzero : nextTable (UInt64.ofNat 0) = none := by decide
    rw [hzero] at hu
    cases hu

/-- The heap of the small machine can start at the lowest user address. -/
theorem heapStart_smallMachine : HeapStart smallMachine 0x1000 0x400000 where
  tables := {
    hhdm := by decide
    regions := fun r hr => by
      rw [List.mem_singleton.mp hr]
      exact ⟨by decide, by decide, by decide⟩
    nodup := by rw [stock_smallMachine]; decide
    stockPage := by rw [stock_smallMachine]; simp
    rootAligned := by decide
    separate := by
      intro p hp q hq d e t _ _ h1 h2
      obtain ⟨page, -, rfl⟩ := hp
      obtain ⟨page', -, rfl⟩ := hq
      obtain ⟨rfl, -⟩ := tableAt_zero h1
      obtain ⟨rfl, -⟩ := tableAt_zero h2
      exact ⟨rfl, fun i hi => by omega⟩
    apart := by
      rintro t ⟨page, -, d, -, ht⟩
      obtain ⟨-, rfl⟩ := tableAt_zero ht
      rw [stock_smallMachine]
      decide }
  aligned := by decide
  lo := by decide
  hi := by decide
  unmapped := fun page _ _ => by
    refine mapping_of_no_table ?_
    cases ht : tableAt smallMachine.mem 0x1000 page 3 with
    | none => rfl
    | some t => exact absurd (tableAt_zero ht).1 (by decide)

/-- The heap of the small machine at its start. -/
def smallHeap : Heap := { state := smallMachine, brk := 0x400000 }

/-- One page can be allocated. -/
theorem smallHeap_allocate :
    ∃ s₁, smallHeap.exec 0x1000 (.allocate 4096) = .ok ({ state := s₁, brk := 0x401000 }, []) ∧
      Heap.Inv 0x1000 0x400000 { state := s₁, brk := 0x401000 } := by
  have hinv := Heap.inv_init heapStart_smallMachine
  rcases Heap.exec_allocate heapStart_smallMachine.lo hinv 4096 (by decide)
    (by decide) with ⟨-, hshort⟩ | ⟨s₁, hrun, -, hmaps⟩
  · simp only [stock_smallMachine] at hshort
    exact absurd hshort (by decide)
  · exact ⟨s₁, hrun, hinv.allocate (by decide) (by decide) hmaps⟩

/-- Allocating one page and deallocating it again goes wrong: the page behind the heap, which
is not mapped, is unmapped, and the heap page stays. -/
theorem sbrk_releases_unmapped :
    HeapStart smallMachine 0x1000 smallHeap.brk ∧
    ∃ h₁, smallHeap.Legal 0x1000 smallHeap.brk (.allocate 4096) ∧
      smallHeap.exec 0x1000 (.allocate 4096) = .ok (h₁, []) ∧
      h₁.Legal 0x1000 smallHeap.brk (.deallocate 4096) ∧
      ¬ h₁.CallExact 0x1000 smallHeap.brk (.deallocate 4096) := by
  obtain ⟨s₁, hrun, hinv₁⟩ := smallHeap_allocate
  have hlegal : Heap.Legal 0x1000 smallHeap.brk { state := s₁, brk := 0x401000 }
      (.deallocate 4096) :=
    ⟨by decide, show (0x400000 : UInt64).toNat + (4096 : UInt64).toNat ≤
      (0x401000 : UInt64).toNat by decide⟩
  refine ⟨heapStart_smallMachine, _, ⟨by decide, by decide, ?_⟩, hrun, hlegal, fun hexact => ?_⟩
  · rw [hrun]
    exact fun hc => by cases hc
  · have hsafe := Heap.pageSafe_of_callExact heapStart_smallMachine.lo hinv₁ hlegal hexact
    exact hsafe.1 (show (0x401000 : UInt64).toNat % 4096 = 0 by decide)

/-- The result at the start of the small machine: allocating one byte is exact. -/
theorem sbrk_heap_exact_smallHeap :
    smallHeap.Legal 0x1000 0x400000 (.allocate 1) ∧
    smallHeap.CallExact 0x1000 0x400000 (.allocate 1) := by
  have h := sbrk_heap_exact 0x1000 0x400000 smallMachine heapStart_smallMachine smallHeap .init
  have hsafe : smallHeap.PageSafe (.allocate 1) :=
    show (0x400000 : UInt64).toNat ≤ 2 ^ 32 - 4096 by decide
  have hmem := h.2.2.1 1 (by decide) hsafe (by
    rw [show smallHeap.state = smallMachine from rfl, stock_smallMachine]
    decide)
  have hlegal : smallHeap.Legal 0x1000 0x400000 (.allocate 1) := ⟨by decide, by decide, hmem⟩
  exact ⟨hlegal, (h.2.1 _ hlegal).mpr hsafe⟩

end DzOS.Proofs.Mem
