import DzOS.Proofs.Mem.SpaceItems

/-!
# `DzOS.Proofs.Mem.SpaceCreation`: the pages of a new address space

`vmm_user_pagetable_new` takes a root, a table for each table that it copies from the kernel, three
blocks for the stacks, and the tables that map them. The stacks lie next to each other, below one
table of the last level. So the first page that is mapped makes the three tables on its way, and the
others need nothing (`mapPagesFrom_ready`). When the three tables are not to be had, no stack is
mapped at all, and the blocks are lost (`mapPagesFrom_short`).

`vmmUserPagetableNew_account` is the account: of the pages that were taken, some are in the user
half of the new table, one is its root, and the rest are `lostPages`.
-/

set_option autoImplicit false

namespace DzOS.Proofs.Mem.SpaceCreation

open scoped List

open DzOS.Lib DzOS.Mem DzOS.Proofs.Mem DzOS.Proofs.Mem.SpaceItems

variable {j : ℕ} {root : UInt64}

/-! ### The stacks -/

/-- The tables for the stacks are there. -/
def Ready (t : PageTree 3) : Prop := (readLeaf t USER_STACK_BOTTOM).isSome

/-- An address on one of the three stacks. -/
structure OnStacks (va : UInt64) : Prop where
  lo : USERSPACE_VA_MIN ≤ va
  hi : va < USERSPACE_VA_MAX
  path : ∀ level, 0 < level → level ≤ 3 → vaPath va level = vaPath USER_STACK_BOTTOM level

variable {physMaxEnd : UInt64} {t t' : PageTree 3} {va pa : UInt64} {perm : PtePermissions}
  {pages rest : List UInt64} {r : Int} {k i : ℕ}

theorem OnStacks.ready_iff (h : OnStacks va) : (readLeaf t va).isSome ↔ Ready t := by
  rw [Ready, readLeaf, readLeaf, Radix.leaf_isSome_congr h.path]

theorem OnStacks.walkUser (h : OnStacks va) (t : PageTree 3) (pages : List UInt64) :
    walkUser t va false pages = .ok (extendPath (PTE_P ||| PTE_W ||| PTE_U) t va pages) := by
  have hlo : ¬ va < USERSPACE_VA_MIN := UInt64.not_lt.mpr h.lo
  have hhi : ¬ va ≥ USERSPACE_VA_MAX := UInt64.not_le.mpr h.hi
  rw [DzOS.Mem.walkUser, if_neg (by simp [hlo, hhi])]

/-- The three stacks are in the last 2 MiB of the window. -/
theorem onStacks_of_range (hlo : 2 ^ 46 - 0x200000 ≤ va.toNat) (hhi : va.toNat < 2 ^ 46) :
    OnStacks va := by
  have hbottom : USER_STACK_BOTTOM.toNat = 2 ^ 46 - 0x8000 := by decide
  constructor
  · rw [UInt64.le_iff_toNat_le, toNat_USERSPACE_VA_MIN]
    omega
  · rw [UInt64.lt_iff_toNat_lt, toNat_USERSPACE_VA_MAX]
    exact hhi
  · intro level hpos hle
    rw [vaPath_eq va hle, vaPath_eq USER_STACK_BOTTOM hle, hbottom]
    interval_cases level <;> omega

/-- The pages of the three stacks. -/
theorem onStacks_page {bottom : UInt64}
    (hbottom : bottom = USER_STACK_BOTTOM ∨ bottom = INTSTACK_VIRTUAL_ADDRESS_BOTTOM ∨
      bottom = SYSCALLSTACK_VIRTUAL_ADDRESS_BOTTOM) (hj : j < 8) :
    OnStacks (bottom + UInt64.ofNat j * PAGE_SIZE.toUInt64) := by
  have huser : USER_STACK_BOTTOM.toNat = 2 ^ 46 - 0x8000 := by decide
  have hint : INTSTACK_VIRTUAL_ADDRESS_BOTTOM.toNat = 2 ^ 46 - 0x11000 := by decide
  have hsyscall : SYSCALLSTACK_VIRTUAL_ADDRESS_BOTTOM.toNat = 2 ^ 46 - 0x1a000 := by decide
  have hsum : (bottom + UInt64.ofNat j * PAGE_SIZE.toUInt64).toNat =
      (bottom.toNat + j * 4096) % 2 ^ 64 := by
    rw [UInt64.toNat_add, UInt64.toNat_mul, toNat_PAGE_SIZE_toUInt64, UInt64.toNat_ofNat']
    omega
  rcases hbottom with rfl | rfl | rfl
  all_goals exact onStacks_of_range (by omega) (by omega)

/-- With the tables there, a stack takes its frames and nothing else. -/
theorem mapPagesFrom_ready (hready : Ready t)
    (hva : ∀ j, i ≤ j → j < i + k → OnStacks (va + UInt64.ofNat j * PAGE_SIZE.toUInt64))
    (hpa : ∀ j, i ≤ j → j < i + k →
      PageOk physMaxEnd (pa + UInt64.ofNat j * PAGE_SIZE.toUInt64))
    (h : mapPagesFrom va pa perm k i t pages = .ok (r, t', rest)) :
    rest = pages ∧ Ready t' ∧ Gains physMaxEnd t t'
      ((List.range' i k).map fun j => pa + UInt64.ofNat j * PAGE_SIZE.toUInt64) := by
  induction k generalizing i t with
  | zero =>
    cases h
    exact ⟨rfl, hready, Gains.refl _⟩
  | succ k ih =>
    have hstack := hva i (Nat.le_refl i) (by omega)
    have hleaf := hstack.ready_iff.mpr hready
    unfold mapPagesFrom at h
    dsimp only at h
    rw [hstack.walkUser, extendPath, Radix.extend_of_leaf hleaf] at h
    dsimp only at h
    split at h
    · cases h
    · rename_i hfree
      have hgains := writeLeaf_gains perm hstack.hi hleaf hfree (hpa i (Nat.le_refl i) (by omega))
      have hready' : Ready (writeLeaf t (va + UInt64.ofNat i * PAGE_SIZE.toUInt64)
          (buildPte (pa + UInt64.ofNat i * PAGE_SIZE.toUInt64) perm)) := by
        rw [Ready, readLeaf, writeLeaf, Radix.leaf_isSome_setLeaf hleaf]
        exact hready
      obtain ⟨hrest, hdone, hmore⟩ := ih hready' (fun j h1 h2 => hva j (by omega) (by omega))
        (fun j h1 h2 => hpa j (by omega) (by omega)) h
      refine ⟨hrest, hdone, ?_⟩
      rw [List.range'_succ, List.map_cons]
      exact hgains.trans hmore

/-- Without memory for the tables, nothing is mapped. -/
theorem mapPagesFrom_short (hready : ¬ Ready t)
    (hva : OnStacks (va + UInt64.ofNat i * PAGE_SIZE.toUInt64)) :
    mapPagesFrom va pa perm (k + 1) i t [] = .ok (-1, t, []) := by
  have hleaf : (t.leaf pteIsPresent
      (vaPath (va + UInt64.ofNat i * PAGE_SIZE.toUInt64))).isSome = false :=
    Bool.eq_false_iff.mpr fun hsome => hready (hva.ready_iff.mp hsome)
  unfold mapPagesFrom
  dsimp only
  rw [hva.walkUser, extendPath, Radix.extend_nil, hleaf]

/-- A table with an empty user half. -/
def UserHalfEmpty (t : PageTree 3) : Prop := ∀ i < 128, pteIsPresent (t.branchAt i).1 = false

theorem spaceItems_of_empty (h : UserHalfEmpty t) : spaceItems t = [] := by
  cases t with
  | node e c =>
    rw [spaceItems, Radix.items, List.flatMap_eq_nil_iff]
    intro i hi
    have habsent : pteIsPresent (e i) = false := h i (List.mem_range.mp hi)
    rw [habsent]
    rfl

theorem visible_of_empty (h : UserHalfEmpty t) (physMaxEnd : UInt64) : Visible physMaxEnd t 0 := by
  cases t with
  | node e c =>
    intro i hi hp
    have habsent : pteIsPresent (e i) = false := h i (List.mem_range.mp hi)
    rw [habsent] at hp
    cases hp

/-- The first stack in an empty user half: with three pages its tables are made, and with fewer
nothing is mapped. -/
theorem mapPagesFrom_first (hempty : UserHalfEmpty t)
    (hva : ∀ j < k + 1, OnStacks (va + UInt64.ofNat j * PAGE_SIZE.toUInt64))
    (hpa : ∀ j < k + 1, PageOk physMaxEnd (pa + UInt64.ofNat j * PAGE_SIZE.toUInt64))
    (hpages : ∀ p ∈ pages, PageOk physMaxEnd p)
    (h : mapPagesFrom va pa perm (k + 1) 0 t pages = .ok (r, t', rest)) :
    (3 ≤ pages.length ∧ rest = pages.drop 3 ∧ Ready t' ∧
      Gains physMaxEnd t t' (pages.take 3 ++ blockPages pa (k + 1))) ∨
    (pages.length < 3 ∧ rest = [] ∧ ¬ Ready t' ∧ Gains physMaxEnd t t' pages) := by
  have hstack := hva 0 (by omega)
  unfold mapPagesFrom at h
  dsimp only at h
  generalize hwalk : walkUser t (va + UInt64.ofNat 0 * PAGE_SIZE.toUInt64) false pages = res at h
  cases res with
  | error e => cases h
  | ok res =>
    obtain ⟨ok, t₁, rest₁⟩ := res
    obtain ⟨used, hused, hgains⟩ := walkUser_gains hwalk hpages
    obtain ⟨hlo, hhi, hpath⟩ := walkUser_window hwalk
    -- the path starts at an entry of the root that is not present
    have hmissing : ok = decide (3 ≤ pages.length) ∧ rest₁ = pages.drop 3 := by
      cases t with
      | node e c =>
        have hzero : pteIsPresent 0 = false := by decide
        have habsent : pteIsPresent (e (vaPath (va + UInt64.ofNat 0 * PAGE_SIZE.toUInt64) 3)) =
            false := hempty _ (vaPath_user hhi)
        have hextend : (extendPath (PTE_P ||| PTE_W ||| PTE_U) (Radix.node e c)
              (va + UInt64.ofNat 0 * PAGE_SIZE.toUInt64) pages).1 = decide (3 ≤ pages.length) ∧
            (extendPath (PTE_P ||| PTE_W ||| PTE_U) (Radix.node e c)
              (va + UInt64.ofNat 0 * PAGE_SIZE.toUInt64) pages).2.2 = pages.drop 3 :=
          Radix.extend_missing hzero habsent pages
        rw [hpath] at hextend
        exact hextend
    obtain ⟨hok, hrest₁⟩ := hmissing
    have hused' : used = pages.take 3 := by
      rw [hrest₁] at hused
      exact List.append_cancel_right (hused.symm.trans (List.take_append_drop 3 pages).symm)
    rw [hused'] at hgains
    by_cases hlen : 3 ≤ pages.length
    · rw [decide_eq_true hlen] at hok
      rw [hok] at h hpath
      dsimp only at h
      split at h
      · cases h
      · rename_i hfree
        have hleaf : (readLeaf t₁ (va + UInt64.ofNat 0 * PAGE_SIZE.toUInt64)).isSome :=
          (walkUser_walked (hok ▸ hwalk)).slot rfl
        have hwrite := writeLeaf_gains perm hhi hleaf hfree (hpa 0 (by omega))
        have hready : Ready (writeLeaf t₁ (va + UInt64.ofNat 0 * PAGE_SIZE.toUInt64)
            (buildPte (pa + UInt64.ofNat 0 * PAGE_SIZE.toUInt64) perm)) := by
          rw [Ready, readLeaf, writeLeaf, Radix.leaf_isSome_setLeaf hleaf]
          exact hstack.ready_iff.mp hleaf
        obtain ⟨hrest, hdone, hmore⟩ := mapPagesFrom_ready hready
          (fun j _ h2 => hva j (by omega)) (fun j _ h2 => hpa j (by omega)) h
        refine Or.inl ⟨hlen, hrest.trans hrest₁, hdone, ?_⟩
        rw [blockPages, List.range_eq_range', List.range'_succ, List.map_cons]
        exact hgains.trans (hwrite.trans hmore)
    · rw [decide_eq_false hlen] at hok
      rw [hok] at h hpath
      have hnone : t₁.leaf pteIsPresent (vaPath (va + UInt64.ofNat 0 * PAGE_SIZE.toUInt64)) =
          none := by
        have hfail : (extendPath (PTE_P ||| PTE_W ||| PTE_U) t
              (va + UInt64.ofNat 0 * PAGE_SIZE.toUInt64) pages).1 = false →
            (extendPath (PTE_P ||| PTE_W ||| PTE_U) t
              (va + UInt64.ofNat 0 * PAGE_SIZE.toUInt64) pages).2.1.leaf pteIsPresent
              (vaPath (va + UInt64.ofNat 0 * PAGE_SIZE.toUInt64)) = none :=
          fun hnot => Radix.leaf_extend_eq_none hnot
        rw [hpath] at hfail
        exact hfail rfl
      cases h
      refine Or.inr ⟨by omega, ?_, fun hready => ?_, ?_⟩
      · rw [hrest₁]
        exact List.drop_of_length_le (by omega)
      · have hsome := hstack.ready_iff.mpr hready
        rw [readLeaf, hnone] at hsome
        cases hsome
      · rw [List.take_of_length_le (by omega)] at hgains
        exact hgains

/-- The loop behind `vmm_map_pages`. -/
theorem vmmMapPages_loop {size : UInt64} {x : Int × PageTree 3 × List UInt64}
    (h : vmmMapPages t va size pa perm pages = .ok x) :
    mapPagesFrom va pa perm (size / PAGE_SIZE.toUInt64).toNat 0 t pages = .ok x := by
  unfold vmmMapPages at h
  split_ifs at h
  exact h

/-- The pages of the three stacks. -/
def stackPages (userStack intStack syscallStack : UInt64) : List UInt64 :=
  blockPages userStack (USER_STACK_SIZE / PAGE_SIZE.toUInt64).toNat ++
    blockPages intStack (INTSTACK_SIZE / PAGE_SIZE.toUInt64).toNat ++
    blockPages syscallStack (SYSCALLSTACK_SIZE / PAGE_SIZE.toUInt64).toNat

/-- The pages of a block. -/
theorem pageOk_of_block {base : UInt64} {count : ℕ}
    (h : ∀ p ∈ blockPages base count, PageOk physMaxEnd p) (hj : j < count) :
    PageOk physMaxEnd (base + UInt64.ofNat j * PAGE_SIZE.toUInt64) :=
  h _ (List.mem_map.mpr ⟨j, List.mem_range.mpr hj, rfl⟩)

/-- The three stacks of a new table, with their tables or not at all. -/
theorem mapUserStacks_account {userStack intStack syscallStack : UInt64}
    (hempty : UserHalfEmpty t)
    (hstacks : ∀ p ∈ stackPages userStack intStack syscallStack, PageOk physMaxEnd p)
    (hpages : ∀ p ∈ pages, PageOk physMaxEnd p)
    (h : mapUserStacks t userStack intStack syscallStack pages = .ok (t', rest)) :
    (3 ≤ pages.length ∧ rest = pages.drop 3 ∧ Gains physMaxEnd t t'
      (pages.take 3 ++ stackPages userStack intStack syscallStack)) ∨
    (pages.length < 3 ∧ rest = [] ∧ Gains physMaxEnd t t' pages) := by
  have huserSize : (USER_STACK_SIZE / PAGE_SIZE.toUInt64).toNat = 7 + 1 := by decide
  have hintSize : (INTSTACK_SIZE / PAGE_SIZE.toUInt64).toNat = 7 + 1 := by decide
  have hsyscallSize : (SYSCALLSTACK_SIZE / PAGE_SIZE.toUInt64).toNat = 7 + 1 := by decide
  unfold stackPages at hstacks ⊢
  rw [huserSize, hintSize, hsyscallSize] at hstacks ⊢
  have huser : ∀ p ∈ blockPages userStack (7 + 1), PageOk physMaxEnd p := fun p hp =>
    hstacks p (List.mem_append_left _ (List.mem_append_left _ hp))
  have hint : ∀ p ∈ blockPages intStack (7 + 1), PageOk physMaxEnd p := fun p hp =>
    hstacks p (List.mem_append_left _ (List.mem_append_right _ hp))
  have hsyscall : ∀ p ∈ blockPages syscallStack (7 + 1), PageOk physMaxEnd p := fun p hp =>
    hstacks p (List.mem_append_right _ hp)
  obtain ⟨r₁, t₁, rest₁, r₂, t₂, rest₂, r₃, h₁, h₂, h₃⟩ := mapUserStacks_parts h
  have hloop₁ := vmmMapPages_loop h₁
  have hloop₂ := vmmMapPages_loop h₂
  have hloop₃ := vmmMapPages_loop h₃
  rw [huserSize] at hloop₁
  rw [hintSize] at hloop₂
  rw [hsyscallSize] at hloop₃
  have honUser : ∀ j < 7 + 1, OnStacks (USER_STACK_BOTTOM + UInt64.ofNat j * PAGE_SIZE.toUInt64) :=
    fun j hj => onStacks_page (Or.inl rfl) hj
  have honInt : ∀ j < 7 + 1,
      OnStacks (INTSTACK_VIRTUAL_ADDRESS_BOTTOM + UInt64.ofNat j * PAGE_SIZE.toUInt64) :=
    fun j hj => onStacks_page (Or.inr (Or.inl rfl)) hj
  have honSyscall : ∀ j < 7 + 1,
      OnStacks (SYSCALLSTACK_VIRTUAL_ADDRESS_BOTTOM + UInt64.ofNat j * PAGE_SIZE.toUInt64) :=
    fun j hj => onStacks_page (Or.inr (Or.inr rfl)) hj
  rcases mapPagesFrom_first hempty honUser (fun j hj => pageOk_of_block huser hj) hpages hloop₁ with
    ⟨hlen, hrest₁, hready, hgains₁⟩ | ⟨hlen, hrest₁, hready, hgains₁⟩
  · obtain ⟨hrest₂, hready₂, hgains₂⟩ := mapPagesFrom_ready hready
      (fun j _ hj => honInt j (by omega)) (fun j _ hj => pageOk_of_block hint (by omega)) hloop₂
    obtain ⟨hrest₃, -, hgains₃⟩ := mapPagesFrom_ready hready₂
      (fun j _ hj => honSyscall j (by omega)) (fun j _ hj => pageOk_of_block hsyscall (by omega))
      hloop₃
    refine Or.inl ⟨hlen, hrest₃.trans (hrest₂.trans hrest₁), ?_⟩
    rw [← List.range_eq_range'] at hgains₂ hgains₃
    have hall := (hgains₁.trans hgains₂).trans hgains₃
    rw [List.append_assoc, List.append_assoc] at hall
    rw [List.append_assoc]
    exact hall
  · -- the other two stacks find no memory either
    rw [hrest₁, mapPagesFrom_short hready (honInt 0 (by omega))] at hloop₂
    cases hloop₂
    rw [mapPagesFrom_short hready (honSyscall 0 (by omega))] at hloop₃
    cases hloop₃
    exact Or.inr ⟨hlen, rfl, hgains₁⟩

/-! ### The copied tables -/

/-- The kernel table leads to no other table. -/
def NoTables (k : PageTree 3) : Prop :=
  ∀ i < 512, pteIsPresent (k.branchAt i).1 = true → pteIsHuge (k.branchAt i).1 = true

/-- A copy of the kernel table: its user half is empty too, and it takes nothing exactly if there
is no table to copy. -/
theorem copyPagetable_account {k : PageTree 3} (hempty : UserHalfEmpty k)
    (h : copyPagetable k pages = some (t, rest)) :
    UserHalfEmpty t ∧ rest <:+ pages ∧ (rest = pages ↔ NoTables k) := by
  refine ⟨?_, copyPagetable_supply h, ?_⟩
  · cases k with
    | node e c =>
      unfold copyPagetable at h
      -- only present entries are copied
      obtain ⟨e', c', rfl, hsame⟩ := copyEntries_all
        (R := fun j entry _ => pteIsPresent (e j) = false → entry = e j)
        (fun i _ _ _ _ hp _ _ hnot => by rw [hp] at hnot; cases hnot) (fun j _ => rfl) h
      intro i hi
      have habsent : pteIsPresent (e i) = false := hempty i hi
      show pteIsPresent (e' i) = false
      rw [hsame i habsent]
      exact habsent
  · cases k with
    | node e c =>
      unfold copyPagetable at h
      rw [(copyEntries_supply (fun _ _ _ _ hcopy => copyPagetable_supply hcopy) h).2]
      constructor
      · intro hall i hi
        exact hall i (Nat.zero_le i) (by rw [Nat.zero_add]; exact hi)
      · intro hall i _ hi
        exact hall i (by rw [Nat.zero_add] at hi; exact hi)

/-! ### The account of a new address space -/

/-- The pages behind the supply of `vmm_user_pagetable_new`, in the order in which they are taken:
the root, the copied tables, the blocks of the stacks, and what is left for tables. -/
def newSupply (k : PageTree 3) : List UInt64 → List UInt64
  | [] => []
  | root :: pages =>
    match copyPagetable k pages with
    | some (_, userStack :: intStack :: syscallStack :: more) =>
      root :: (pages.take (pages.length - (more.length + 3)) ++
        (stackPages userStack intStack syscallStack ++ more))
    | _ => root :: pages

/-- The pages that `vmm_user_pagetable_new` took when it left `rest`. -/
def newTaken (k : PageTree 3) (pages rest : List UInt64) : List UInt64 :=
  (newSupply k pages).take ((newSupply k pages).length - rest.length)

theorem newTaken_subset {k : PageTree 3} {p : UInt64} (h : p ∈ newTaken k pages rest) :
    p ∈ newSupply k pages :=
  List.mem_of_mem_take h

/-- The pages that are lost: the copied tables, and the stacks when they cannot be mapped. -/
def lostPages (k : PageTree 3) : List UInt64 → List UInt64
  | [] => []
  | _ :: pages =>
    match copyPagetable k pages with
    | some (_, userStack :: intStack :: syscallStack :: more) =>
      pages.take (pages.length - (more.length + 3)) ++
        if 3 ≤ more.length then [] else stackPages userStack intStack syscallStack
    | _ => []

/-- Of the pages that were taken, some are in the user half, one is the root, and the others are
lost. -/
theorem vmmUserPagetableNew_account {k : PageTree 3} (hempty : UserHalfEmpty k)
    (hsupply : ∀ p ∈ newSupply k (root :: pages), PageOk physMaxEnd p)
    (h : vmmUserPagetableNew k (root :: pages) = .ok (some t, rest)) :
    Visible physMaxEnd t 0 ∧
      newTaken k (root :: pages) rest ~
        spaceItems t ++ [root] ++ lostPages k (root :: pages) := by
  obtain ⟨_, _, t₀, userStack, intStack, syscallStack, more, ⟨⟩, hcopy, hmap⟩ :=
    vmmUserPagetableNew_parts h
  obtain ⟨hempty₀, -, -⟩ := copyPagetable_account hempty hcopy
  rw [newTaken]
  simp only [newSupply, lostPages, hcopy] at hsupply ⊢
  generalize hcopied : pages.take (pages.length - (more.length + 3)) = copied at hsupply ⊢
  have hstacks : ∀ p ∈ stackPages userStack intStack syscallStack, PageOk physMaxEnd p :=
    fun p hp => hsupply p (by simp [hp])
  have hmore : ∀ p ∈ more, PageOk physMaxEnd p := fun p hp => hsupply p (by simp [hp])
  have hitems₀ := spaceItems_of_empty hempty₀
  have hvisible₀ := visible_of_empty hempty₀ physMaxEnd
  have hnil : ∀ l : List UInt64, spaceItems t₀ ++ l = l := fun l => by
    rw [hitems₀, List.nil_append]
  rcases mapUserStacks_account hempty₀ hstacks hmore hmap with
    ⟨hlen, hrest, hgains⟩ | ⟨hlen, hrest, hgains⟩
  · refine ⟨hgains.visible hvisible₀, ?_⟩
    have hitems := hgains.items
    rw [hnil] at hitems
    have hsplit : root :: (copied ++ (stackPages userStack intStack syscallStack ++ more)) =
        (root :: (copied ++ (stackPages userStack intStack syscallStack ++ more.take 3))) ++
          rest := by
      rw [hrest, List.cons_append, List.append_assoc, List.append_assoc, List.take_append_drop]
    rw [if_pos hlen, List.append_nil, hsplit, List.length_append, Nat.add_sub_cancel,
      List.take_left']
    · rw [List.perm_iff_count] at hitems ⊢
      intro p
      have hcount := hitems p
      simp only [List.count_append, List.count_cons] at hcount ⊢
      simp only [List.count_nil]
      omega
    · rfl
  · refine ⟨hgains.visible hvisible₀, ?_⟩
    have hitems := hgains.items
    rw [hnil] at hitems
    rw [if_neg (by omega), hrest, List.length_nil, Nat.sub_zero, List.take_length]
    rw [List.perm_iff_count] at hitems ⊢
    intro p
    have hcount := hitems p
    simp only [List.count_append, List.count_cons, List.count_nil] at hcount ⊢
    omega

/-- No page is lost exactly if there is no table to copy, and the memory is enough for the root,
the three blocks and the three tables of the stacks. -/
theorem lostPages_eq_nil_iff {k : PageTree 3} (hempty : UserHalfEmpty k)
    (h : vmmUserPagetableNew k (root :: pages) = .ok (some t, rest)) :
    lostPages k (root :: pages) = [] ↔ NoTables k ∧ 7 ≤ (root :: pages).length := by
  obtain ⟨_, _, t₀, userStack, intStack, syscallStack, more, ⟨⟩, hcopy, -⟩ :=
    vmmUserPagetableNew_parts h
  obtain ⟨-, hsuffix, hiff⟩ := copyPagetable_account hempty hcopy
  have hlen := hsuffix.length_le
  simp only [List.length_cons] at hlen
  have hstacks : stackPages userStack intStack syscallStack ≠ [] := by
    have hsize : (USER_STACK_SIZE / PAGE_SIZE.toUInt64).toNat = 7 + 1 := by decide
    rw [stackPages, hsize, blockPages, List.range_succ]
    simp
  simp only [lostPages, hcopy, List.append_eq_nil_iff, ite_eq_left_iff, hstacks, imp_false,
    not_not, List.take_eq_nil_iff, List.length_cons]
  rw [← hiff]
  constructor
  · rintro ⟨hcopied, hmore⟩
    have hall : userStack :: intStack :: syscallStack :: more = pages := by
      refine hsuffix.eq_of_length ?_
      simp only [List.length_cons]
      rcases hcopied with hcopied | hcopied
      · omega
      · rw [hcopied, List.length_nil] at hlen
        omega
    have hlength := congrArg List.length hall
    simp only [List.length_cons] at hlength
    exact ⟨hall, by omega⟩
  · rintro ⟨hall, hlength⟩
    have hsame := congrArg List.length hall
    simp only [List.length_cons] at hsame
    exact ⟨Or.inl (by omega), by omega⟩

end DzOS.Proofs.Mem.SpaceCreation
