import DzOS.Proofs.Mem.Sbrk
import DzOS.Proofs.Mem.UserSpace

/-!
# `DzOS.Proofs.Mem.MapPages`: the law of `vmm_map_pages`

`mapPagesFrom_cases` is the rule for the loop. It maps the pages of its range one by one and stops
at a page that is mapped already, or when there is no memory for a table. When it comes to its end,
the pages of the range have their entries and all other mappings are as before (`MapsRange`).

`walkAddr_of_mapping` reads a mapping through `vmm_walkaddr`, and `mapPages_law` puts the two
together. `walk` follows every present entry of an inner table, also a huge one, so the law asks
for the tree property alone.
-/

set_option autoImplicit false

namespace DzOS.Proofs.Mem.MapPages

open DzOS.Lib DzOS.Mem DzOS.Proofs.Mem

/-- What the loop does: the pages from `first + i` on get the frames from `pa + i * 4096` on. They
were not mapped before, and every other mapping stays. -/
structure MapsRange (s s' : MemState) (root pa : UInt64) (perm : PtePermissions)
    (first i k : Nat) : Prop where
  ok : TablesOk s' root
  free : ∀ page, first + i ≤ page → page < first + (i + k) → mapping s.mem root page = none
  mapping : ∀ page < 2 ^ 34, mapping s'.mem root page =
    if first + i ≤ page ∧ page < first + (i + k) then
      some (buildPte (pa + UInt64.ofNat (page - first) * PAGE_SIZE.toUInt64) perm)
    else mapping s.mem root page

variable {s s' : MemState} {root va pa : UInt64} {perm : PtePermissions} {first i k : Nat}

theorem MapsRange.refl (hok : TablesOk s root) : MapsRange s s root pa perm first i 0 where
  ok := hok
  free page h1 h2 := by omega
  mapping page _ := by rw [if_neg (by omega)]

/-- Mapping one page and then the rest. -/
theorem MapsRange.cons {s₁ : MemState} (hbound : first + (i + 1 + k) ≤ 2 ^ 34)
    (h : MapsRange s s₁ root pa perm first i 1)
    (h' : MapsRange s₁ s' root pa perm first (i + 1) k) :
    MapsRange s s' root pa perm first i (k + 1) where
  ok := h'.ok
  free page h1 h2 := by
    by_cases hfirst : page = first + i
    · exact h.free page h1 (by omega)
    · have hmap := h.mapping page (by omega)
      rw [if_neg (by omega)] at hmap
      rw [← hmap]
      exact h'.free page (by omega) (by omega)
  mapping page hpage := by
    rw [h'.mapping page hpage, h.mapping page hpage]
    by_cases hlater : first + (i + 1) ≤ page ∧ page < first + (i + 1 + k)
    · rw [if_pos hlater, if_pos (by omega)]
    · rw [if_neg hlater]
      exact if_congr (by omega) rfl rfl

/-- The write of one entry. -/
theorem mapsRange_one {u : UInt64} (hgrow : Grows s s' root 3) (hpage : first + i < 2 ^ 34)
    (hu : tableAt s'.mem root (first + i) 3 = some u)
    (hfree : ¬ pteIsPresent (readPte s'.mem (u.toNat + 8 * pagePath (first + i) 3)) = true) :
    MapsRange s (writePte s' (u.toNat + 8 * pagePath (first + i) 3)
      (buildPte (pa + UInt64.ofNat i * PAGE_SIZE.toUInt64) perm)) root pa perm first i 1 where
  ok := tablesOk_writeLeaf _ hgrow.ok hpage hu
  free page h1 h2 := by
    have hsame : page = first + i := by omega
    rw [hsame, ← hgrow.mapping _ hpage, mapping_of_table hu, tableEntry]
    exact Option.filter_eq_none_iff.mpr fun pte hpte => by
      rw [← Option.some.inj hpte]
      exact hfree
  mapping page hp := by
    rw [mapping_writeLeaf _ hgrow.ok hpage hu hp, hgrow.mapping page hp]
    by_cases hsame : page = first + i
    · have hindex : page - first = i := by omega
      rw [if_pos hsame, if_pos (by omega), hindex]
      exact Option.filter_some_pos (buildPte_flags _ perm).1
    · rw [if_neg hsame, if_neg (by omega)]

/-- The three ways in which the loop ends. -/
theorem mapPagesFrom_cases (hok : TablesOk s root) (hva : va.toNat = first * 4096)
    (hlo : 1024 ≤ first) (hhi : first + (i + k) ≤ 2 ^ 34) :
    (MemState.mapPagesFrom root va pa perm k i s = .error "vmm_map_pages: remap" ∧
      ∃ page, first + i ≤ page ∧ page < first + (i + k) ∧ (mapping s.mem root page).isSome) ∨
    (∃ s', MemState.mapPagesFrom root va pa perm k i s = .ok (-1, s') ∧
      (stock s).length < 3 * k) ∨
    ∃ s', MemState.mapPagesFrom root va pa perm k i s = .ok (0, s') ∧
      MapsRange s s' root pa perm first i k := by
  induction k generalizing i s with
  | zero => exact Or.inr (Or.inr ⟨s, rfl, MapsRange.refl hok⟩)
  | succ k ih =>
    have hcurrent : (va + UInt64.ofNat i * PAGE_SIZE.toUInt64).toNat = (first + i) * 4096 := by
      rw [UInt64.toNat_add, UInt64.toNat_mul, toNat_PAGE_SIZE_toUInt64, UInt64.toNat_ofNat']
      omega
    have hpage : (va + UInt64.ofNat i * PAGE_SIZE.toUInt64).toNat / 4096 = first + i := by omega
    unfold MemState.mapPagesFrom
    dsimp only
    rw [walk_window s root _ true (by omega) (by omega)]
    rcases walkLevels_alloc (va + UInt64.ofNat i * PAGE_SIZE.toUInt64) hok (by omega)
      (Nat.le_refl 3) rfl with ⟨s₁, hwalk, -, hshort⟩ | ⟨s₁, u, hwalk, hgrow, hu⟩
    · refine Or.inr (Or.inl ⟨s₁, ?_, by omega⟩)
      rw [hwalk]
    · rw [hwalk]
      rw [hpage] at hu ⊢
      dsimp only
      by_cases hpresent :
          pteIsPresent (readPte s₁.mem (u.toNat + 8 * pagePath (first + i) 3)) = true
      · rw [if_pos hpresent]
        refine Or.inl ⟨rfl, first + i, by omega, by omega, ?_⟩
        rw [← hgrow.mapping _ (by omega), mapping_of_table hu, tableEntry,
          Option.filter_some_pos hpresent]
        rfl
      · rw [if_neg hpresent]
        have hone : MapsRange s _ root pa perm first i 1 :=
          mapsRange_one hgrow (by omega) hu hpresent
        have hleft := hgrow.stock
        generalize hs₂ : writePte s₁ _ _ = s₂ at hone ⊢
        have hstock : stock s₂ = stock s₁ := by
          rw [← hs₂]
          rfl
        rcases ih (i := i + 1) hone.ok (by omega) with
          ⟨herr, page, h1, h2, hmap⟩ | ⟨s', hrun, hshort⟩ |
          ⟨s', hrun, hrest⟩
        · refine Or.inl ⟨herr, page, by omega, by omega, ?_⟩
          rw [hone.mapping page (by omega), if_neg (by omega)] at hmap
          exact hmap
        · rw [hstock] at hshort
          exact Or.inr (Or.inl ⟨s', hrun, by omega⟩)
        · exact Or.inr (Or.inr ⟨s', hrun, hone.cons (by omega) hrest⟩)

/-! ### Addresses -/

/-- `vmm_walkaddr` finds the frame of a page that is mapped for its user, and 0 otherwise. -/
theorem vmmWalkaddr_eq_mapping (s : MemState) (root a : UInt64) (user : Bool)
    (hlo : 2 ^ 22 ≤ a.toNat) (hhi : a.toNat < 2 ^ 46) :
    vmmWalkaddr s root a user =
      .ok (((mapping s.mem root (a.toNat / 4096)).filter fun pte =>
        pteIsUser pte == user).elim 0 pteFollow) := by
  have hmax : ¬ a ≥ USERSPACE_VA_MAX := by
    rw [ge_iff_le, UInt64.le_iff_toNat_le, toNat_USERSPACE_VA_MAX]
    omega
  rw [vmmWalkaddr, if_neg hmax, walk_eq s root a hlo hhi]
  cases hslot : leafSlot s.mem root (a.toNat / 4096) with
  | none => simp [mapping, leafEntry, hslot]
  | some slot =>
    have hleaf : leafEntry s.mem root (a.toNat / 4096) = some (readPte s.mem slot) := by
      rw [leafEntry, hslot]
      rfl
    dsimp only
    generalize readPte s.mem slot = pte at hleaf ⊢
    rw [mapping, hleaf]
    cases hp : pteIsPresent pte <;> cases hu : pteIsUser pte == user <;>
      simp_all [Option.filter]

/-- The page `x / 4096` of the range gets its frame. -/
theorem MapsRange.walkaddr {n : ℕ} (h : MapsRange s s' root pa perm first 0 n)
    (hva : va.toNat = first * 4096) (hpa : pa.toNat % 4096 = 0) (hlo : 1024 ≤ first)
    (hhi : first + n ≤ 2 ^ 34) (hframe : pa.toNat + n * 4096 ≤ 2 ^ 52) {x : UInt64}
    (hx : x.toNat < n * 4096) :
    vmmWalkaddr s' root (va + x) perm.userspace = .ok (pa + x / 4096 * 4096) ∧
      vmmWalkaddr s' root (va + x) (!perm.userspace) = .ok 0 := by
  have hsum : (va + x).toNat = va.toNat + x.toNat := by
    rw [UInt64.toNat_add]
    omega
  have hdiv : (x / 4096).toNat = x.toNat / 4096 := UInt64.toNat_div x 4096
  have hindex : (va + x).toNat / 4096 - first = (x / 4096).toNat := by
    rw [hdiv]
    omega
  have hmap := h.mapping ((va + x).toNat / 4096) (by omega)
  rw [if_pos (by omega), hindex, UInt64.ofNat_toNat] at hmap
  have hpage : PAGE_SIZE.toUInt64 = 4096 := rfl
  rw [hpage] at hmap
  have hoffset : (x / 4096 * 4096).toNat = x.toNat / 4096 * 4096 := by
    rw [UInt64.toNat_mul, hdiv]
    show x.toNat / 4096 * 4096 % 2 ^ 64 = _
    omega
  have hfollow : pteFollow (buildPte (pa + x / 4096 * 4096) perm) = pa + x / 4096 * 4096 := by
    have htotal : (pa + x / 4096 * 4096).toNat = pa.toNat + x.toNat / 4096 * 4096 := by
      rw [UInt64.toNat_add, hoffset]
      omega
    exact pteFollow_buildPte perm (by omega) (by omega)
  obtain ⟨-, huser, -⟩ := buildPte_flags (pa + x / 4096 * 4096) perm
  constructor
  · rw [vmmWalkaddr_eq_mapping s' root _ _ (by omega) (by omega), hmap,
      Option.filter_some_pos (by rw [huser, beq_self_eq_true])]
    exact congrArg Except.ok hfollow
  · rw [vmmWalkaddr_eq_mapping s' root _ _ (by omega) (by omega), hmap,
      Option.filter_some_neg (by rw [huser]; cases perm.userspace <;> decide)]
    rfl

/-- Addresses outside of the range keep their frame. -/
theorem MapsRange.walkaddr_outside {n : ℕ} (h : MapsRange s s' root pa perm first 0 n)
    {a : UInt64} (hlo : 2 ^ 22 ≤ a.toNat) (hhi : a.toNat < 2 ^ 46)
    (hout : a.toNat < first * 4096 ∨ (first + n) * 4096 ≤ a.toNat) (user : Bool) :
    vmmWalkaddr s' root a user = vmmWalkaddr s root a user := by
  rw [vmmWalkaddr_eq_mapping s' root a user hlo hhi, vmmWalkaddr_eq_mapping s root a user hlo hhi,
    h.mapping _ (by omega), if_neg (by omega)]

/-- When `vmm_map_pages` returns 0, every address of the range has its frame, for the one kind of
access that the permissions name, every other address of the user window has the frame that it had,
and the tables are in order. -/
theorem mapPages_law {size : UInt64} (hok : TablesOk s root) (hlo : USERSPACE_VA_MIN ≤ va)
    (hhi : va.toNat + size.toNat ≤ USERSPACE_VA_MAX.toNat) (hpa : pa.toNat + size.toNat ≤ 2 ^ 52)
    (h : s.vmmMapPages root va size pa perm = .ok (0, s')) :
    (∀ x < size, vmmWalkaddr s' root (va + x) perm.userspace = .ok (pa + x / 4096 * 4096) ∧
        vmmWalkaddr s' root (va + x) (!perm.userspace) = .ok 0) ∧
      (∀ a user, USERSPACE_VA_MIN ≤ a → a < USERSPACE_VA_MAX →
        a < va ∨ va.toNat + size.toNat ≤ a.toNat →
        vmmWalkaddr s' root a user = vmmWalkaddr s root a user) ∧
      TablesOk s' root := by
  simp only [UInt64.le_iff_toNat_le, UInt64.lt_iff_toNat_lt, toNat_USERSPACE_VA_MIN,
    toNat_USERSPACE_VA_MAX] at hlo hhi ⊢
  have haligned : ∀ a : UInt64, ¬ a % PAGE_SIZE.toUInt64 ≠ 0 → a.toNat % 4096 = 0 := by
    intro a ha
    have hmod := congrArg UInt64.toNat (not_not.mp ha)
    rw [UInt64.toNat_mod] at hmod
    exact hmod
  unfold MemState.vmmMapPages at h
  split_ifs at h with hpaMod hvaMod hsizeMod hzero
  have hpa' := haligned pa hpaMod
  have hva' := haligned va hvaMod
  have hsize' := haligned size hsizeMod
  have hcount : (size / PAGE_SIZE.toUInt64).toNat = size.toNat / 4096 := UInt64.toNat_div _ _
  rw [hcount] at h
  have hfirst : va.toNat = va.toNat / 4096 * 4096 := by omega
  -- the loop came to its end
  have hmaps : MapsRange s s' root pa perm (va.toNat / 4096) 0 (size.toNat / 4096) := by
    rcases mapPagesFrom_cases (i := 0) (k := size.toNat / 4096) hok hfirst (by omega)
      (by omega) with ⟨herr, -⟩ | ⟨t, hrun, -⟩ | ⟨t, hrun, hmaps⟩
    · rw [herr] at h
      cases h
    · rw [hrun] at h
      cases h
    · rw [hrun] at h
      cases h
      exact hmaps
  refine ⟨fun x hx => ?_, fun a user halo hahi hout => ?_, hmaps.ok⟩
  · exact hmaps.walkaddr hfirst hpa' (by omega) (by omega) (by omega) (by omega)
  · exact hmaps.walkaddr_outside halo hahi (by omega) user

/-- Two pages of the device memory at `0xFD000000`, at the lowest user address. -/
theorem mapPages_law_twoPages :
    ∃ s', smallMachine.vmmMapPages 0x1000 0x400000 0x2000 0xFD000000 heapPermissions =
        .ok (0, s') ∧
      (∀ x < (0x2000 : UInt64),
        vmmWalkaddr s' 0x1000 (0x400000 + x) true = .ok (0xFD000000 + x / 4096 * 4096)) := by
  have hok := heapStart_smallMachine.tables
  have hrun : smallMachine.vmmMapPages 0x1000 0x400000 0x2000 0xFD000000 heapPermissions =
      MemState.mapPagesFrom 0x1000 0x400000 0xFD000000 heapPermissions 2 0 smallMachine := by
    rw [MemState.vmmMapPages, if_neg (by decide), if_neg (by decide), if_neg (by decide),
      if_neg (by decide)]
    rfl
  have hlowest : (0x400000 : UInt64).toNat = 1024 * 4096 := by decide
  rcases @mapPagesFrom_cases smallMachine 0x1000 0x400000 0xFD000000 heapPermissions 1024 0 2 hok
    hlowest (by omega) (by omega) with ⟨-, page, h1, h2, hmap⟩ | ⟨t, -, hshort⟩ | ⟨t, hloop, -⟩
  · rw [heapStart_smallMachine.unmapped page (by omega) (by omega)] at hmap
    cases hmap
  · rw [stock_smallMachine] at hshort
    exact absurd hshort (by decide)
  · rw [← hrun] at hloop
    have hlaw := mapPages_law hok (by decide) (by decide) (by decide) hloop
    exact ⟨t, hloop, fun x hx => (hlaw.1 x hx).1⟩

end DzOS.Proofs.Mem.MapPages
