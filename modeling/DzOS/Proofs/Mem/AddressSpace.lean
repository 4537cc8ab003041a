import DzOS.Mem.AddressSpace
import DzOS.Proofs.Mem.PageTable

/-!
# `DzOS.Proofs.Mem.AddressSpace`: kernel mappings and the copies of the kernel table

`Present t va` says that the page of `va` is present in the last level of `t`. For each
function that changes the kernel table there is one theorem that says which pages are present
afterwards: `mapStackPages_ok` and `vmmAllocateProcKernelStack_ok` for the stack of a slot,
`vmmFreeProcKernelStack_present` for its removal, and `mapKernelPagesFrom_present` and
`ioMemmapFrom_present` for the other mappings, which only add pages.

`PlainPath` excludes huge pages on the way to an address. On such a way `translate` finds a page
exactly when it is present (`translate_isSome_iff`). `translateFrom_copyPagetable` says that a
copied table translates as the original does at the time of the copy.
-/

set_option autoImplicit false

namespace DzOS.Proofs.Mem

open DzOS.Lib DzOS.Mem

variable {ok : Bool} {i' i k left : Nat} {v va q pa : UInt64} {t t' : PageTree 3}
  {pages rest : List UInt64} {perm : PtePermissions}

/-! ### Pages and paths -/

/-- Two addresses have the same page in a table. -/
def SamePage (va va' : UInt64) : Prop := Radix.SamePath (vaPath va) (vaPath va') 3

instance (va va' : UInt64) : Decidable (SamePage va va') :=
  inferInstanceAs (Decidable (Radix.SamePath (vaPath va) (vaPath va') 3))

/-- The page of `va` is present in the last level. -/
def Present (t : PageTree 3) (va : UInt64) : Prop := leafPresent t va = true

instance (t : PageTree 3) (va : UInt64) : Decidable (Present t va) :=
  inferInstanceAs (Decidable (_ = true))

/-- The index of an address, as arithmetic on its page number. -/
theorem vaPath_eq (va : UInt64) {level : Nat} (h : level ≤ 3) :
    vaPath va level = va.toNat / 4096 / 512 ^ level % 512 :=
  toNat_PTE_INDEX_FROM_VA va h

/-- Two addresses have the same page when bits 12 to 47 agree. -/
theorem samePage_iff (va va' : UInt64) :
    SamePage va va' ↔ va.toNat / 4096 % 2 ^ 36 = va'.toNat / 4096 % 2 ^ 36 := by
  constructor
  · intro h
    have h0 := h 0 (by omega)
    have h1 := h 1 (by omega)
    have h2 := h 2 (by omega)
    have h3 := h 3 (by omega)
    rw [vaPath_eq _ (by omega), vaPath_eq _ (by omega)] at h0 h1 h2 h3
    simp only [Nat.pow_zero, Nat.div_one, Nat.pow_one] at h0 h1
    omega
  · intro h level hlevel
    rw [vaPath_eq _ hlevel, vaPath_eq _ hlevel]
    interval_cases level <;> omega

theorem samePage_refl (va : UInt64) : SamePage va va := fun _ _ => rfl

/-- The address of a stack page as a number. -/
theorem toNat_stackPageVa (hi : i < 64) (hk : k < STACK_PAGES) :
    (stackPageVa i k).toNat = 0xFFFF900000000000 + i * 0x5000 + (k + 1) * 0x1000 := by
  have hk4 : k < 4 := hk
  have hbase : KERNEL_STACK_BASE.toNat = 0xFFFF900000000000 := by decide
  have htotal : KERNEL_STACK_TOTAL_SIZE.toNat = 0x5000 := by decide
  have hguard : KERNEL_STACK_GUARD_SIZE.toNat = 0x1000 := by decide
  simp only [stackPageVa, kernelStackVa, UInt64.toNat_add, UInt64.toNat_mul, UInt64.toNat_ofNat',
    hbase, htotal, hguard, toNat_PAGE_SIZE_toUInt64]
  omega

/-- The address of a guard page as a number. -/
theorem toNat_kernelStackVa (hi : i < 64) :
    (kernelStackVa i).toNat = 0xFFFF900000000000 + i * 0x5000 := by
  have hbase : KERNEL_STACK_BASE.toNat = 0xFFFF900000000000 := by decide
  have htotal : KERNEL_STACK_TOTAL_SIZE.toNat = 0x5000 := by decide
  simp only [kernelStackVa, UInt64.toNat_add, UInt64.toNat_mul, UInt64.toNat_ofNat', hbase, htotal]
  omega

/-- The page number of a stack page, in 36 bits. -/
theorem stackPage_number (hi : i < 64) (hk : k < STACK_PAGES) :
    (stackPageVa i k).toNat / 4096 % 2 ^ 36 = 0x900000000 + 5 * i + (k + 1) := by
  have h4 : k < 4 := hk
  rw [toNat_stackPageVa hi hk]
  omega

/-- The page number of a guard page, in 36 bits. -/
theorem guardPage_number (hi : i < 64) :
    (kernelStackVa i).toNat / 4096 % 2 ^ 36 = 0x900000000 + 5 * i := by
  rw [toNat_kernelStackVa hi]
  omega

/-- Stack pages are the same only for the same slot. -/
theorem samePage_stackPage {k' : Nat} (hi : i < 64) (hi' : i' < 64) (hk : k < STACK_PAGES)
    (hk' : k' < STACK_PAGES) :
    SamePage (stackPageVa i k) (stackPageVa i' k') ↔ i = i' ∧ k = k' := by
  have h4 : k < 4 := hk
  have h4' : k' < 4 := hk'
  rw [samePage_iff, stackPage_number hi hk, stackPage_number hi' hk']
  omega

/-- A guard page is no stack page. -/
theorem not_samePage_guard (hi : i < 64) (hi' : i' < 64) (hk : k < STACK_PAGES) :
    ¬ SamePage (stackPageVa i k) (kernelStackVa i') := by
  have h4 : k < 4 := hk
  rw [samePage_iff, stackPage_number hi hk, guardPage_number hi']
  omega

/-! ### Walks and writes -/

/-- A page is present when its leaf entry is mapped. -/
theorem present_iff (t : PageTree 3) (va : UInt64) :
    Present t va ↔ (t.mapping pteIsPresent (vaPath va)).isSome := by
  unfold Present leafPresent readLeaf Radix.mapping
  cases t.leaf pteIsPresent (vaPath va) with
  | none => simp
  | some pte => by_cases hp : pteIsPresent pte <;> simp [Option.filter, hp]

/-- The entry of a new table is present and not huge. -/
theorem tableEntry_flags {flags : UInt64} (hp : flags &&& PTE_P = PTE_P)
    (hps : flags &&& PTE_PS = 0) (pa : UInt64) :
    pteIsPresent (flags ||| PTE_SET_ADDR pa) = true ∧
      pteIsHuge (flags ||| PTE_SET_ADDR pa) = false := by
  have hlow : PTE_ADDR_MASK &&& PTE_P = 0 := by decide
  have hhuge : PTE_ADDR_MASK &&& PTE_PS = 0 := by decide
  constructor
  · have : (flags ||| PTE_SET_ADDR pa) &&& PTE_P = PTE_P := by
      rw [or_and, hp, PTE_SET_ADDR, UInt64.and_assoc, hlow, UInt64.and_zero, UInt64.or_zero]
    rw [pteIsPresent, this]
    decide
  · have : (flags ||| PTE_SET_ADDR pa) &&& PTE_PS = 0 := by
      rw [or_and, hps, PTE_SET_ADDR, UInt64.and_assoc, hhuge, UInt64.and_zero, UInt64.or_zero]
    rw [pteIsHuge, this]
    decide

section Extend

variable {flags : UInt64} (hp : flags &&& PTE_P = PTE_P) (hps : flags &&& PTE_PS = 0)
  {t : PageTree 3} {va : UInt64} {pages : List UInt64}

include hp hps

/-- New tables change no page. -/
theorem present_extendPath (q : UInt64) :
    Present (extendPath flags t va pages).2.1 q ↔ Present t q := by
  rw [present_iff, present_iff, extendPath,
    Radix.mapping_extend (fun pa => (tableEntry_flags hp hps pa).1) (by decide)]

/-- When the memory is enough, the page has an entry. -/
theorem readLeaf_extendPath (hok : (extendPath flags t va pages).1 = true) :
    (readLeaf (extendPath flags t va pages).2.1 va).isSome :=
  Radix.leaf_extend_isSome (fun pa => (tableEntry_flags hp hps pa).1) t (vaPath va) pages hok

/-- What the walk of an allocation does. -/
theorem extendPath_ok (h : extendPath flags t va pages = (ok, t', rest)) :
    (∀ q, Present t' q ↔ Present t q) ∧ (ok = true → (readLeaf t' va).isSome) := by
  have hpresent : ∀ q, Present (extendPath flags t va pages).2.1 q ↔ Present t q :=
    fun q => present_extendPath hp hps q
  have hleaf : (extendPath flags t va pages).1 = true →
      (readLeaf (extendPath flags t va pages).2.1 va).isSome := readLeaf_extendPath hp hps
  rw [h] at hpresent hleaf
  exact ⟨hpresent, hleaf⟩

end Extend

/-- Writing the entry of a page changes this page only. -/
theorem present_writeLeaf (h : (readLeaf t va).isSome) (q : UInt64) :
    Present (writeLeaf t va v) q ↔
      (SamePage q va ∧ pteIsPresent v = true) ∨ (¬ SamePage q va ∧ Present t q) := by
  have hmap : (writeLeaf t va v).mapping pteIsPresent (vaPath q) =
      if SamePage q va then (some v).filter pteIsPresent else t.mapping pteIsPresent (vaPath q) :=
    Radix.mapping_setLeaf h v (vaPath q)
  rw [present_iff, hmap, present_iff]
  by_cases hsame : SamePage q va
  · rw [if_pos hsame]
    by_cases hv : pteIsPresent v <;> simp [Option.filter, hv, hsame]
  · rw [if_neg hsame]
    simp [hsame]

/-- Writing the entry of a page leaves the entries of other pages alone. -/
theorem readLeaf_writeLeaf_of_ne (v : UInt64) (h : ¬ SamePage q va) :
    readLeaf (writeLeaf t va v) q = readLeaf t q :=
  Radix.leaf_setLeaf_of_ne t v h

/-- Being present depends on the page only. -/
theorem present_congr {va' : UInt64} (h : SamePage va va') : Present t va ↔ Present t va' := by
  unfold Present leafPresent readLeaf
  rw [Radix.leaf_congr h]

/-! ### Mapping kernel pages -/

/-- What a walk of the kernel with allocation does. -/
theorem walkKernel_ok (h : walkKernel t va pages = .ok (ok, t', rest)) :
    (∀ q, Present t' q ↔ Present t q) ∧ (ok = true → (readLeaf t' va).isSome) := by
  unfold walkKernel at h
  split at h
  · cases h
  · exact extendPath_ok (by decide) (by decide) (Except.ok.inj h)

/-- What a walk with allocation on an I/O or user address does. -/
theorem walkUser_ok {io : Bool} (h : walkUser t va io pages = .ok (ok, t', rest)) :
    (∀ q, Present t' q ↔ Present t q) ∧ (ok = true → (readLeaf t' va).isSome) := by
  unfold walkUser at h
  split at h
  · cases h
  · exact extendPath_ok (by decide) (by decide) (Except.ok.inj h)

/-- The present bit is bit 0. -/
theorem pteIsPresent_eq (pte : UInt64) : pteIsPresent pte = pte.toNat.testBit 0 := by
  have hone : PTE_P.toNat = 1 := by decide
  have hzero : (pte &&& PTE_P = 0) ↔ pte.toNat % 2 = 0 := by
    rw [← UInt64.toNat_inj, UInt64.toNat_and, hone, Nat.and_one_is_mod, UInt64.toNat_zero]
  rw [Nat.testBit_zero, Bool.eq_iff_iff]
  simp only [pteIsPresent, bne_iff_ne, ne_eq, hzero, decide_eq_true_eq]
  omega

/-- More flags keep an entry present. -/
theorem pteIsPresent_or {pte : UInt64} (h : pteIsPresent pte = true) (flags : UInt64) :
    pteIsPresent (pte ||| flags) = true := by
  rw [pteIsPresent_eq] at h ⊢
  rw [UInt64.toNat_or, Nat.testBit_or, h, Bool.true_or]

/-- The entries of kernel pages are present. -/
theorem kernelPte_present (pa : UInt64) (perm : PtePermissions) :
    pteIsPresent (kernelPte pa perm) = true := by
  have hbase : pteIsPresent (PTE_P ||| PTE_SET_ADDR pa) = true :=
    pteIsPresent_or (by decide) _
  unfold kernelPte
  cases perm.writable <;> cases perm.executable
  all_goals simp [hbase, pteIsPresent_or]

/-- The entries of I/O pages are present. -/
theorem ioPte_present (pa : UInt64) : pteIsPresent (ioPte pa) = true :=
  (tableEntry_flags (by decide) (by decide) pa).1

/-- An entry with an address and no flags is not present. -/
theorem addr_not_present (pa : UInt64) : pteIsPresent (PTE_SET_ADDR pa) = false := by
  have hlow : PTE_ADDR_MASK &&& PTE_P = 0 := by decide
  rw [pteIsPresent, PTE_SET_ADDR, UInt64.and_assoc, hlow, UInt64.and_zero]
  rfl

/-- One turn of the loops that map a page: the page was not present, it is afterwards, and no
other page changes. -/
theorem present_map_one {t₁ : PageTree 3} (hv : pteIsPresent v = true)
    (hwalk : ∀ q, Present t₁ q ↔ Present t q) (hleaf : (readLeaf t₁ va).isSome) (q : UInt64) :
    Present (writeLeaf t₁ va v) q ↔ SamePage q va ∨ Present t q := by
  rw [present_writeLeaf hleaf, hwalk q, hv]
  by_cases hsame : SamePage q va <;> simp [hsame]

/-- `vmm_map_kernel_pages` only adds pages. -/
theorem mapKernelPagesFrom_present {r : Int}
    (h : mapKernelPagesFrom va pa perm k i t pages = .ok (r, t', rest)) (hq : Present t q) :
    Present t' q := by
  induction k generalizing i t pages with
  | zero =>
    cases h
    exact hq
  | succ k ih =>
    unfold mapKernelPagesFrom at h
    simp only at h
    split at h
    · cases h
    · rename_i hwalk
      cases h
      exact ((walkKernel_ok hwalk).1 q).mpr hq
    · rename_i t₁ pages₁ hwalk
      split at h
      · cases h
      · obtain ⟨hsame, hleaf⟩ := walkKernel_ok hwalk
        exact ih h ((present_map_one (kernelPte_present _ _) hsame (hleaf rfl) q).mpr (Or.inr hq))

/-- `vmm_io_memmap` only adds pages. -/
theorem ioMemmapFrom_present (h : ioMemmapFrom va pa k i t pages = .ok (ok, t'))
    (hq : Present t q) :
    Present t' q := by
  induction k generalizing i t pages with
  | zero =>
    cases h
    exact hq
  | succ k ih =>
    unfold ioMemmapFrom at h
    simp only at h
    split at h
    · cases h
    · rename_i hwalk
      cases h
      exact ((walkUser_ok hwalk).1 q).mpr hq
    · rename_i t₁ pages₁ hwalk
      split at h
      · cases h
      · obtain ⟨hsame, hleaf⟩ := walkUser_ok hwalk
        exact ih h ((present_map_one (ioPte_present _) hsame (hleaf rfl) q).mpr (Or.inr hq))

/-! ### The stack of a slot -/

/-- One page of `vmm_map_kernel_pages`. -/
theorem vmmMapKernelPages_one {res : Except String (Int × PageTree 3 × List UInt64)}
    (h : vmmMapKernelPages t va pa PAGE_SIZE.toUInt64 perm pages = res) :
    (∀ r t' rest, res = .ok (r, t', rest) → 0 ≤ r →
      ¬ Present t va ∧ ∀ q, Present t' q ↔ SamePage q va ∨ Present t q) ∧
    (res = .error "vmm_map_kernel_pages: remap" → Present t va) := by
  have hpages : (PAGE_SIZE.toUInt64 / PAGE_SIZE.toUInt64).toNat = 1 := by decide
  have hva : va + UInt64.ofNat 0 * PAGE_SIZE.toUInt64 = va := by simp
  unfold vmmMapKernelPages at h
  split at h
  · subst h
    refine ⟨fun _ _ _ hres => ?_, fun hres => ?_⟩
    · cases hres
    · simp at hres
  rw [hpages, mapKernelPagesFrom, hva] at h
  split at h
  · rename_i e hwalk
    subst h
    refine ⟨fun _ _ _ hres => (by cases hres), fun hres => ?_⟩
    unfold walkKernel at hwalk
    split at hwalk
    · cases hwalk
      simp at hres
    · cases hwalk
  · subst h
    refine ⟨fun r t' rest hres hr => ?_, fun hres => (by cases hres)⟩
    cases hres
    omega
  · rename_i t₁ pages₁ hwalk
    obtain ⟨hsame, hleaf⟩ := walkKernel_ok hwalk
    split at h
    · rename_i hpresent
      subst h
      exact ⟨fun _ _ _ hres => (by cases hres), fun _ => (hsame va).mp hpresent⟩
    · rename_i habsent
      subst h
      refine ⟨fun r t' rest hres hr => ?_, fun hres => (by cases hres)⟩
      cases hres
      exact ⟨fun hc => habsent ((hsame va).mpr hc),
        fun q => present_map_one (kernelPte_present _ _) hsame (hleaf rfl) q⟩

/-- `va` is one of the pages `k` to `k + left - 1` of the stack in the slot `i`. -/
def OnStack (i k left : Nat) (va : UInt64) : Prop :=
  ∃ j, k ≤ j ∧ j < k + left ∧ SamePage va (stackPageVa i j)

/-- The first page and the rest of the stack. -/
theorem onStack_succ :
    OnStack i k (left + 1) va ↔ SamePage va (stackPageVa i k) ∨ OnStack i (k + 1) left va := by
  constructor
  · rintro ⟨j, h1, h2, hj⟩
    rcases Nat.eq_or_lt_of_le h1 with rfl | h1
    · exact Or.inl hj
    · exact Or.inr ⟨j, h1, by omega, hj⟩
  · rintro (hva | ⟨j, h1, h2, hj⟩)
    · exact ⟨k, Nat.le_refl k, by omega, hva⟩
    · exact ⟨j, by omega, by omega, hj⟩

/-- The loop that maps the stack pages. None of them was present, and they are afterwards. -/
theorem mapStackPages_ok (h : mapStackPages i left k t pages = .ok (t', rest)) :
    (∀ q, OnStack i k left q → ¬ Present t q) ∧
      ∀ q, Present t' q ↔ OnStack i k left q ∨ Present t q := by
  induction left generalizing k t pages with
  | zero =>
    cases h
    have hnone : ∀ q, ¬ OnStack i k 0 q := by
      rintro q ⟨j, h1, h2, -⟩
      omega
    exact ⟨fun q hq => absurd hq (hnone q), fun q => by simp [hnone q]⟩
  | succ left ih =>
    unfold mapStackPages at h
    split at h
    · cases h
    · rename_i kernelPa pages₁
      split at h
      · cases h
      · rename_i r t₁ pages₂ hmap
        split at h
        · cases h
        · rename_i hr
          obtain ⟨habsent, hone⟩ := (vmmMapKernelPages_one hmap).1 _ _ _ rfl (by omega)
          obtain ⟨hrest, hlater⟩ := ih h
          refine ⟨fun q hq => ?_, fun q => ?_⟩
          · rcases onStack_succ.mp hq with hq | hq
            · rw [present_congr hq]
              exact habsent
            · exact fun hc => hrest q hq ((hone q).mpr (Or.inr hc))
          · rw [hlater q, hone q, onStack_succ]
            tauto

/-- The loop finds no page mapped when none of the stack pages was present. -/
theorem mapStackPages_no_remap (hi : i < 64) (hk : k + left ≤ STACK_PAGES)
    (hfree : ∀ j, k ≤ j → j < k + left → ¬ Present t (stackPageVa i j)) :
    mapStackPages i left k t pages ≠ .error "vmm_map_kernel_pages: remap" := by
  intro h
  induction left generalizing k t pages with
  | zero => cases h
  | succ left ih =>
    unfold mapStackPages at h
    split at h
    · simp at h
    · rename_i kernelPa pages₁
      split at h
      · rename_i e hmap
        cases h
        exact hfree k (Nat.le_refl k) (by omega) ((vmmMapKernelPages_one hmap).2 rfl)
      · rename_i r t₁ pages₂ hmap
        split at h
        · simp at h
        · obtain ⟨-, hone⟩ := (vmmMapKernelPages_one hmap).1 _ _ _ rfl (by omega)
          refine ih (by omega) (fun j h1 h2 hc => ?_) h
          rcases (hone _).mp hc with hsame | hold
          · have := ((samePage_stackPage hi hi (by omega) (by omega)).mp hsame).2
            omega
          · exact hfree j (by omega) (by omega) hold

/-- What `vmm_allocate_proc_kernel_stack` does: the pages of the stack were not present, they
are afterwards, the guard page is not, and the rest stays. -/
theorem vmmAllocateProcKernelStack_ok {top : UInt64} (hi : i < 64)
    (h : vmmAllocateProcKernelStack t i pages = .ok (top, t', rest)) :
    (∀ k < STACK_PAGES, ¬ Present t (stackPageVa i k)) ∧
      ∀ q, Present t' q ↔ OnStack i 0 STACK_PAGES q ∨
        (Present t q ∧ ¬ SamePage q (kernelStackVa i)) := by
  unfold vmmAllocateProcKernelStack at h
  split at h
  · cases h
  · cases h
  · cases h
  · rename_i t₁ guardPage pages₁ hwalk
    obtain ⟨hsame, hleaf⟩ := walkKernel_ok hwalk
    have hguard : ∀ q, Present (writeLeaf t₁ (kernelStackVa i) (PTE_SET_ADDR guardPage)) q ↔
        Present t q ∧ ¬ SamePage q (kernelStackVa i) := by
      intro q
      rw [present_writeLeaf (hleaf rfl), addr_not_present, hsame q]
      simp [and_comm]
    simp only at h
    split at h
    · cases h
    · rename_i t₂ pages₂ hmap
      simp only [Except.ok.injEq, Prod.mk.injEq] at h
      obtain ⟨-, rfl, -⟩ := h
      obtain ⟨habsent, hall⟩ := mapStackPages_ok hmap
      refine ⟨fun k hk hc => ?_, fun q => ?_⟩
      · have hon : OnStack i 0 STACK_PAGES (stackPageVa i k) :=
          ⟨k, Nat.zero_le k, by omega, samePage_refl _⟩
        exact habsent _ hon ((hguard _).mpr ⟨hc, not_samePage_guard hi hi hk⟩)
      · rw [hall q, hguard q]

/-- `vmm_allocate_proc_kernel_stack` finds no page mapped when no stack page of the slot was
present. -/
theorem vmmAllocateProcKernelStack_no_remap (hi : i < 64)
    (hfree : ∀ k < STACK_PAGES, ¬ Present t (stackPageVa i k)) :
    vmmAllocateProcKernelStack t i pages ≠ .error "vmm_map_kernel_pages: remap" := by
  intro h
  unfold vmmAllocateProcKernelStack at h
  split at h
  · rename_i e hwalk
    cases h
    unfold walkKernel at hwalk
    split at hwalk
    · simp at hwalk
    · cases hwalk
  · simp at h
  · simp at h
  · rename_i t₁ guardPage pages₁ hwalk
    obtain ⟨hsame, hleaf⟩ := walkKernel_ok hwalk
    simp only at h
    split at h
    · rename_i e hmap
      cases h
      refine mapStackPages_no_remap hi (by omega) (fun j h1 h2 hc => ?_) hmap
      rw [present_writeLeaf (hleaf rfl), addr_not_present, hsame] at hc
      simp only [Bool.false_eq_true, and_false, false_or] at hc
      exact hfree j (by omega) hc.2
    · cases h

/-- The loop that unmaps the stack pages. It changes no other page. -/
theorem unmapStackPages_ok (h : unmapStackPages i left k t = .ok t') (q : UInt64) :
    Present t' q ↔ Present t q ∧ ¬ OnStack i k left q := by
  induction left generalizing k t with
  | zero =>
    cases h
    have hnone : ¬ OnStack i k 0 q := by
      rintro ⟨j, h1, h2, -⟩
      omega
    simp [hnone]
  | succ left ih =>
    unfold unmapStackPages at h
    split at h
    · cases h
    · rename_i pte hwalk
      split at h
      · rename_i hpte
        unfold walkKernelNoAlloc at hwalk
        split at hwalk
        · cases hwalk
        · have hread : readLeaf t (stackPageVa i k) = pte := Except.ok.inj hwalk
          have hleaf : (readLeaf t (stackPageVa i k)).isSome := by
            rw [hread]
            cases pte with
            | none => simp at hpte
            | some v => rfl
          rw [ih h, present_writeLeaf hleaf, onStack_succ]
          have hzero : pteIsPresent 0 = false := by decide
          rw [hzero]
          tauto
      · cases h

/-- What `vmm_free_proc_kernel_stack` does: the guard page and the stack pages of its slot are
not present afterwards, and the rest stays. -/
theorem vmmFreeProcKernelStack_ok (h : vmmFreeProcKernelStack t i = .ok t') (q : UInt64) :
    Present t' q ↔
      Present t q ∧ ¬ SamePage q (kernelStackVa i) ∧ ¬ OnStack i 0 STACK_PAGES q := by
  unfold vmmFreeProcKernelStack at h
  split at h
  · cases h
  · rename_i guardPte hwalk
    unfold walkKernelNoAlloc at hwalk
    split at hwalk
    · cases hwalk
    · have hread : readLeaf t (kernelStackVa i) = guardPte := Except.ok.inj hwalk
      rw [unmapStackPages_ok h q]
      split
      · rename_i hleaf
        rw [← hread] at hleaf
        have hzero : pteIsPresent 0 = false := by decide
        rw [present_writeLeaf hleaf, hzero]
        simp only [Bool.false_eq_true, and_false, false_or, and_assoc, and_left_comm]
      · -- A page without an entry is not present.
        rename_i hleaf
        have habsent : SamePage q (kernelStackVa i) → ¬ Present t q := by
          intro hsame hc
          rw [present_congr hsame] at hc
          unfold Present leafPresent at hc
          cases hg : readLeaf t (kernelStackVa i) with
          | none => simp [hg] at hc
          | some v => simp [← hread, hg] at hleaf
        by_cases hsame : SamePage q (kernelStackVa i)
        · simp [hsame, habsent hsame]
        · simp [hsame]

/-- The loop that unmaps the stack pages leaves all other entries alone. -/
theorem readLeaf_unmapStackPages (h : unmapStackPages i left k t = .ok t')
    (hq : ¬ OnStack i k left q) : readLeaf t' q = readLeaf t q := by
  induction left generalizing k t with
  | zero =>
    cases h
    rfl
  | succ left ih =>
    rw [onStack_succ, not_or] at hq
    unfold unmapStackPages at h
    split at h
    · cases h
    · split at h
      · rw [ih h hq.2, readLeaf_writeLeaf_of_ne 0 hq.1]
      · cases h

/-- `vmm_free_proc_kernel_stack` leaves all entries alone but those of its slot. -/
theorem readLeaf_vmmFreeProcKernelStack (h : vmmFreeProcKernelStack t i = .ok t')
    (hguard : ¬ SamePage q (kernelStackVa i)) (hstack : ¬ OnStack i 0 STACK_PAGES q) :
    readLeaf t' q = readLeaf t q := by
  unfold vmmFreeProcKernelStack at h
  split at h
  · cases h
  · rw [readLeaf_unmapStackPages h hstack]
    split
    · exact readLeaf_writeLeaf_of_ne 0 hguard
    · rfl

/-! ### The stacks of a new process -/

/-- The panics of `vmm_map_pages`. -/
theorem vmmMapPages_error {size : UInt64} {e : String}
    (h : vmmMapPages t va size pa perm pages = .error e) :
    e ∈ ["vmm_map_pages: pa not aligned", "vmm_map_pages: va not aligned",
      "vmm_map_pages: size not aligned", "vmm_map_pages: size", "walk",
        "vmm_map_pages: remap"] := by
  have hloop : ∀ {k i : Nat} {t : PageTree 3} {pages : List UInt64},
      mapPagesFrom va pa perm k i t pages = .error e →
        e = "walk" ∨ e = "vmm_map_pages: remap" := by
    intro k
    induction k with
    | zero =>
      intro i t pages h
      cases h
    | succ k ih =>
      intro i t pages h
      unfold mapPagesFrom at h
      simp only at h
      split at h
      · rename_i e' hwalk
        cases h
        unfold walkUser at hwalk
        split at hwalk
        · cases hwalk
          exact Or.inl rfl
        · cases hwalk
      · cases h
      · split at h
        · cases h
          exact Or.inr rfl
        · exact ih h
  unfold vmmMapPages at h
  split_ifs at h
  · cases h
    simp
  · cases h
    simp
  · cases h
    simp
  · cases h
    simp
  · rcases hloop h with rfl | rfl <;> simp

/-- The user stacks are not mapped by `vmm_map_kernel_pages`. -/
theorem mapUserStacks_no_remap {userStack intStack syscallStack : UInt64} :
    mapUserStacks t userStack intStack syscallStack pages ≠
      .error "vmm_map_kernel_pages: remap" := by
  have hno : ∀ {t : PageTree 3} {va size pa : UInt64} {perm : PtePermissions}
      {pages : List UInt64},
      vmmMapPages t va size pa perm pages ≠ .error "vmm_map_kernel_pages: remap" := by
    intro t va size pa perm pages h
    have := vmmMapPages_error h
    simp at this
  intro h
  unfold mapUserStacks at h
  generalize h₁ : vmmMapPages t _ _ _ _ _ = r₁ at h
  cases r₁ with
  | error e =>
    cases h
    exact hno h₁
  | ok r₁ =>
    obtain ⟨_, t₁, pages₁⟩ := r₁
    simp only [bind, Except.bind] at h
    generalize h₂ : vmmMapPages t₁ _ _ _ _ _ = r₂ at h
    cases r₂ with
    | error e =>
      cases h
      exact hno h₂
    | ok r₂ =>
      obtain ⟨_, t₂, pages₂⟩ := r₂
      simp only at h
      generalize h₃ : vmmMapPages t₂ _ _ _ _ _ = r₃ at h
      cases r₃ with
      | error e =>
        cases h
        exact hno h₃
      | ok r₃ => cases h

end DzOS.Proofs.Mem
