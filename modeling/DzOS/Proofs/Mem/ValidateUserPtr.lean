import DzOS.Proofs.Mem.PageTable

/-!
# `DzOS.Proofs.Mem.ValidateUserPtr`: when the pointer check is exact

`ValidRange` says what `vmm_validate_user_ptr` is for: the range is in the user window and
every page that overlaps it is mapped with the access that is asked for. `ValidatesExactly`
says that the function returns that answer.

The page mask of `PAGE_ROUND_DOWN` and `PAGE_ROUND_UP` has 32 bits. The loop therefore looks
at the pages from `checkedFirst` to `checkedEnd`, which are the pages of the range modulo
4 GiB. `validateUserPtr_exact_iff` says when that makes no difference: for all page tables
exactly when the range is outside the window or ends in the first 4 GiB less a page, and for
one page table when, besides, the pages looked at happen to give the right answer.
-/

set_option autoImplicit false

namespace DzOS.Proofs.Mem

open DzOS.Lib DzOS.Mem

variable {len ptr : UInt64}

/-! ### The specification -/

/-- User code may access the page: its leaf entry is present, has `PTE_U`, and has `PTE_W`
when `writable`. -/
def UsablePage (mem : Bytes) (root : UInt64) (writable : Bool) (page : Nat) : Prop :=
  ∃ pte, leafEntry mem root page = some pte ∧ pteIsPresent pte ∧ pteIsUser pte ∧
    (writable → pteIsWritable pte)

/-- The range `[ptr, ptr + len)` is not empty and lies in the user window. -/
def InWindow (ptr len : UInt64) : Prop :=
  ptr ≠ 0 ∧ 0 < len.toNat ∧ ptr.toNat + len.toNat < 2 ^ 64 ∧
    USERSPACE_VA_MIN.toNat ≤ ptr.toNat ∧ ptr.toNat + len.toNat ≤ USERSPACE_VA_MAX.toNat

instance (ptr len : UInt64) : Decidable (InWindow ptr len) :=
  inferInstanceAs (Decidable (_ ∧ _ ∧ _ ∧ _ ∧ _))

/-- The page shares a byte with `[ptr, ptr + len)`. -/
def Overlaps (ptr len : UInt64) (page : Nat) : Prop :=
  page * 4096 < ptr.toNat + len.toNat ∧ ptr.toNat < (page + 1) * 4096

/-- What the check is for. -/
def ValidRange (mem : Bytes) (root ptr len : UInt64) (writable : Bool) : Prop :=
  InWindow ptr len ∧ ∀ page, Overlaps ptr len page → UsablePage mem root writable page

/-- The check returns, and its answer is that of `ValidRange`. -/
def ValidatesExactly (s : MemState) (root ptr len : UInt64) (writable : Bool) : Prop :=
  ∃ b, vmmValidateUserPtr s root ptr len writable = .ok b ∧
    (b = true ↔ ValidRange s.mem root ptr len writable)

/-! ### The pages that the loop looks at -/

/-- The first page that the loop looks at. -/
def checkedFirst (ptr : UInt64) : Nat := ptr.toNat % 2 ^ 32 / 4096

/-- One past the last page that the loop looks at. -/
def checkedEnd (ptr len : UInt64) : Nat := (ptr.toNat + len.toNat + 4095) % 2 ^ 32 / 4096

/-- The loop does not panic, and the pages it looks at are usable exactly when those of the
range are. -/
def AliasAgrees (mem : Bytes) (root ptr len : UInt64) (writable : Bool) : Prop :=
  (checkedEnd ptr len ≤ checkedFirst ptr ∨ 1024 ≤ checkedFirst ptr) ∧
  ((∀ page, checkedFirst ptr ≤ page → page < checkedEnd ptr len →
      UsablePage mem root writable page) ↔
    ∀ page, Overlaps ptr len page → UsablePage mem root writable page)

/-- The loop, when it does not start in a page below the user window. -/
theorem validatePages_eq (s : MemState) (root : UInt64) (w : Bool) (pageEnd : UInt64)
    (fuel : Nat) {j i : Nat} {va : UInt64} (hend : pageEnd.toNat = j * 4096)
    (hva : va.toNat = i * 4096)
    (hj : j ≤ 2 ^ 20) (hlo : j ≤ i ∨ 1024 ≤ i) (hfuel : j - i ≤ fuel) :
    ∃ b, validatePages s root w pageEnd fuel va = .ok b ∧
      (b = true ↔ ∀ page, i ≤ page → page < j → UsablePage s.mem root w page) := by
  induction fuel generalizing i va with
  | zero => exact ⟨true, rfl, by simp; intro page h1 h2; omega⟩
  | succ fuel ih =>
    unfold validatePages
    by_cases hij : i < j
    · have hlt : va < pageEnd := by rw [UInt64.lt_iff_toNat_lt]; omega
      have hpage : va.toNat / 4096 = i := by omega
      rw [if_pos hlt, walk_eq s root va (by omega) (by omega), hpage]
      -- The range is usable when its first page is and the rest is.
      cases hslot : leafSlot s.mem root i with
      | none =>
        refine ⟨false, rfl, ?_⟩
        simp only [Bool.false_eq_true, false_iff, not_forall]
        refine ⟨i, Nat.le_refl i, hij, ?_⟩
        rintro ⟨pte, hpte, -⟩
        simp [leafEntry, hslot] at hpte
      | some slot =>
        have hleaf : leafEntry s.mem root i = some (readPte s.mem slot) := by
          simp [leafEntry, hslot]
        -- A failed test of the entry is a page of the range that is not usable.
        have hfail : ¬ UsablePage s.mem root w i → ∃ b, Except.ok (ε := String) false = .ok b ∧
            (b = true ↔ ∀ page, i ≤ page → page < j → UsablePage s.mem root w page) := by
          intro hn
          refine ⟨false, rfl, ?_⟩
          simp only [Bool.false_eq_true, false_iff]
          exact fun hall => hn (hall i (Nat.le_refl i) hij)
        simp only
        split
        · refine hfail ?_
          rintro ⟨pte, hpte, hp, -⟩
          simp_all
        split
        · refine hfail ?_
          rintro ⟨pte, hpte, -, hu, -⟩
          simp_all
        split
        · refine hfail ?_
          rintro ⟨pte, hpte, -, -, hw⟩
          simp_all
        · rename_i hp hu hw
          have hnext : (va + PAGE_SIZE.toUInt64).toNat = (i + 1) * 4096 := by
            rw [UInt64.toNat_add, toNat_PAGE_SIZE_toUInt64]; omega
          obtain ⟨b, hb, hiff⟩ := ih hnext (by omega) (by omega)
          refine ⟨b, hb, hiff.trans ⟨fun hall page h1 h2 => ?_, fun hall page h1 h2 => ?_⟩⟩
          · by_cases hpi : page = i
            · refine ⟨_, hpi ▸ hleaf, ?_⟩
              simp_all
            · exact hall page (by omega) h2
          · exact hall page (by omega) h2
    · have hlt : ¬ va < pageEnd := by rw [UInt64.lt_iff_toNat_lt]; omega
      rw [if_neg hlt]
      refine ⟨true, rfl, ?_⟩
      simp only [true_iff]
      intro page h1 h2
      omega

/-- The loop panics when it starts in a page below the user window. -/
theorem validatePages_panic (s : MemState) (root : UInt64) (w : Bool) (pageEnd va : UInt64)
    (fuel : Nat) (hlt : va < pageEnd) (hlo : va.toNat < 2 ^ 22) :
    validatePages s root w pageEnd (fuel + 1) va = .error "walk" := by
  unfold validatePages
  rw [if_pos hlt, walk_panic s root va false (Or.inl hlo)]

/-! ### The whole function -/

/-- The first page of the loop, from the code's rounding. -/
theorem toNat_pageStart (ptr : UInt64) :
    (PAGE_ROUND_DOWN ptr).toNat = checkedFirst ptr * 4096 :=
  toNat_PAGE_ROUND_DOWN ptr

/-- The end of the loop, from the code's rounding. -/
theorem toNat_pageEnd (h : InWindow ptr len) :
    (PAGE_ROUND_UP (ptr + len)).toNat = checkedEnd ptr len * 4096 := by
  obtain ⟨-, -, hwrap, -, hmax⟩ := h
  rw [toNat_USERSPACE_VA_MAX] at hmax
  have hsum : (ptr + len).toNat = ptr.toNat + len.toNat := by
    rw [UInt64.toNat_add]; omega
  rw [toNat_PAGE_ROUND_UP _ (by omega), hsum]
  rfl

/-- Outside the window, the function returns false before the loop. -/
theorem vmmValidateUserPtr_outside (s : MemState) (root ptr len : UInt64) (w : Bool)
    (h : ¬ InWindow ptr len) : vmmValidateUserPtr s root ptr len w = .ok false := by
  have hmax := toNat_USERSPACE_VA_MAX
  have hsum := UInt64.toNat_add ptr len
  have hlt1 := ptr.toNat_lt
  have hlt2 := len.toNat_lt
  have hzero : ∀ a : UInt64, a.toNat = 0 → a = 0 := fun a ha => UInt64.toNat.inj ha
  have hlen := hzero len
  unfold vmmValidateUserPtr
  split
  · rfl
  rename_i hnz
  simp only [Bool.or_eq_true, decide_eq_true_eq, not_or] at hnz
  simp only
  split
  · rfl
  rename_i hov
  split
  · rfl
  rename_i hhi
  simp only [ge_iff_le, gt_iff_lt, Bool.or_eq_true, decide_eq_true_eq, not_or] at hhi
  split
  · rfl
  rename_i hlo
  -- All four tests have passed, so the range is in the window.
  rw [UInt64.lt_iff_toNat_lt] at hov hlo
  rw [UInt64.le_iff_toNat_le, UInt64.lt_iff_toNat_lt] at hhi
  refine absurd ⟨hnz.1, ?_, ?_, ?_, ?_⟩ h
  · exact Nat.pos_of_ne_zero fun h0 => hnz.2 (hlen h0)
  all_goals omega

/-- Inside the window, the function is its loop. -/
theorem vmmValidateUserPtr_inside (s : MemState) (root ptr len : UInt64) (w : Bool)
    (h : InWindow ptr len) :
    vmmValidateUserPtr s root ptr len w =
      validatePages s root w (PAGE_ROUND_UP (ptr + len))
        ((PAGE_ROUND_UP (ptr + len)).toNat / 4096 + 1) (PAGE_ROUND_DOWN ptr) := by
  obtain ⟨hne, hpos, hwrap, hmin, hmax⟩ := h
  have hsum : (ptr + len).toNat = ptr.toNat + len.toNat := by
    rw [UInt64.toNat_add]; omega
  have hlen : len ≠ 0 := fun h0 => by simp [h0] at hpos
  have h1 : ¬ ptr + len < ptr := by rw [UInt64.lt_iff_toNat_lt]; omega
  have h2 : ¬ ptr ≥ USERSPACE_VA_MAX := by
    rw [ge_iff_le, UInt64.le_iff_toNat_le]; omega
  have h3 : ¬ ptr + len > USERSPACE_VA_MAX := by
    rw [gt_iff_lt, UInt64.lt_iff_toNat_lt]; omega
  have h4 : ¬ ptr < USERSPACE_VA_MIN := by rw [UInt64.lt_iff_toNat_lt]; omega
  simp [vmmValidateUserPtr, hne, hlen, h1, h2, h3, h4]

/-- Inside the window, the check is exact when the pages it looks at agree with those of the
range. -/
theorem validatesExactly_inside_iff (s : MemState) (root ptr len : UInt64) (w : Bool)
    (h : InWindow ptr len) :
    ValidatesExactly s root ptr len w ↔ AliasAgrees s.mem root ptr len w := by
  have hstart := toNat_pageStart ptr
  have hend := toNat_pageEnd h
  have hj : checkedEnd ptr len ≤ 2 ^ 20 := by unfold checkedEnd; omega
  unfold ValidatesExactly AliasAgrees
  rw [vmmValidateUserPtr_inside s root ptr len w h]
  by_cases hlo : checkedEnd ptr len ≤ checkedFirst ptr ∨ 1024 ≤ checkedFirst ptr
  · obtain ⟨b, hb, hiff⟩ := validatePages_eq s root w _
      ((PAGE_ROUND_UP (ptr + len)).toNat / 4096 + 1) hend hstart hj hlo (by omega)
    rw [hb]
    constructor
    · rintro ⟨b', hb', hvalid⟩
      cases hb'
      refine ⟨hlo, hiff.symm.trans (hvalid.trans ?_)⟩
      exact ⟨fun hv => hv.2, fun hv => ⟨h, hv⟩⟩
    · rintro ⟨-, hag⟩
      refine ⟨b, rfl, hiff.trans (hag.trans ?_)⟩
      exact ⟨fun hv => ⟨h, hv⟩, fun hv => hv.2⟩
  · have hpanic := validatePages_panic s root w (PAGE_ROUND_UP (ptr + len)) (PAGE_ROUND_DOWN ptr)
      ((PAGE_ROUND_UP (ptr + len)).toNat / 4096)
      (by rw [UInt64.lt_iff_toNat_lt]; omega) (by omega)
    rw [hpanic]
    constructor
    · rintro ⟨b, hb, -⟩
      cases hb
    · rintro ⟨hc, -⟩
      exact absurd hc hlo

/-- In the first 4 GiB less a page, the loop looks at the pages of the range. -/
theorem checked_iff_overlaps (hwin : InWindow ptr len) (h : ptr.toNat + len.toNat ≤ 2 ^ 32 - 4096)
    (page : Nat) : checkedFirst ptr ≤ page ∧ page < checkedEnd ptr len ↔ Overlaps ptr len page := by
  obtain ⟨-, hpos, -⟩ := hwin
  unfold checkedFirst checkedEnd Overlaps
  omega

/-- There the check is exact for every page table. -/
theorem validatesExactly_of_low (s : MemState) (root ptr len : UInt64) (w : Bool)
    (hwin : InWindow ptr len) (h : ptr.toNat + len.toNat ≤ 2 ^ 32 - 4096) :
    ValidatesExactly s root ptr len w := by
  rw [validatesExactly_inside_iff s root ptr len w hwin]
  have hover := checked_iff_overlaps hwin h
  obtain ⟨-, -, -, hmin, -⟩ := hwin
  rw [toNat_USERSPACE_VA_MIN] at hmin
  refine ⟨Or.inr (by unfold checkedFirst; omega), ?_⟩
  exact ⟨fun hall page ho => hall page ((hover page).mpr ho).1 ((hover page).mpr ho).2,
    fun hall page h1 h2 => hall page ((hover page).mp ⟨h1, h2⟩)⟩

/-! ### Page tables that the check gets wrong -/

/-- The words of a page table with root `0x1000` that maps the first 4 GiB and nothing else.
The table at `0x3000` serves as the last two levels. -/
def lowWords (k : Nat) : Nat :=
  if k = 512 then 0x2007
  else if 1024 ≤ k ∧ k < 1028 then 0x3007
  else if 1536 ≤ k ∧ k < 2048 then 0x3007
  else 0

/-- The memory with that page table. -/
def lowMemory : Bytes := Bytes.ofWords lowWords

/-- An entry of a page-aligned table of `lowMemory`. -/
theorem tableEntry_lowMemory (table : UInt64) (k i : Nat) (h : table.toNat = 8 * k) :
    tableEntry lowMemory table i = UInt64.ofNat (lowWords (k + i) % 2 ^ 64) := by
  rw [tableEntry, readPte, h, ← Nat.mul_add, lowMemory, Bytes.getLE_ofWords]

/-- The root leads to the second level for the first 512 GiB. -/
theorem tableAt_lowMemory_one (page : Nat) (h : page < 2 ^ 34) :
    tableAt lowMemory 0x1000 page 1 = if page < 2 ^ 27 then some 0x2000 else none := by
  have hidx : pagePath page 0 = page / 2 ^ 27 := by unfold pagePath; omega
  rw [tableAt, Trie.node_succ, Trie.node_zero, Option.bind_some,
    tableEntry_lowMemory 0x1000 512 _ rfl, hidx]
  split
  · have : page / 2 ^ 27 = 0 := by omega
    rw [this]; rfl
  · have : lowWords (512 + page / 2 ^ 27) = 0 := by unfold lowWords; split_ifs <;> omega
    rw [this]; rfl

/-- The second level leads to the table at `0x3000` for the first 4 GiB. -/
theorem tableAt_lowMemory_two (page : Nat) (h : page < 2 ^ 34) :
    tableAt lowMemory 0x1000 page 2 = if page < 2 ^ 20 then some 0x3000 else none := by
  have hidx : pagePath page 1 = page / 2 ^ 18 % 512 := rfl
  have hone := tableAt_lowMemory_one page h
  rw [tableAt] at hone ⊢
  rw [Trie.node_succ, hone]
  by_cases hbig : page < 2 ^ 27
  · rw [if_pos hbig, Option.bind_some, tableEntry_lowMemory 0x2000 1024 _ rfl, hidx]
    split
    · have : lowWords (1024 + page / 2 ^ 18 % 512) = 0x3007 := by
        unfold lowWords; split_ifs <;> omega
      rw [this]; rfl
    · have : lowWords (1024 + page / 2 ^ 18 % 512) = 0 := by
        unfold lowWords; split_ifs <;> omega
      rw [this]; rfl
  · rw [if_neg hbig, if_neg (by omega)]
    rfl

/-- Every entry of the table at `0x3000` leads back to it. -/
theorem tableEntry_lowMemory_last (page d : Nat) :
    tableEntry lowMemory 0x3000 (pagePath page d) = 0x3007 := by
  have hlt : pagePath page d < 512 := Nat.mod_lt _ (by omega)
  have : lowWords (1536 + pagePath page d) = 0x3007 := by unfold lowWords; split_ifs <;> omega
  rw [tableEntry_lowMemory 0x3000 1536 _ rfl, this]
  rfl

/-- A page of `lowMemory` is usable exactly when it is below 4 GiB. -/
theorem usablePage_lowMemory (w : Bool) (page : Nat) (h : page < 2 ^ 34) :
    UsablePage lowMemory 0x1000 w page ↔ page < 2 ^ 20 := by
  have htwo := tableAt_lowMemory_two page h
  have hlast := tableEntry_lowMemory_last page
  have hleaf : leafEntry lowMemory 0x1000 page =
      if page < 2 ^ 20 then some 0x3007 else none := by
    rw [leafEntry, leafSlot, tableAt, Trie.node_succ]
    rw [tableAt] at htwo
    rw [htwo]
    split
    · rw [Option.bind_some, hlast 2]
      exact congrArg some (hlast 3)
    · rfl
  unfold UsablePage
  rw [hleaf]
  split
  · rename_i hlt
    simp only [hlt, iff_true]
    exact ⟨_, rfl, by decide, by decide, fun _ => by decide⟩
  · rename_i hlt
    refine ⟨?_, fun hc => absurd hc hlt⟩
    rintro ⟨pte, hpte, -⟩
    cases hpte

/-- Nothing is usable in zero memory. -/
theorem not_usablePage_zero (w : Bool) (page : Nat) : ¬ UsablePage Bytes.zero 0 w page := by
  rintro ⟨pte, hpte, hp, -⟩
  have hentry : ∀ slot, readPte Bytes.zero slot = 0 := by
    intro slot; rw [readPte, Bytes.getLE_zero]; rfl
  have : pte = 0 := by
    unfold leafEntry at hpte
    cases hslot : leafSlot Bytes.zero 0 page with
    | none => simp [hslot] at hpte
    | some slot =>
      rw [hslot, Option.map_some, hentry] at hpte
      exact (Option.some.inj hpte).symm
  rw [this] at hp
  exact absurd hp (by decide)

/-- A range of the window that ends above the first 4 GiB less a page is checked wrongly with
some page table. -/
theorem exists_not_validatesExactly (ptr len : UInt64) (w : Bool) (hwin : InWindow ptr len)
    (h : 2 ^ 32 - 4096 < ptr.toNat + len.toNat) :
    ∃ s root, ¬ ValidatesExactly s root ptr len w := by
  have hwin' := hwin
  obtain ⟨-, hpos, -, -, hmax⟩ := hwin'
  rw [toNat_USERSPACE_VA_MAX] at hmax
  by_cases hempty : checkedEnd ptr len ≤ checkedFirst ptr
  · -- The loop looks at no page, so the check accepts. In zero memory nothing is usable.
    refine ⟨MemState.boot Bytes.zero, 0, ?_⟩
    rw [validatesExactly_inside_iff _ _ ptr len w hwin]
    rintro ⟨-, hag⟩
    have hall := hag.mp (fun page h1 h2 => by omega)
    exact not_usablePage_zero w _ (hall (ptr.toNat / 4096) ⟨by omega, by omega⟩)
  · by_cases hlo : 1024 ≤ checkedFirst ptr
    · -- The loop looks at pages below 4 GiB, and the range reaches above.
      refine ⟨MemState.boot lowMemory, 0x1000, ?_⟩
      rw [validatesExactly_inside_iff _ _ ptr len w hwin]
      rintro ⟨-, hag⟩
      have hlow : ∀ page, checkedFirst ptr ≤ page → page < checkedEnd ptr len →
          UsablePage lowMemory 0x1000 w page := by
        intro page _ h2
        have : checkedEnd ptr len ≤ 2 ^ 20 := by unfold checkedEnd; omega
        exact (usablePage_lowMemory w page (by omega)).mpr (by omega)
      have hlast : Overlaps ptr len ((ptr.toNat + len.toNat - 1) / 4096) := by
        unfold Overlaps; omega
      have husable := hag.mp hlow _ hlast
      rw [show (MemState.boot lowMemory).mem = lowMemory from rfl,
        usablePage_lowMemory w _ (by omega)] at husable
      unfold checkedEnd checkedFirst at hempty
      omega
    · refine ⟨MemState.boot Bytes.zero, 0, ?_⟩
      rw [validatesExactly_inside_iff _ _ ptr len w hwin]
      rintro ⟨hc, -⟩
      omega

/-! ### The result -/

/-- The check is exact for every page table exactly when the range is outside the user window
or ends in the first 4 GiB less a page. For one page table it is exact also when the pages
modulo 4 GiB that the loop looks at happen to agree with the pages of the range. -/
theorem validateUserPtr_exact_iff (ptr len : UInt64) (w : Bool) :
    ((∀ s root, ValidatesExactly s root ptr len w) ↔
      (InWindow ptr len → ptr.toNat + len.toNat ≤ 2 ^ 32 - 4096)) ∧
    ∀ s root, ValidatesExactly s root ptr len w ↔
      ((InWindow ptr len → ptr.toNat + len.toNat ≤ 2 ^ 32 - 4096) ∨
        AliasAgrees s.mem root ptr len w) := by
  have houtside : ¬ InWindow ptr len → ∀ s root, ValidatesExactly s root ptr len w := by
    intro hwin s root
    refine ⟨false, vmmValidateUserPtr_outside s root ptr len w hwin, ?_⟩
    simp only [Bool.false_eq_true, false_iff]
    exact fun hv => hwin hv.1
  by_cases hwin : InWindow ptr len
  · have hlow : ptr.toNat + len.toNat ≤ 2 ^ 32 - 4096 →
        ∀ s root, ValidatesExactly s root ptr len w :=
      fun h s root => validatesExactly_of_low s root ptr len w hwin h
    refine ⟨⟨fun hall _ => ?_, fun h => hlow (h hwin)⟩, fun s root => ⟨fun hex => ?_, ?_⟩⟩
    · by_contra hc
      obtain ⟨s, root, hbad⟩ := exists_not_validatesExactly ptr len w hwin (by omega)
      exact hbad (hall s root)
    · exact Or.inr ((validatesExactly_inside_iff s root ptr len w hwin).mp hex)
    · rintro (h | h)
      · exact hlow (h hwin) s root
      · exact (validatesExactly_inside_iff s root ptr len w hwin).mpr h
  · exact ⟨⟨fun _ h => absurd h hwin, fun _ => houtside hwin⟩,
      fun s root => ⟨fun _ => Or.inl fun h => absurd h hwin, fun _ => houtside hwin s root⟩⟩

/-- One byte at 4 GiB: the check looks at page 0 and panics. -/
theorem validateUserPtr_high_panics :
    InWindow (2 ^ 32) 1 ∧
    vmmValidateUserPtr (MemState.boot Bytes.zero) 0 (2 ^ 32) 1 false = .error "walk" ∧
    ¬ ∀ s root ptr len w, ValidatesExactly s root ptr len w := by
  have hpanic : vmmValidateUserPtr (MemState.boot Bytes.zero) 0 (2 ^ 32) 1 false =
      .error "walk" := by rfl
  refine ⟨by decide, hpanic, fun hall => ?_⟩
  obtain ⟨b, hb, -⟩ := hall (MemState.boot Bytes.zero) 0 (2 ^ 32) 1 false
  rw [hpanic] at hb
  cases hb

end DzOS.Proofs.Mem
