import DzOS.Proofs.Mem.KernelMapping

/-!
# `DzOS.Proofs.Mem.MapPhysical`: ranges of physical memory in the I/O window

`vmm_map_physical` rounds the start of a range down with the 32-bit mask `~(PAGE_SIZE - 1)`, so
what is cut off includes the upper half of the address. For a range below 4 GiB that is the
offset in the page. For a range above, the call maps memory below 4 GiB, or runs over the end of
the address space.

`ioMemmapFrom_spec` is the loop of `vmm_io_memmap` over fresh pages of the window, and
`ioMemmapFrom_wraps` says how it ends when the window is too small. `mapsPhysical_iff` says which
ranges are mapped as asked.
-/

set_option autoImplicit false

namespace DzOS.Proofs.Mem

open DzOS.Lib DzOS.Mem

variable {n : Nat} {x : UInt64}

/-- The first address of the I/O window. -/
def IO_WINDOW : Nat := 0xfffffffff0000000

/-- The rest of the window, from `va` on, is fresh: no page is mapped there, and the tables that
exist allow writing. -/
structure FreshWindow (t : PageTree 3) (va : UInt64) : Prop where
  aligned : va.toNat % 4096 = 0
  lo : IO_WINDOW ≤ va.toNat
  absent : ∀ q : UInt64, va ≤ q → ¬ Present t q
  opens : ∀ q : UInt64, va ≤ q → OpenPath t q

variable {t t' : PageTree 3} {va pa q : UInt64} {pages : List UInt64} {i k m : Nat}

/-- The address of the `i`-th page. -/
theorem toNat_windowPage (h : va.toNat + i * 4096 < 2 ^ 64) :
    (va + UInt64.ofNat i * PAGE_SIZE.toUInt64).toNat = va.toNat + i * 4096 := by
  have hi : (UInt64.ofNat i).toNat = i := by
    rw [UInt64.toNat_ofNat']
    omega
  rw [UInt64.toNat_add, UInt64.toNat_mul, hi, toNat_PAGE_SIZE_toUInt64]
  omega

/-- Two addresses of the window are in one page when they have the same page number. -/
theorem samePage_window {q' : UInt64} (hq : IO_WINDOW ≤ q.toNat) (hq' : IO_WINDOW ≤ q'.toNat) :
    SamePage q q' ↔ q.toNat / 4096 = q'.toNat / 4096 := by
  have := q.toNat_lt
  have := q'.toNat_lt
  rw [samePage_iff]
  unfold IO_WINDOW at hq hq'
  omega

/-- The window lies behind the last entry of the top table. -/
theorem vaPath_window (hq : IO_WINDOW ≤ q.toNat) : vaPath q 3 = 511 := by
  have := q.toNat_lt
  rw [vaPath_eq _ (by omega)]
  unfold IO_WINDOW at hq
  omega

/-! ### The loop of `vmm_io_memmap` -/

/-- The pages from the `i`-th to the `(i + k - 1)`-th are mapped one after the other. -/
structure WindowMapped (t t' : PageTree 3) (va pa : UInt64) (i k : Nat) : Prop where
  leaf : ∀ j, i ≤ j → j < i + k → readLeaf t' (va + UInt64.ofNat j * PAGE_SIZE.toUInt64) =
    some (ioPte (pa + UInt64.ofNat j * PAGE_SIZE.toUInt64))
  kept : ∀ q, (∀ j, i ≤ j → j < i + k → ¬ SamePage q (va + UInt64.ofNat j * PAGE_SIZE.toUInt64)) →
    Kept t t' q
  opens : ∀ q, OpenPath t q → OpenPath t' q
  branch : ∀ idx, idx ≠ 511 → t'.branchAt idx = t.branchAt idx

/-- One turn of the loop. -/
theorem ioMemmapFrom_step (pa : UInt64) (k : Nat) (hlo : IO_WINDOW ≤ va.toNat)
    (hfit : va.toNat + i * 4096 < 2 ^ 64)
    (hfree : ¬ Present t (va + UInt64.ofNat i * PAGE_SIZE.toUInt64)) (hpages : 3 ≤ pages.length) :
    ∃ t₁ rest, ioMemmapFrom va pa (k + 1) i t pages = ioMemmapFrom va pa k (i + 1) t₁ rest ∧
      WindowMapped t t₁ va pa i 1 ∧
      (∀ q, Present t₁ q ↔ SamePage q (va + UInt64.ofNat i * PAGE_SIZE.toUInt64) ∨ Present t q) ∧
      pages.length ≤ rest.length + 3 := by
  have hpage := toNat_windowPage hfit
  generalize hcur : va + UInt64.ofNat i * PAGE_SIZE.toUInt64 = cur at *
  have hcurlo : IO_WINDOW ≤ cur.toNat := by omega
  have hrange : ¬ ((!true && decide (cur ≥ USERSPACE_VA_MAX)) || decide (cur < USERSPACE_VA_MIN))
      = true := by
    simp only [Bool.not_true, Bool.false_and, Bool.false_or, decide_eq_true_eq,
      UInt64.lt_iff_toNat_lt]
    rw [show USERSPACE_VA_MIN.toNat = 2 ^ 22 by decide]
    unfold IO_WINDOW at hcurlo
    omega
  -- Three pages are enough for the tables of one path, so the walk succeeds.
  rcases hext : extendPath (PTE_P ||| PTE_W ||| PTE_U) t cur pages with ⟨ok, t₁, rest⟩
  have hwalk : walkUser t cur true pages = .ok (ok, t₁, rest) := by
    rw [walkUser, if_neg hrange, hext]
  have hkept := walkUser_walkKept hwalk
  obtain ⟨rfl, hlen⟩ := hkept.enough hpages
  have hpresent := (walkUser_ok hwalk).1
  have hfree₁ : ¬ leafPresent t₁ cur = true := fun h => hfree ((hpresent cur).mp h)
  have hset := leafSet_write (hkept.slot rfl) hkept.kept
    (ioPte (pa + UInt64.ofNat i * PAGE_SIZE.toUInt64))
  refine ⟨writeLeaf t₁ cur (ioPte (pa + UInt64.ofNat i * PAGE_SIZE.toUInt64)), rest, ?_, ?_, ?_,
    hlen⟩
  · rw [ioMemmapFrom, hcur, hwalk]
    dsimp only
    rw [if_neg hfree₁]
  · refine ⟨?_, ?_, fun q hq => openPath_writeLeaf _ (hkept.opens q hq), ?_⟩
    · intro j hij hj
      have hji : j = i := by omega
      rw [hji, hcur]
      exact hset.own
    · intro q hq
      have hne := hq i (Nat.le_refl i) (Nat.lt_succ_self i)
      rw [hcur] at hne
      exact hset.others q hne
    · intro idx hidx
      have hne : idx ≠ vaPath cur 3 := by
        rw [vaPath_window hcurlo]
        exact hidx
      exact (Radix.branchAt_setLeaf t₁ _ hne).trans (hkept.branch idx hne)
  · exact present_map_one (ioPte_present _) hpresent (hkept.slot rfl)

/-- Mappings one behind the other. -/
theorem WindowMapped.cons {t₁ : PageTree 3} (hlo : IO_WINDOW ≤ va.toNat)
    (hfit : va.toNat + (i + (k + 1)) * 4096 ≤ 2 ^ 64) (h : WindowMapped t t₁ va pa i 1)
    (h' : WindowMapped t₁ t' va pa (i + 1) k) : WindowMapped t t' va pa i (k + 1) where
  leaf j hij hj := by
    by_cases hji : j = i
    · rw [hji]
      refine (h'.kept _ fun j' hij' hj' hsame => ?_).eq_some (h.leaf i (Nat.le_refl i) (by omega))
      have hi := toNat_windowPage (show va.toNat + i * 4096 < 2 ^ 64 by omega)
      have hj := toNat_windowPage (show va.toNat + j' * 4096 < 2 ^ 64 by omega)
      rw [samePage_window (by omega) (by omega), hi, hj] at hsame
      omega
    · exact h'.leaf j (by omega) (by omega)
  kept q hq := by
    refine (h.kept q ?_).trans (h'.kept q ?_)
    · exact fun j hij hj => hq j hij (by omega)
    · exact fun j hij hj => hq j (by omega) (by omega)
  opens q hq := h'.opens q (h.opens q hq)
  branch idx hidx := (h'.branch idx hidx).trans (h.branch idx hidx)

/-- The pages behind the `i`-th are still fresh after its mapping. -/
theorem absent_next (hlo : IO_WINDOW ≤ va.toNat) (hfit : va.toNat + i * 4096 < 2 ^ 64)
    (hal : va.toNat % 4096 = 0)
    (habsent : ∀ q : UInt64, va.toNat + i * 4096 ≤ q.toNat → ¬ Present t q)
    (hpresent : ∀ q, Present t' q ↔
      SamePage q (va + UInt64.ofNat i * PAGE_SIZE.toUInt64) ∨ Present t q) :
    ∀ q : UInt64, va.toNat + (i + 1) * 4096 ≤ q.toNat → ¬ Present t' q := by
  intro q hq h
  have hpage := toNat_windowPage hfit
  have hnext : i * 4096 ≤ (i + 1) * 4096 := Nat.mul_le_mul_right 4096 (Nat.le_succ i)
  have hle : va.toNat + i * 4096 ≤ q.toNat := Nat.le_trans (Nat.add_le_add_left hnext _) hq
  rcases (hpresent q).mp h with hsame | hold
  · rw [samePage_window (by omega) (by omega), hpage] at hsame
    omega
  · exact habsent q hle hold

/-- The loop over fresh pages of the window maps all of them. -/
theorem ioMemmapFrom_spec (pa : UInt64) (hlo : IO_WINDOW ≤ va.toNat) (hal : va.toNat % 4096 = 0)
    (hfit : va.toNat + (i + k) * 4096 ≤ 2 ^ 64)
    (habsent : ∀ q : UInt64, va.toNat + i * 4096 ≤ q.toNat → ¬ Present t q)
    (hpages : 3 * k ≤ pages.length) :
    ∃ t', ioMemmapFrom va pa k i t pages = .ok (true, t') ∧ WindowMapped t t' va pa i k := by
  induction k generalizing i t pages with
  | zero =>
    refine ⟨t, rfl, ?_, fun q _ => Kept.refl t q, fun q hq => hq, fun idx _ => rfl⟩
    intro j hij hj
    omega
  | succ k ih =>
    have hfit₁ : va.toNat + i * 4096 < 2 ^ 64 := by omega
    have hfitRest : va.toNat + (i + 1 + k) * 4096 ≤ 2 ^ 64 := by
      rw [show i + 1 + k = i + (k + 1) by omega]
      exact hfit
    have hfree := habsent _ (Nat.le_of_eq (toNat_windowPage hfit₁).symm)
    have hthree : 3 ≤ pages.length := by omega
    obtain ⟨t₁, rest, hrun, hone, hpresent, hlen⟩ :=
      ioMemmapFrom_step pa k hlo hfit₁ hfree hthree
    have hrest : 3 * k ≤ rest.length := by omega
    obtain ⟨t', hrun', hmapped⟩ :=
      ih hfitRest (absent_next hlo hfit₁ hal habsent hpresent) hrest
    exact ⟨t', hrun.trans hrun', hone.cons hlo hfit hmapped⟩

/-- The loop over more pages than the window has runs over the end of the address space. -/
theorem ioMemmapFrom_wraps (pa : UInt64) (hlo : IO_WINDOW ≤ va.toNat) (hal : va.toNat % 4096 = 0)
    (hend : va.toNat + (i + m) * 4096 = 2 ^ 64) (hmk : m < k)
    (habsent : ∀ q : UInt64, va.toNat + i * 4096 ≤ q.toNat → ¬ Present t q)
    (hpages : 3 * m ≤ pages.length) : ioMemmapFrom va pa k i t pages = .error "walk" := by
  induction m generalizing i t pages k with
  | zero =>
    obtain ⟨k, rfl⟩ := Nat.exists_eq_add_of_le' hmk
    -- The address has wrapped to 0, in front of the user window.
    have hcur : va + UInt64.ofNat i * PAGE_SIZE.toUInt64 = 0 := by
      have hi : (UInt64.ofNat i).toNat = i := by
        rw [UInt64.toNat_ofNat']
        unfold IO_WINDOW at hlo
        omega
      rw [← UInt64.toNat_inj, UInt64.toNat_add, UInt64.toNat_mul, hi, toNat_PAGE_SIZE_toUInt64,
        UInt64.toNat_zero]
      omega
    rw [ioMemmapFrom, hcur, walkUser, if_pos (by decide)]
  | succ m ih =>
    obtain ⟨k, rfl⟩ := Nat.exists_eq_add_of_le' hmk
    have hfit₁ : va.toNat + i * 4096 < 2 ^ 64 := by omega
    have hendRest : va.toNat + (i + 1 + m) * 4096 = 2 ^ 64 := by
      rw [show i + 1 + m = i + (m + 1) by omega]
      exact hend
    have hmore : m < k + m + 1 := by omega
    have hfree := habsent _ (Nat.le_of_eq (toNat_windowPage hfit₁).symm)
    have hthree : 3 ≤ pages.length := by omega
    obtain ⟨t₁, rest, hrun, -, hpresent, hlen⟩ :=
      ioMemmapFrom_step pa (k + m + 1) hlo hfit₁ hfree hthree
    have hrest : 3 * m ≤ rest.length := by omega
    have hk : k + (m + 1).succ = k + m + 1 + 1 := by omega
    rw [hk, hrun]
    exact ih hendRest hmore (absent_next hlo hfit₁ hal habsent hpresent) hrest

/-! ### What the CPU makes of a range -/

/-- The CPU translates `va` to `pa`, writable, not for users, not executable and uncached. -/
def IoMapped (t : PageTree 3) (va pa : UInt64) : Prop :=
  ∃ tr, translate t va = some tr ∧ physicalAddress tr va = pa.toNat ∧ tr.writable = true ∧
    tr.user = false ∧ tr.executable = false ∧ cacheDisabled t va = true

/-- The entry of `vmm_io_memmap`. -/
theorem ioPte_flags (hal : pa.toNat % 4096 = 0) (hlt : pa.toNat < 2 ^ 52) :
    pteFollow (ioPte pa) = pa ∧ pteIsWritable (ioPte pa) = true ∧ pteIsUser (ioPte pa) = false ∧
      pteIsExecutable (ioPte pa) = false ∧ ioPte pa &&& PTE_PCD ≠ 0 := by
  refine ⟨(pte_flags_addr _ (by decide) (by decide) hal hlt).2, ?_, ?_, ?_, ?_⟩
  · rw [pteIsWritable, ioPte, flags_and_addr (by decide)]
    decide
  · rw [pteIsUser, ioPte, flags_and_addr (by decide)]
    decide
  · rw [pteIsExecutable, ioPte, flags_and_addr (by decide)]
    decide
  · rw [ioPte, flags_and_addr (by decide)]
    decide

/-- An address in a page that `vmm_io_memmap` mapped. -/
theorem ioMapped_leaf (hcanonical : canonical q = true) (hopen : OpenPath t q)
    (hleaf : readLeaf t q = some (ioPte pa)) (hal : pa.toNat % 4096 = 0)
    (hx : x.toNat = pa.toNat + q.toNat % 4096) (hlt : pa.toNat < 2 ^ 52) : IoMapped t q x := by
  obtain ⟨hfollow, hwrite, huser, hexec, hcache⟩ := ioPte_flags hal hlt
  refine ⟨_, translate_open hcanonical hopen hleaf (ioPte_present pa) huser hexec, ?_, hwrite, rfl,
    rfl, ?_⟩
  · simp only [physicalAddress, hfollow, Nat.pow_zero, Nat.mul_one]
    omega
  · rw [cacheDisabled, cacheDisabledFrom_open hopen hleaf]
    exact bne_iff_ne.mpr hcache

/-- The cache bit of an address depends on its entry of the top table. -/
theorem cacheDisabledFrom_branchAt {t t' : PageTree (n + 1)} {p : Nat → Nat}
    (h : t'.branchAt (p (n + 1)) = t.branchAt (p (n + 1))) :
    cacheDisabledFrom t' p = cacheDisabledFrom t p := by
  cases t with
  | node e c =>
    cases t' with
    | node e' c' =>
      obtain ⟨he, hc⟩ := Prod.mk.inj h
      rw [cacheDisabledFrom, cacheDisabledFrom, he, hc]

/-- Addresses in front of the last entry of the top table are mapped as before. -/
theorem ioMapped_congr (hq : q.toNat < 2 ^ 53)
    (hbranch : ∀ idx, idx ≠ 511 → t'.branchAt idx = t.branchAt idx) :
    IoMapped t' q x ↔ IoMapped t q x := by
  by_cases hcanonical : canonical q = true
  · -- A canonical address this small is in the lower half.
    have hhalf : q.toNat < 2 ^ 47 := by
      unfold canonical at hcanonical
      rcases Bool.or_eq_true _ _ |>.mp hcanonical with h | h
      · have hlt : q < (1 : UInt64) <<< 47 := of_decide_eq_true h
        rw [UInt64.lt_iff_toNat_lt] at hlt
        exact hlt
      · have hle : (0xFFFF800000000000 : UInt64) ≤ q := of_decide_eq_true h
        rw [UInt64.le_iff_toNat_le] at hle
        have hconst : (0xFFFF800000000000 : UInt64).toNat = 0xFFFF800000000000 := by decide
        omega
    have hidx : vaPath q 3 ≠ 511 := by
      rw [vaPath_eq _ (by omega)]
      omega
    have hsame := hbranch _ hidx
    have htranslate : translate t' q = translate t q := by
      unfold DzOS.Mem.translate
      rw [if_pos hcanonical, if_pos hcanonical, translateFrom_branchAt hsame]
    have hcache : cacheDisabled t' q = cacheDisabled t q := cacheDisabledFrom_branchAt hsame
    unfold IoMapped
    rw [htranslate, hcache]
  · -- Such an address has no translation at all.
    have hnone : ∀ u : PageTree 3, ¬ IoMapped u q x := by
      rintro u ⟨tr, htr, -⟩
      unfold DzOS.Mem.translate at htr
      rw [if_neg hcanonical] at htr
      cases htr
    exact iff_of_false (hnone t') (hnone t)

/-! ### `vmm_map_physical` -/

variable {s : KernelSpace} {physStart physEnd : UInt64}

/-- The bytes of the window that the pages of a range take. -/
def pagesBytes (physStart physEnd : UInt64) : Nat :=
  (physEnd.toNat + 4095) / 4096 * 4096 - physStart.toNat / 4096 * 4096

/-- The call maps the range: every byte of it is found behind the returned address. -/
def MapsPhysical (s : KernelSpace) (physStart physEnd : UInt64) (pages : List UInt64) : Prop :=
  ∃ v s', vmmMapPhysical s physStart physEnd pages = .ok (v, s') ∧
    ∀ x, x < physEnd - physStart → IoMapped s'.kernelPagetable (v + x) (physStart + x)

/-- The size that `vmm_map_physical` asks for. -/
def roundedSize (physStart physEnd : UInt64) : UInt64 :=
  let size := physEnd - PAGE_ROUND_DOWN physStart
  if size % PAGE_SIZE.toUInt64 ≠ 0 then PAGE_ROUND_UP size else size

/-- The rounded start lies below the start. -/
theorem toNat_sub_PAGE_ROUND_DOWN (a : UInt64) :
    (a - PAGE_ROUND_DOWN a).toNat = a.toNat - a.toNat % 2 ^ 32 / 4096 * 4096 := by
  have hlt := a.toNat_lt
  rw [UInt64.toNat_sub, toNat_PAGE_ROUND_DOWN]
  omega

/-- The size is that of the pages, unless the range lies above 4 GiB and ends at a page. -/
theorem toNat_roundedSize (hrange : physStart.toNat < physEnd.toNat)
    (hend : physEnd.toNat < 2 ^ 52) (hbytes : pagesBytes physStart physEnd ≤ 2 ^ 28) :
    (roundedSize physStart physEnd).toNat =
      if physStart.toNat < 2 ^ 32 ∨ physEnd.toNat % 4096 ≠ 0 then pagesBytes physStart physEnd
      else physEnd.toNat - physStart.toNat % 2 ^ 32 / 4096 * 4096 := by
  -- The rounded start is at most the start, and it has 32 bits.
  have hsize : (physEnd - PAGE_ROUND_DOWN physStart).toNat =
      physEnd.toNat - physStart.toNat % 2 ^ 32 / 4096 * 4096 := by
    rw [UInt64.toNat_sub, toNat_PAGE_ROUND_DOWN]
    omega
  have hmod : (physEnd - PAGE_ROUND_DOWN physStart) % PAGE_SIZE.toUInt64 ≠ 0 ↔
      physEnd.toNat % 4096 ≠ 0 := by
    rw [ne_eq, ← UInt64.toNat_inj, UInt64.toNat_mod, hsize, toNat_PAGE_SIZE_toUInt64,
      UInt64.toNat_zero]
    omega
  unfold pagesBytes at hbytes ⊢
  simp only [roundedSize, hmod]
  by_cases hal : physEnd.toNat % 4096 ≠ 0
  · rw [if_pos hal, if_pos (Or.inr hal), toNat_PAGE_ROUND_UP _ (by omega), hsize]
    omega
  · rw [if_neg hal, hsize]
    split <;> omega

/-- `vmm_io_memmap` of whole pages is its loop. -/
theorem vmmIoMemmap_pages {size : UInt64} {r : Except String (Bool × PageTree 3)}
    (hal : pa.toNat % 4096 = 0) (hsize : size.toNat = n * 4096) (hn : 0 < n)
    (hrun : ioMemmapFrom s.ioMemmapCurrentAddress pa n 0 s.kernelPagetable pages = r) :
    vmmIoMemmap s pa size pages = r.map fun p =>
      (if p.1 then some s.ioMemmapCurrentAddress else none,
        { kernelPagetable := p.2, ioMemmapCurrentAddress := s.ioMemmapCurrentAddress + size }) := by
  have hpa : ¬ pa % PAGE_SIZE.toUInt64 ≠ 0 := by
    rw [ne_eq, not_not, ← UInt64.toNat_inj, UInt64.toNat_mod, toNat_PAGE_SIZE_toUInt64,
      UInt64.toNat_zero]
    exact hal
  have hmod : ¬ size % PAGE_SIZE.toUInt64 ≠ 0 := by
    rw [ne_eq, not_not, ← UInt64.toNat_inj, UInt64.toNat_mod, hsize, toNat_PAGE_SIZE_toUInt64,
      UInt64.toNat_zero]
    exact Nat.mul_mod_left n 4096
  have hzero : ¬ size = 0 := by
    rw [← UInt64.toNat_inj, hsize, UInt64.toNat_zero]
    omega
  have hcount : (size / PAGE_SIZE.toUInt64).toNat = n := by
    rw [UInt64.toNat_div, hsize, toNat_PAGE_SIZE_toUInt64]
    omega
  rw [vmmIoMemmap, if_neg hpa, if_neg hmod, if_neg hzero, hcount]
  dsimp only
  rw [hrun]
  cases r with
  | error e => rfl
  | ok p => rfl

/-- `vmm_map_physical` is `vmm_io_memmap` of the rounded range. -/
theorem vmmMapPhysical_eq (hrange : physStart < physEnd) :
    vmmMapPhysical s physStart physEnd pages =
      (vmmIoMemmap s (PAGE_ROUND_DOWN physStart) (roundedSize physStart physEnd) pages).map fun p =>
        (p.1.getD 0 + (physStart - PAGE_ROUND_DOWN physStart), p.2) := by
  have hle : ¬ physEnd ≤ physStart := UInt64.not_le.mpr hrange
  rw [vmmMapPhysical, if_neg hle]
  unfold roundedSize PAGE_ROUND_DOWN
  dsimp only
  generalize vmmIoMemmap s (physStart &&& pageMask) _ pages = r
  cases r with
  | error e => rfl
  | ok p => rfl

/-- The addresses that `ioMemmapFrom` starts with are fresh. -/
theorem FreshWindow.absent_from (h : FreshWindow t va) :
    ∀ q : UInt64, va.toNat + 0 * 4096 ≤ q.toNat → ¬ Present t q := by
  intro q hq
  rw [Nat.zero_mul, Nat.add_zero] at hq
  exact h.absent q (UInt64.le_iff_toNat_le.mpr hq)

section Call

variable (hrange : physStart < physEnd) (hend : physEnd.toNat < 2 ^ 52)
  (hfresh : FreshWindow s.kernelPagetable s.ioMemmapCurrentAddress)
  (hfit : s.ioMemmapCurrentAddress.toNat + pagesBytes physStart physEnd ≤ 2 ^ 64)
  (hpages : 3 * ((2 ^ 64 - s.ioMemmapCurrentAddress.toNat) / 4096) ≤ pages.length)

include hrange hend hfresh hfit

omit hrange hend in
/-- A range that fits takes at most the whole window. -/
theorem pagesBytes_le : pagesBytes physStart physEnd ≤ 2 ^ 28 := by
  have hlo := hfresh.lo
  unfold IO_WINDOW at hlo
  omega

include hpages

/-- When the size is that of the pages, they are mapped from the rounded start on. -/
theorem vmmMapPhysical_run (hsize : physStart.toNat < 2 ^ 32 ∨ physEnd.toNat % 4096 ≠ 0) :
    ∃ t', vmmMapPhysical s physStart physEnd pages =
        .ok (s.ioMemmapCurrentAddress + (physStart - PAGE_ROUND_DOWN physStart),
          { kernelPagetable := t',
            ioMemmapCurrentAddress :=
              s.ioMemmapCurrentAddress + roundedSize physStart physEnd }) ∧
      WindowMapped s.kernelPagetable t' s.ioMemmapCurrentAddress (PAGE_ROUND_DOWN physStart) 0
        (pagesBytes physStart physEnd / 4096) := by
  have hbytes := pagesBytes_le hfresh hfit
  have hlt := UInt64.lt_iff_toNat_lt.mp hrange
  have hrounded := toNat_roundedSize hlt hend hbytes
  rw [if_pos hsize] at hrounded
  have hcount : pagesBytes physStart physEnd = pagesBytes physStart physEnd / 4096 * 4096 := by
    unfold pagesBytes
    omega
  have hpos : 0 < pagesBytes physStart physEnd / 4096 := by
    unfold pagesBytes
    omega
  have hwindow : s.ioMemmapCurrentAddress.toNat +
      (0 + pagesBytes physStart physEnd / 4096) * 4096 ≤ 2 ^ 64 := by
    rw [Nat.zero_add, ← hcount]
    exact hfit
  have hmemory : 3 * (pagesBytes physStart physEnd / 4096) ≤ pages.length := by omega
  have hal : (PAGE_ROUND_DOWN physStart).toNat % 4096 = 0 := by
    rw [toNat_PAGE_ROUND_DOWN]
    exact Nat.mul_mod_left _ 4096
  obtain ⟨t', hrun, hmapped⟩ := ioMemmapFrom_spec (PAGE_ROUND_DOWN physStart) hfresh.lo
    hfresh.aligned hwindow hfresh.absent_from hmemory
  refine ⟨t', ?_, hmapped⟩
  rw [vmmMapPhysical_eq hrange, vmmIoMemmap_pages hal (hrounded.trans hcount) hpos hrun]
  rfl

/-- Above 4 GiB a range that ends at a page runs over the end of the address space. -/
theorem vmmMapPhysical_wraps (hhigh : 2 ^ 32 ≤ physStart.toNat) (hal : physEnd.toNat % 4096 = 0) :
    vmmMapPhysical s physStart physEnd pages = .error "walk" := by
  have hbytes := pagesBytes_le hfresh hfit
  have hlt := UInt64.lt_iff_toNat_lt.mp hrange
  have hrounded := toNat_roundedSize hlt hend hbytes
  -- The size was not rounded up, so it counts from the start in the lowest 4 GiB.
  have hnot : ¬ (physStart.toNat < 2 ^ 32 ∨ physEnd.toNat % 4096 ≠ 0) := by omega
  rw [if_neg hnot] at hrounded
  have hcount : (roundedSize physStart physEnd).toNat =
      (roundedSize physStart physEnd).toNat / 4096 * 4096 := by
    rw [hrounded]
    omega
  have hlo := hfresh.lo
  have haligned := hfresh.aligned
  have hva := s.ioMemmapCurrentAddress.toNat_lt
  unfold IO_WINDOW at hlo
  have hbase : (PAGE_ROUND_DOWN physStart).toNat % 4096 = 0 := by
    rw [toNat_PAGE_ROUND_DOWN]
    exact Nat.mul_mod_left _ 4096
  have hwindow : s.ioMemmapCurrentAddress.toNat +
      (0 + (2 ^ 64 - s.ioMemmapCurrentAddress.toNat) / 4096) * 4096 = 2 ^ 64 := by omega
  -- This is more than the window has, wherever the window starts.
  have hmore : (2 ^ 64 - s.ioMemmapCurrentAddress.toNat) / 4096 <
      (roundedSize physStart physEnd).toNat / 4096 := by omega
  have hpos : 0 < (roundedSize physStart physEnd).toNat / 4096 := by omega
  have hrun := ioMemmapFrom_wraps (PAGE_ROUND_DOWN physStart) hfresh.lo hfresh.aligned
    hwindow hmore hfresh.absent_from hpages
  rw [vmmMapPhysical_eq hrange, vmmIoMemmap_pages hbase hcount hpos hrun]
  rfl

/-- Below 4 GiB every byte of the range is found. -/
theorem mapsPhysical_low (hlow : physStart.toNat < 2 ^ 32) :
    MapsPhysical s physStart physEnd pages := by
  obtain ⟨t', hrun, hmapped⟩ := vmmMapPhysical_run hrange hend hfresh hfit hpages (Or.inl hlow)
  refine ⟨_, _, hrun, fun x hx => ?_⟩
  have hlo := hfresh.lo
  have haligned := hfresh.aligned
  have hlt := UInt64.lt_iff_toNat_lt.mp hrange
  have hx' : x.toNat < physEnd.toNat - physStart.toNat := by
    rw [UInt64.lt_iff_toNat_lt, UInt64.toNat_sub_of_le _ _ (UInt64.le_of_lt hrange)] at hx
    exact hx
  have hround := toNat_PAGE_ROUND_DOWN physStart
  rw [Nat.mod_eq_of_lt hlow] at hround
  have hoffset := toNat_sub_PAGE_ROUND_DOWN physStart
  rw [Nat.mod_eq_of_lt hlow] at hoffset
  -- The byte lies in the `j`-th page.
  obtain ⟨j, hj⟩ : ∃ j, j = (physStart.toNat % 4096 + x.toNat) / 4096 := ⟨_, rfl⟩
  have hjn : j < 0 + pagesBytes physStart physEnd / 4096 := by
    unfold pagesBytes
    omega
  have hva : s.ioMemmapCurrentAddress.toNat + j * 4096 < 2 ^ 64 := by omega
  have hq : (s.ioMemmapCurrentAddress + (physStart - PAGE_ROUND_DOWN physStart) + x).toNat =
      s.ioMemmapCurrentAddress.toNat + (physStart.toNat % 4096 + x.toNat) := by
    unfold pagesBytes at hfit
    rw [UInt64.toNat_add, UInt64.toNat_add, hoffset]
    omega
  have hpage := toNat_windowPage hva
  have hsame : SamePage (s.ioMemmapCurrentAddress + (physStart - PAGE_ROUND_DOWN physStart) + x)
      (s.ioMemmapCurrentAddress + UInt64.ofNat j * PAGE_SIZE.toUInt64) := by
    rw [samePage_window (by omega) (by omega), hq, hpage]
    omega
  -- So the entry that the CPU finds is the one of this page.
  have hleaf := hmapped.leaf j (Nat.zero_le j) hjn
  rw [← show readLeaf t' _ = readLeaf t' _ from Radix.leaf_congr hsame] at hleaf
  have hpa : (PAGE_ROUND_DOWN physStart + UInt64.ofNat j * PAGE_SIZE.toUInt64).toNat =
      physStart.toNat / 4096 * 4096 + j * 4096 := by
    have hbase : (PAGE_ROUND_DOWN physStart).toNat + j * 4096 < 2 ^ 64 := by omega
    rw [toNat_windowPage hbase, hround]
  refine ioMapped_leaf ?_ (hmapped.opens _ (hfresh.opens _ ?_)) hleaf ?_ ?_ ?_
  · unfold canonical
    have hle : (0xFFFF800000000000 : UInt64) ≤
        s.ioMemmapCurrentAddress + (physStart - PAGE_ROUND_DOWN physStart) + x := by
      rw [UInt64.le_iff_toNat_le, hq]
      unfold IO_WINDOW at hlo
      have hconst : (0xFFFF800000000000 : UInt64).toNat = 0xFFFF800000000000 := by decide
      omega
    rw [Bool.or_eq_true]
    exact Or.inr (decide_eq_true hle)
  · rw [UInt64.le_iff_toNat_le, hq]
    omega
  · rw [hpa]
    omega
  · rw [hpa, hq, UInt64.toNat_add]
    omega
  · rw [hpa]
    omega

/-- Above 4 GiB the returned address has left the window, and the table says there what it said
before. -/
theorem mapsPhysical_high (hhigh : 2 ^ 32 ≤ physStart.toNat) (hal : physEnd.toNat % 4096 ≠ 0) :
    MapsPhysical s physStart physEnd pages ↔
      ∀ x, x < physEnd - physStart →
        IoMapped s.kernelPagetable
          (s.ioMemmapCurrentAddress + (physStart - PAGE_ROUND_DOWN physStart) + x)
          (physStart + x) := by
  obtain ⟨t', hrun, hmapped⟩ := vmmMapPhysical_run hrange hend hfresh hfit hpages (Or.inr hal)
  have hlo := hfresh.lo
  have hlt := UInt64.lt_iff_toNat_lt.mp hrange
  have hva := s.ioMemmapCurrentAddress.toNat_lt
  have hoffset := toNat_sub_PAGE_ROUND_DOWN physStart
  have hsame : ∀ x, x < physEnd - physStart →
      (IoMapped t' (s.ioMemmapCurrentAddress + (physStart - PAGE_ROUND_DOWN physStart) + x)
          (physStart + x) ↔
        IoMapped s.kernelPagetable
          (s.ioMemmapCurrentAddress + (physStart - PAGE_ROUND_DOWN physStart) + x)
          (physStart + x)) := by
    intro x hx
    rw [UInt64.lt_iff_toNat_lt, UInt64.toNat_sub_of_le _ _ (UInt64.le_of_lt hrange)] at hx
    -- The offset is at least 4 GiB, so the sum has wrapped around.
    refine ioMapped_congr ?_ hmapped.branch
    unfold IO_WINDOW at hlo
    rw [UInt64.toNat_add, UInt64.toNat_add, hoffset]
    omega
  constructor
  · rintro ⟨v, s', hcall, hbytes⟩ x hx
    obtain ⟨rfl, rfl⟩ := Prod.mk.inj (Except.ok.inj (hrun.symm.trans hcall))
    exact (hsame x hx).mp (hbytes x hx)
  · intro hold
    exact ⟨_, _, hrun, fun x hx => (hsame x hx).mpr (hold x hx)⟩

/-- A range is mapped as asked when it starts below 4 GiB. Above, the table must already map the
address that the call returns, and the range must not end at a page. -/
theorem mapsPhysical_iff :
    MapsPhysical s physStart physEnd pages ↔
      physStart.toNat < 2 ^ 32 ∨
        physEnd.toNat % 4096 ≠ 0 ∧ ∀ x, x < physEnd - physStart →
          IoMapped s.kernelPagetable
            (s.ioMemmapCurrentAddress + (physStart - PAGE_ROUND_DOWN physStart) + x)
            (physStart + x) := by
  by_cases hlow : physStart.toNat < 2 ^ 32
  · exact iff_of_true (mapsPhysical_low hrange hend hfresh hfit hpages hlow) (Or.inl hlow)
  rw [or_iff_right hlow]
  have hhigh : 2 ^ 32 ≤ physStart.toNat := Nat.not_lt.mp hlow
  by_cases hal : physEnd.toNat % 4096 = 0
  · rw [iff_false_right (fun h => h.1 hal)]
    rintro ⟨v, s', hcall, -⟩
    rw [vmmMapPhysical_wraps hrange hend hfresh hfit hpages hhigh hal] at hcall
    cases hcall
  · rw [mapsPhysical_high hrange hend hfresh hfit hpages hhigh hal, and_iff_right hal]

end Call

/-! ### The first call -/

/-- The window as it is before the first call, in a table without mappings. -/
def firstWindow : KernelSpace where
  kernelPagetable := Radix.empty 0 3
  ioMemmapCurrentAddress := 0xfffffffff0000000

/-- The table without mappings has none. -/
theorem translate_empty (q : UInt64) : translate (Radix.empty 0 3) q = none := by
  have hnone : translateFrom (Radix.empty 0 3) (vaPath q) true true true = none := by
    simp [Radix.empty, translateFrom, show pteIsPresent 0 = false by decide]
  unfold DzOS.Mem.translate
  rw [hnone, ite_self]

/-- The whole window is fresh. -/
theorem freshWindow_firstWindow :
    FreshWindow firstWindow.kernelPagetable firstWindow.ioMemmapCurrentAddress where
  aligned := by decide
  lo := by decide
  absent q _ h := by
    rw [firstWindow, present_iff, Radix.mapping_empty (by decide)] at h
    cases h
  opens q _ := Radix.onPath_empty (by decide) 3 (vaPath q)

/-- Three pages for each page of the window. -/
def windowPages : List UInt64 := List.replicate (3 * 2 ^ 16) 0

/-- They are enough. -/
theorem windowPages_enough :
    3 * ((2 ^ 64 - firstWindow.ioMemmapCurrentAddress.toNat) / 4096) ≤ windowPages.length := by
  rw [windowPages, List.length_replicate]
  decide

/-- A page of device registers below 4 GiB. -/
theorem mapsPhysical_registers : MapsPhysical firstWindow 0xfee00000 0xfee01000 windowPages :=
  (mapsPhysical_iff (by decide) (by decide) freshWindow_firstWindow (by decide)
    windowPages_enough).mpr (Or.inl (by decide))

/-- A table of 36 bytes at 4 GiB is not mapped: the call returns the address `0xf0000000`, where
nothing is. -/
theorem acpi_table_not_mapped :
    ∃ (s : KernelSpace) (physStart physEnd : UInt64) (pages : List UInt64),
      physStart < physEnd ∧ physEnd.toNat < 2 ^ 52 ∧
      FreshWindow s.kernelPagetable s.ioMemmapCurrentAddress ∧
      s.ioMemmapCurrentAddress.toNat + pagesBytes physStart physEnd ≤ 2 ^ 64 ∧
      3 * ((2 ^ 64 - s.ioMemmapCurrentAddress.toNat) / 4096) ≤ pages.length ∧
      ¬ MapsPhysical s physStart physEnd pages := by
  have hrange : (0x100000000 : UInt64) < 0x100000024 := by decide
  have hend : (0x100000024 : UInt64).toNat < 2 ^ 52 := by decide
  have hfit : firstWindow.ioMemmapCurrentAddress.toNat + pagesBytes 0x100000000 0x100000024 ≤
      2 ^ 64 := by decide
  refine ⟨firstWindow, 0x100000000, 0x100000024, windowPages, hrange, hend,
    freshWindow_firstWindow, hfit, windowPages_enough, fun h => ?_⟩
  rw [mapsPhysical_high hrange hend freshWindow_firstWindow hfit windowPages_enough (by decide)
    (by decide)] at h
  obtain ⟨tr, htr, -⟩ := h 0 (by decide)
  rw [firstWindow, translate_empty] at htr
  cases htr

end DzOS.Proofs.Mem
