import DzOS.Proofs.Mem.KernelMapping
import DzOS.Proofs.Mem.SpaceCreation
import DzOS.Proofs.Mem.UserCopy

/-!
# `DzOS.Proofs.Mem.ProcessPages`: the pages that a process has

A `PageMap` has the pages of the user, each with the permission to write. `ProcessPages t m` says
that `m` are those of the table `t`, and that no other page is mapped below the stacks. One mapping
adds its page (`ProcessPages.mapPage`), and from that the loops that map pages add a range. A new
address space has the pages of its user stack (`vmmUserPagetableNew_processPages`).

With enough memory the loop of `vmm_allocate` adds its pages, or it panics since one of them is
there already (`allocateFrom_processPages`).
-/

set_option autoImplicit false

namespace DzOS.Proofs.Mem

open DzOS.Lib DzOS.Mem DzOS.Proofs.Mem.SpaceCreation

variable {r : Int} {s : UserSpace} {size : UInt64}

/-- The pages of the user, with the permission to write. -/
abbrev PageMap := Nat → Option Bool

/-- The pages from `first` on and below `last` are mapped too. Only mappings for the user count. -/
def PageMap.add (m : PageMap) (perm : PtePermissions) (first last : Nat) : PageMap := fun page =>
  if perm.userspace = true ∧ first ≤ page ∧ page < last then some perm.writable else m page

variable {t t' : PageTree 3} {m : PageMap} {va pa : UInt64} {perm : PtePermissions}
  {pages rest : List UInt64} {k i base : Nat}

/-- `vmm_walkaddr` finds a frame for the user. -/
def Walkable (t : PageTree 3) (va : UInt64) : Prop := ∃ pa, walkAddr t va true = .ok pa ∧ pa ≠ 0

/-- A page that can be walked to is in the user half and has an entry for the user. -/
theorem walkable_iff : Walkable t va ↔ USERSPACE_VA_MIN ≤ va ∧ va < USERSPACE_VA_MAX ∧
    ∃ pte, pageEntry t va = some pte ∧ pteIsUser pte = true ∧ pteFollow pte ≠ 0 := by
  constructor
  · rintro ⟨pa, hwalk, hne⟩
    unfold walkAddr at hwalk
    split at hwalk
    · exact absurd (Except.ok.inj hwalk).symm hne
    rename_i hmax
    split at hwalk
    · cases hwalk
    · exact absurd (Except.ok.inj hwalk).symm hne
    rename_i pte hleaf
    split at hwalk
    · exact absurd (Except.ok.inj hwalk).symm hne
    rename_i hpresent
    split at hwalk
    · exact absurd (Except.ok.inj hwalk).symm hne
    rename_i huser
    have hmin : USERSPACE_VA_MIN ≤ va := by
      unfold walkUserNoAlloc at hleaf
      split at hleaf
      · cases hleaf
      rename_i hrange
      simp only [Bool.or_eq_true, decide_eq_true_eq, not_or] at hrange
      exact UInt64.not_lt.mp hrange.2
    refine ⟨hmin, UInt64.not_le.mp hmax, pte, pageEntry_eq_some.mpr ⟨?_, by simpa using hpresent⟩,
      by simpa using huser, ?_⟩
    · exact (walkUserNoAlloc_ok hleaf).symm
    · rw [Except.ok.inj hwalk]
      exact hne
  · rintro ⟨hmin, hmax, pte, hentry, huser, hne⟩
    obtain ⟨hleaf, hpresent⟩ := pageEntry_eq_some.mp hentry
    have hlow : ¬ va ≥ USERSPACE_VA_MAX := UInt64.not_le.mpr hmax
    have hrange : ((!false && decide (va ≥ USERSPACE_VA_MAX)) || decide (va < USERSPACE_VA_MIN))
        = false := by
      simp [hlow, UInt64.not_lt.mpr hmin]
    refine ⟨pteFollow pte, ?_, hne⟩
    unfold walkAddr walkUserNoAlloc
    rw [if_neg hlow, hrange, if_neg Bool.false_ne_true, hleaf]
    simp [hpresent, huser]

/-- The addresses of a page of the user half. -/
theorem samePage_iff_div {q : UInt64} (hva : va.toNat < 2 ^ 46) (hq : q.toNat < 2 ^ 46) :
    SamePage q va ↔ q.toNat / 4096 = va.toNat / 4096 := by
  rw [samePage_iff]
  omega

/-- The table has an entry for the user, with the permission `w` to write. -/
def UserEntry (t : PageTree 3) (va : UInt64) (w : Bool) : Prop :=
  ∃ pte, pageEntry t va = some pte ∧ pteIsUser pte = true ∧ pteIsWritable pte = w

/-- `m` are the pages of the user. They have frames, and below the stacks there are no others. -/
structure ProcessPages (t : PageTree 3) (m : PageMap) : Prop where
  entry : ∀ va w, m (va.toNat / 4096) = some w ↔
    USERSPACE_VA_MIN ≤ va ∧ va < USERSPACE_VA_MAX ∧ UserEntry t va w
  frame : ∀ va pte, va < USERSPACE_VA_MAX → pageEntry t va = some pte → pteIsUser pte = true →
    pteFollow pte ≠ 0
  low : ∀ va, va.toNat < 2 ^ 45 → Present t va → (m (va.toNat / 4096)).isSome

/-- The pages are those that `vmm_walkaddr` finds. -/
theorem ProcessPages.walkable (h : ProcessPages t m) (va : UInt64) :
    Walkable t va ↔ (m (va.toNat / 4096)).isSome := by
  rw [walkable_iff, Option.isSome_iff_exists]
  constructor
  · rintro ⟨hmin, hmax, pte, hentry, huser, -⟩
    exact ⟨_, (h.entry va _).mpr ⟨hmin, hmax, pte, hentry, huser, rfl⟩⟩
  · rintro ⟨w, hw⟩
    obtain ⟨hmin, hmax, pte, hentry, huser, -⟩ := (h.entry va w).mp hw
    exact ⟨hmin, hmax, pte, hentry, huser, h.frame va pte hmax hentry huser⟩

/-- The table matters only through its entries. -/
theorem ProcessPages.congr (h : ProcessPages t m) (hentry : ∀ q, pageEntry t' q = pageEntry t q) :
    ProcessPages t' m where
  entry va w := by
    rw [h.entry, UserEntry, UserEntry, hentry]
  frame va pte hmax hpte := by
    rw [hentry] at hpte
    exact h.frame va pte hmax hpte
  low va hva hp := by
    refine h.low va hva ?_
    by_contra habsent
    exact pageEntry_eq_none.mp ((hentry va).trans (pageEntry_eq_none.mpr habsent)) hp

/-- A page of the user is present. -/
theorem ProcessPages.present (h : ProcessPages t m) (hpage : (m (va.toNat / 4096)).isSome) :
    Present t va := by
  obtain ⟨-, -, pte, hentry, -⟩ := walkable_iff.mp ((h.walkable va).mpr hpage)
  by_contra habsent
  rw [pageEntry_eq_none.mpr habsent] at hentry
  cases hentry

/-! ### One mapping -/

/-- The page of one turn of a loop, and the pages behind it. -/
theorem PageMap.add_turn (m : PageMap) (perm : PtePermissions) (base i k : Nat) :
    (m.add perm (base + i) (base + i + 1)).add perm (base + (i + 1)) (base + (i + 1) + k) =
      m.add perm (base + i) (base + i + (k + 1)) := by
  funext page
  unfold PageMap.add
  by_cases huser : perm.userspace = true
  · simp only [huser, true_and]
    split_ifs <;> first | rfl | omega
  · simp [huser]

theorem PageMap.add_empty (m : PageMap) (perm : PtePermissions) (first : Nat) :
    m.add perm first first = m := by
  funext page
  unfold PageMap.add
  rw [if_neg]
  omega

/-- A mapping for the kernel. -/
theorem PageMap.add_kernel (m : PageMap) (h : perm.userspace = false) (first last : Nat) :
    m.add perm first last = m := by
  funext page
  unfold PageMap.add
  rw [if_neg]
  rintro ⟨huser, -⟩
  rw [h] at huser
  cases huser

/-- A frame that `pte_follow` leads to. -/
structure MappableFrame (pa : UInt64) : Prop where
  aligned : pa.toNat % 4096 = 0
  lt : pa.toNat < 2 ^ 52
  ne_zero : pa ≠ 0

/-- A mapping for the user adds its page. Other mappings are above the segments of a program. -/
theorem ProcessPages.mapPage (h : ProcessPages t m) (hwalk : Walked t t' va true pages rest)
    (hfree : ¬ leafPresent t' va = true) (hframe : MappableFrame pa)
    (hva : va.toNat = base * 4096) (hmin : USERSPACE_VA_MIN ≤ va) (hmax : va < USERSPACE_VA_MAX)
    (hlow : perm.userspace = true ∨ 2 ^ 45 ≤ va.toNat) :
    ProcessPages (writeLeaf t' va (buildPte pa perm)) (m.add perm base (base + 1)) := by
  obtain ⟨hpresent, huser, hwritable, -⟩ := buildPte_flags pa perm
  have hentry : ∀ q, pageEntry (writeLeaf t' va (buildPte pa perm)) q
      = if SamePage q va then some (buildPte pa perm) else pageEntry t q := by
    intro q
    rw [pageEntry_writeLeaf (hwalk.slot rfl) hpresent, hwalk.entry]
  have hfollow : pteFollow (buildPte pa perm) ≠ 0 := by
    rw [pteFollow_buildPte perm hframe.aligned hframe.lt]
    exact hframe.ne_zero
  have hfresh : m base = none := by
    by_contra hbase
    refine hfree ((h.congr hwalk.entry).present ?_)
    rw [hva, Nat.mul_div_cancel _ (by decide)]
    exact Option.isSome_iff_ne_none.mpr hbase
  have hmin' := UInt64.le_iff_toNat_le.mp hmin
  have hmax' := UInt64.lt_iff_toNat_lt.mp hmax
  rw [toNat_USERSPACE_VA_MIN] at hmin'
  rw [toNat_USERSPACE_VA_MAX] at hmax'
  have hdiv : va.toNat / 4096 = base := by omega
  have hother : ∀ page, page ≠ base → m.add perm base (base + 1) page = m page := by
    intro page hne
    refine if_neg ?_
    rintro ⟨-, h1, h2⟩
    omega
  constructor
  · intro q w
    by_cases hsame : q.toNat / 4096 = base
    · -- The new page: it is found if it is mapped for the user.
      have hqmin : USERSPACE_VA_MIN ≤ q := by
        rw [UInt64.le_iff_toNat_le, toNat_USERSPACE_VA_MIN]
        omega
      have hqmax : q < USERSPACE_VA_MAX := by
        rw [UInt64.lt_iff_toNat_lt, toNat_USERSPACE_VA_MAX]
        omega
      have hpage : SamePage q va := (samePage_iff_div hmax' (by omega)).mpr (by omega)
      have hnew : m.add perm base (base + 1) base
          = if perm.userspace = true then some perm.writable else none := by
        simp [PageMap.add, hfresh]
      rw [UserEntry, hentry, if_pos hpage, hsame, hnew]
      constructor
      · intro hw
        split at hw
        · rename_i hu
          exact ⟨hqmin, hqmax, _, rfl, huser.trans hu, hwritable.trans (Option.some.inj hw)⟩
        · cases hw
      · rintro ⟨-, -, pte, hpte, hu, hw⟩
        cases hpte
        rw [if_pos (huser.symm.trans hu), ← hwritable, hw]
    · rw [hother _ hsame, h.entry]
      refine and_congr_right fun _ => and_congr_right fun hqmax => ?_
      have hqmax' := UInt64.lt_iff_toNat_lt.mp hqmax
      rw [toNat_USERSPACE_VA_MAX] at hqmax'
      rw [UserEntry, UserEntry, hentry,
        if_neg (by rw [samePage_iff_div hmax' hqmax', hdiv]; exact hsame)]
  · intro q pte hqmax hpte hu
    rw [hentry] at hpte
    split at hpte
    · cases hpte
      exact hfollow
    · exact h.frame q pte hqmax hpte hu
  · intro q hq hp
    by_cases hpage : SamePage q va
    · have hsame : q.toNat / 4096 = base := by
        rw [← hdiv]
        exact (samePage_iff_div hmax' (by omega)).mp hpage
      rcases hlow with hlow | hlow
      · rw [hsame, PageMap.add, if_pos ⟨hlow, Nat.le_refl _, Nat.lt_succ_self _⟩]
        rfl
      · omega
    · have hne : q.toNat / 4096 ≠ base := by
        rw [← hdiv]
        exact fun hsame => hpage ((samePage_iff_div hmax' (by omega)).mpr hsame)
      rw [hother _ hne]
      refine h.low q hq ?_
      by_contra habsent
      refine pageEntry_eq_none.mp ?_ hp
      rw [hentry, if_neg hpage]
      exact pageEntry_eq_none.mpr habsent

/-! ### The loops -/

/-- A walk on a user address with memory for three tables. -/
theorem walkUser_succeeds {io : Bool} (hmin : USERSPACE_VA_MIN ≤ va) (hmax : va < USERSPACE_VA_MAX)
    (hpages : 3 ≤ pages.length) :
    ∃ t' rest, walkUser t va io pages = .ok (true, t', rest) ∧ pages.length ≤ rest.length + 3 := by
  rcases hext : extendPath (PTE_P ||| PTE_W ||| PTE_U) t va pages with ⟨ok, t', rest⟩
  have hrange : ((!io && decide (va ≥ USERSPACE_VA_MAX)) || decide (va < USERSPACE_VA_MIN))
      = false := by
    simp [UInt64.not_le.mpr hmax, UInt64.not_lt.mpr hmin]
  have hwalk : walkUser t va io pages = .ok (ok, t', rest) := by
    rw [walkUser, hrange, if_neg Bool.false_ne_true, hext]
  obtain ⟨rfl, hlen⟩ := (walkUser_walkKept hwalk).enough hpages
  exact ⟨t', rest, hwalk, hlen⟩

/-- None of the pages from `first` on and below `last` is mapped. -/
def Unmapped (m : PageMap) (first last : Nat) : Prop :=
  ∀ page, first ≤ page → page < last → m page = none

instance (m : PageMap) (first last : Nat) : Decidable (Unmapped m first last) :=
  decidable_of_iff (∀ j < last - first, m (first + j) = none) <| by
    constructor
    · intro h page h1 h2
      obtain ⟨j, rfl⟩ := Nat.exists_eq_add_of_le h1
      exact h j (by omega)
    · intro h j hj
      exact h _ (by omega) (by omega)

/-- What `vmm_allocate` does to an address space that has the memory for `k` pages. -/
structure PagesAdded (s s' : UserSpace) (m : PageMap) (perm : PtePermissions) (first k : Nat) :
    Prop where
  pages : ProcessPages s'.pagetable (m.add perm first (first + k))
  supply : s'.pages <:+ s.pages
  memory : s.pages.length ≤ s'.pages.length + 4 * k

/-- The pages of a user range are in the user window. -/
theorem userPage_window (hva : va.toNat = base * 4096) (hlo : 0x400000 ≤ va.toNat)
    (hhi : (base + i) * 4096 < 2 ^ 46) :
    (va + UInt64.ofNat i * PAGE_SIZE.toUInt64).toNat = (base + i) * 4096 ∧
      USERSPACE_VA_MIN ≤ va + UInt64.ofNat i * PAGE_SIZE.toUInt64 ∧
      va + UInt64.ofNat i * PAGE_SIZE.toUInt64 < USERSPACE_VA_MAX := by
  have hcurrent : (va + UInt64.ofNat i * PAGE_SIZE.toUInt64).toNat = (base + i) * 4096 := by
    rw [toNat_block_page (by omega), hva, Nat.add_mul]
  rw [UInt64.le_iff_toNat_le, UInt64.lt_iff_toNat_lt, toNat_USERSPACE_VA_MIN,
    toNat_USERSPACE_VA_MAX, hcurrent]
  omega

/-- The loop of `vmm_allocate` with enough memory. It panics if one of the pages is there. -/
theorem allocateFrom_processPages {clear : Bool} (h : ProcessPages s.pagetable m)
    (huser : perm.userspace = true) (hva : va.toNat = base * 4096) (hmin : USERSPACE_VA_MIN ≤ va)
    (hmax : (base + i + k) * 4096 ≤ 2 ^ 45) (hframes : ∀ p ∈ s.pages, MappableFrame p)
    (hmemory : 4 * k ≤ s.pages.length) :
    (Unmapped m (base + i) (base + i + k) ∧ ∃ s', allocateFrom va perm clear k i s = .ok (0, s') ∧
        PagesAdded s s' m perm (base + i) k) ∨
      (¬ Unmapped m (base + i) (base + i + k) ∧
        allocateFrom va perm clear k i s = .error "vmm_allocate: remap") := by
  induction k generalizing i s m with
  | zero =>
    refine Or.inl ⟨fun page h1 h2 => absurd h1 (by omega), s, rfl, ?_⟩
    exact ⟨by rw [Nat.add_zero, PageMap.add_empty]; exact h, List.suffix_refl _, Nat.le_refl _⟩
  | succ k ih =>
    rw [UInt64.le_iff_toNat_le, toNat_USERSPACE_VA_MIN] at hmin
    obtain ⟨hcurrent, hlo, hhi⟩ :=
      userPage_window hva hmin (show (base + i) * 4096 < 2 ^ 46 by omega)
    have hfirst : base + i < base + i + (k + 1) := by omega
    unfold allocateFrom
    dsimp only
    cases hpages : s.pages with
    | nil =>
      rw [hpages] at hmemory
      cases hmemory
    | cons frame pages =>
      rw [hpages, List.length_cons] at hmemory
      rw [hpages] at hframes
      have hwalks : ∃ t₁ rest, walkUser s.pagetable (va + UInt64.ofNat i * PAGE_SIZE.toUInt64) false
          pages = .ok (true, t₁, rest) ∧ pages.length ≤ rest.length + 3 :=
        walkUser_succeeds hlo hhi (by omega)
      obtain ⟨t₁, rest, hwalk, hlen⟩ := hwalks
      have hwalked := walkUser_walked hwalk
      have hsame := h.congr hwalked.entry
      simp only [hwalk]
      by_cases hfree : leafPresent t₁ (va + UInt64.ofNat i * PAGE_SIZE.toUInt64) = true
      · -- The page is there already.
        have hpage := hsame.low _ (by rw [hcurrent]; omega) hfree
        rw [hcurrent, Nat.mul_div_cancel _ (by decide)] at hpage
        rw [if_pos hfree]
        refine Or.inr ⟨fun hunmapped => ?_, rfl⟩
        rw [hunmapped _ (Nat.le_refl _) hfirst] at hpage
        cases hpage
      · rw [if_neg hfree]
        obtain ⟨s₁, hs₁⟩ : ∃ s₁ : UserSpace, s₁ = ⟨writeLeaf t₁
            (va + UInt64.ofNat i * PAGE_SIZE.toUInt64) (buildPte frame perm),
            s.mem.fill frame.toNat 4096 (if clear || s.recycled frame then 0 else 2), rest, s.freed,
            s.recycled⟩ := ⟨_, rfl⟩
        rw [← hs₁]
        have htable : s₁.pagetable = writeLeaf t₁ (va + UInt64.ofNat i * PAGE_SIZE.toUInt64)
            (buildPte frame perm) := congrArg UserSpace.pagetable hs₁
        have hsupply : s₁.pages = rest := congrArg UserSpace.pages hs₁
        have hone : ProcessPages s₁.pagetable (m.add perm (base + i) (base + i + 1)) := by
          rw [htable]
          exact h.mapPage hwalked hfree (hframes frame List.mem_cons_self) hcurrent hlo hhi
            (Or.inl huser)
        have hfresh : m (base + i) = none := by
          by_contra hpage
          refine hfree (hsame.present ?_)
          rw [hcurrent, Nat.mul_div_cancel _ (by decide)]
          exact Option.isSome_iff_ne_none.mpr hpage
        -- The pages behind this one are unmapped if they were before.
        have hrange : Unmapped m (base + i) (base + i + (k + 1)) ↔
            Unmapped (m.add perm (base + i) (base + i + 1)) (base + (i + 1))
              (base + (i + 1) + k) := by
          have hsame : ∀ page, base + i < page →
              m.add perm (base + i) (base + i + 1) page = m page := by
            intro page hlt
            refine if_neg ?_
            rintro ⟨-, h1, h2⟩
            omega
          constructor
          · intro hall page h1 h2
            rw [hsame page (by omega)]
            exact hall page (by omega) (by omega)
          · intro hall page h1 h2
            rcases Nat.eq_or_lt_of_le h1 with rfl | hlt
            · exact hfresh
            · rw [← hsame page hlt]
              exact hall page (by omega) (by omega)
        have hnext : (base + (i + 1) + k) * 4096 ≤ 2 ^ 45 := by
          have hshift : base + (i + 1) + k = base + i + (k + 1) := by omega
          rw [hshift]
          exact hmax
        have hrest := ih hone hnext
          (fun p hp => hframes p (List.mem_cons_of_mem _ (hwalked.supply.subset (hsupply ▸ hp))))
          (by rw [hsupply]; omega)
        rw [hrange]
        rcases hrest with ⟨hunmapped, s', hrun, hadded⟩ | ⟨hmapped, hrun⟩
        · refine Or.inl ⟨hunmapped, s', hrun, ?_⟩
          constructor
          · rw [← PageMap.add_turn]
            exact hadded.pages
          · rw [hpages]
            have htail := hadded.supply
            rw [hsupply] at htail
            exact (htail.trans hwalked.supply).trans (List.suffix_cons _ _)
          · have hmore := hadded.memory
            rw [hsupply] at hmore
            rw [hpages, List.length_cons]
            omega
        · exact Or.inr ⟨hmapped, hrun⟩

/-- `vmm_allocate` of whole pages with enough memory. -/
theorem vmmAllocate_processPages (perm : PtePermissions) (clear : Bool)
    (h : ProcessPages s.pagetable m) (huser : perm.userspace = true) (hva : va.toNat = base * 4096)
    (hsize : size.toNat = k * 4096) (hmin : USERSPACE_VA_MIN ≤ va)
    (hmax : (base + k) * 4096 ≤ 2 ^ 45) (hframes : ∀ p ∈ s.pages, MappableFrame p)
    (hmemory : 4 * k ≤ s.pages.length) :
    (0 < k ∧ Unmapped m base (base + k) ∧ ∃ s', s.vmmAllocate va size perm clear = .ok (0, s') ∧
        PagesAdded s s' m perm base k) ∨
      (¬ (0 < k ∧ Unmapped m base (base + k)) ∧
        (s.vmmAllocate va size perm clear = .error "vmm_allocate: size" ∨
          s.vmmAllocate va size perm clear = .error "vmm_allocate: remap")) := by
  have hal : ∀ a : UInt64, ∀ n, a.toNat = n * 4096 → ¬ a % PAGE_SIZE.toUInt64 ≠ 0 := by
    intro a n ha
    rw [not_not, ← UInt64.toNat_inj, UInt64.toNat_mod, toNat_PAGE_SIZE_toUInt64, ha,
      UInt64.toNat_zero]
    exact Nat.mul_mod_left n 4096
  unfold UserSpace.vmmAllocate
  rw [if_neg (hal va base hva), if_neg (hal size k hsize)]
  by_cases hzero : k = 0
  · have hsize0 : size = 0 := by
      rw [← UInt64.toNat_inj, hsize, hzero, UInt64.toNat_zero]
    rw [if_pos hsize0]
    exact Or.inr ⟨fun hk => Nat.ne_of_gt hk.1 hzero, Or.inl rfl⟩
  · have hsize0 : ¬ size = 0 := by
      intro hs
      rw [hs, UInt64.toNat_zero] at hsize
      omega
    have hcount : (size / PAGE_SIZE.toUInt64).toNat = k := by
      rw [UInt64.toNat_div, hsize, toNat_PAGE_SIZE_toUInt64]
      omega
    rw [if_neg hsize0, hcount]
    rcases allocateFrom_processPages (i := 0) h huser hva hmin (by omega) hframes hmemory with
      ⟨hunmapped, s', hrun, hadded⟩ | ⟨hmapped, hrun⟩
    · exact Or.inl ⟨Nat.pos_of_ne_zero hzero, hunmapped, s', hrun, hadded⟩
    · exact Or.inr ⟨fun hk => hmapped hk.2, Or.inr hrun⟩

/-- The loop of `vmm_map_pages` above the segments, when memory is left. -/
theorem mapPagesFrom_processPages (h : ProcessPages t m) (hva : va.toNat = base * 4096)
    (hlow : 2 ^ 45 ≤ va.toNat) (hmax : (base + i + k) * 4096 ≤ 2 ^ 46)
    (hframes : ∀ j < i + k, MappableFrame (pa + UInt64.ofNat j * PAGE_SIZE.toUInt64))
    (hrun : mapPagesFrom va pa perm k i t pages = .ok (r, t', rest)) (hrest : rest ≠ []) :
    ProcessPages t' (m.add perm (base + i) (base + i + k)) := by
  induction k generalizing i t pages m with
  | zero =>
    cases hrun
    rw [Nat.add_zero, PageMap.add_empty]
    exact h
  | succ k ih =>
    obtain ⟨hcurrent, hlo, hhi⟩ := userPage_window hva (by omega)
      (show (base + i) * 4096 < 2 ^ 46 by omega)
    unfold mapPagesFrom at hrun
    dsimp only at hrun
    split at hrun
    · cases hrun
    · rename_i t₁ rest₁ hwalk
      cases hrun
      exact absurd ((walkUser_walked hwalk).out rfl) hrest
    · rename_i t₁ rest₁ hwalk
      split at hrun
      · cases hrun
      rename_i hfree
      have habove : perm.userspace = true ∨
          2 ^ 45 ≤ (va + UInt64.ofNat i * PAGE_SIZE.toUInt64).toNat := by
        rw [hcurrent]
        omega
      have hone := h.mapPage (walkUser_walked hwalk) hfree (hframes i (by omega)) hcurrent hlo hhi
        habove
      have hnext : (base + (i + 1) + k) * 4096 ≤ 2 ^ 46 := by
        have hshift : base + (i + 1) + k = base + i + (k + 1) := by omega
        rw [hshift]
        exact hmax
      rw [← PageMap.add_turn]
      exact ih hone hnext (fun j hj => hframes j (by omega)) hrun

/-! ### A new address space -/

/-- The user half of a table without entries has no pages. -/
theorem processPages_of_empty (h : UserHalfEmpty t) : ProcessPages t fun _ => none := by
  have hnone : ∀ va, va < USERSPACE_VA_MAX → pageEntry t va = none := by
    intro va hva
    cases t with
    | node e c =>
      have hbranch : pteIsPresent (e (vaPath va 3)) = false := h _ (vaPath_user hva)
      have hleaf : readLeaf (.node e c) va = none := by
        show (if pteIsPresent (e (vaPath va 3)) then _ else none) = none
        rw [hbranch]
        exact if_neg Bool.false_ne_true
      show (readLeaf (.node e c) va).filter pteIsPresent = none
      rw [hleaf]
      rfl
  constructor
  · intro va w
    refine iff_of_false (fun hsome => by cases hsome) ?_
    rintro ⟨-, hmax, pte, hentry, -⟩
    rw [hnone va hmax] at hentry
    cases hentry
  · intro va pte hmax hentry
    rw [hnone va hmax] at hentry
    cases hentry
  · intro va hva hp
    refine absurd hp (pageEntry_eq_none.mp (hnone va ?_))
    rw [UInt64.lt_iff_toNat_lt, toNat_USERSPACE_VA_MAX]
    omega

/-- The pages of a new address space: those of the user stack. -/
def newPageMap : PageMap :=
  PageMap.add (fun _ => none) userStackPermissions (USER_STACK_BOTTOM.toNat / 4096)
    (USER_STACK_TOP.toNat / 4096)

/-- A page of the allocator, which is also the first one of a block of eight pages. Nothing is
allocated at the physical address 0. -/
structure BlockFrame (pa : UInt64) : Prop where
  aligned : pa.toNat % 4096 = 0
  lt : pa.toNat + 8 * 4096 ≤ 2 ^ 52
  ne_zero : pa ≠ 0

theorem BlockFrame.page (h : BlockFrame pa) {j : Nat} (hj : j < 8) :
    MappableFrame (pa + UInt64.ofNat j * PAGE_SIZE.toUInt64) := by
  have hlt := h.lt
  have hal := h.aligned
  have hpa : (pa + UInt64.ofNat j * PAGE_SIZE.toUInt64).toNat = pa.toNat + j * 4096 :=
    toNat_block_page (by omega)
  have hne : pa.toNat ≠ 0 := fun hzero => h.ne_zero (UInt64.toNat_inj.mp hzero)
  constructor
  · omega
  · omega
  · intro hzero
    rw [hzero, UInt64.toNat_zero] at hpa
    omega

theorem BlockFrame.mappable (h : BlockFrame pa) : MappableFrame pa :=
  ⟨h.aligned, by have hlt := h.lt; omega, h.ne_zero⟩

/-- `vmm_map_pages` of eight pages of a stack, when memory is left. -/
theorem vmmMapPages_stack (base : Nat) (h : ProcessPages t m) (hva : va.toNat = base * 4096)
    (hlow : 2 ^ 45 ≤ va.toNat) (hmax : (base + 8) * 4096 ≤ 2 ^ 46) (hsize : size = 0x8000)
    (hframe : BlockFrame pa) (hrun : vmmMapPages t va size pa perm pages = .ok (r, t', rest))
    (hrest : rest ≠ []) : ProcessPages t' (m.add perm base (base + 8)) := by
  have hloop := vmmMapPages_loop hrun
  have hcount : (size / PAGE_SIZE.toUInt64).toNat = 8 := by
    rw [hsize]
    decide
  rw [hcount] at hloop
  have hmapped := mapPagesFrom_processPages (i := 0) h hva hlow (by rw [Nat.add_zero]; exact hmax)
    (fun j hj => hframe.page (by omega)) hloop hrest
  rw [Nat.add_zero] at hmapped
  exact hmapped

/-- The user has the pages of the user stack in a new address space. -/
theorem vmmUserPagetableNew_processPages (hempty : UserHalfEmpty t)
    (hframes : ∀ p ∈ pages, BlockFrame p)
    (h : vmmUserPagetableNew t pages = .ok (some t', rest)) (hrest : rest ≠ []) :
    ProcessPages t' newPageMap := by
  obtain ⟨root, copied, t₀, userStack, intStack, syscallStack, more, rfl, hcopy, hmap⟩ :=
    vmmUserPagetableNew_parts h
  have hsupply := copyPagetable_supply hcopy
  have hframe : ∀ p ∈ [userStack, intStack, syscallStack], BlockFrame p := by
    intro p hp
    refine hframes p (List.mem_cons_of_mem _ (hsupply.subset ?_))
    exact List.mem_append_left more hp
  obtain ⟨_, t₁, rest₁, _, t₂, rest₂, _, h₁, h₂, h₃⟩ := mapUserStacks_parts hmap
  have hrest₂ : rest₂ ≠ [] := by
    intro hnil
    have hsuffix := (vmmMapPages_entries h₃).1.supply
    rw [hnil] at hsuffix
    exact hrest (List.suffix_nil.mp hsuffix)
  have hrest₁ : rest₁ ≠ [] := by
    intro hnil
    have hsuffix := (vmmMapPages_entries h₂).1.supply
    rw [hnil] at hsuffix
    exact hrest₂ (List.suffix_nil.mp hsuffix)
  have hstack := vmmMapPages_stack (USER_STACK_BOTTOM.toNat / 4096)
    (processPages_of_empty (copyPagetable_account hempty hcopy).1)
    (by decide) (by decide) (by decide) rfl (hframe _ (by simp)) h₁ hrest₁
  have hint := vmmMapPages_stack (INTSTACK_VIRTUAL_ADDRESS_BOTTOM.toNat / 4096) hstack
    (by decide) (by decide) (by decide) rfl (hframe _ (by simp)) h₂ hrest₂
  have hsyscall := vmmMapPages_stack (SYSCALLSTACK_VIRTUAL_ADDRESS_BOTTOM.toNat / 4096) hint
    (by decide) (by decide) (by decide) rfl (hframe _ (by simp)) h₃ hrest
  rw [PageMap.add_kernel _ rfl, PageMap.add_kernel _ rfl] at hsyscall
  exact hsyscall

end DzOS.Proofs.Mem
