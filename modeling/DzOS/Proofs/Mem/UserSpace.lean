import DzOS.Lib.Outcome
import DzOS.Mem.UserSpace
import DzOS.Proofs.Mem.KernelHalf
import DzOS.Proofs.Mem.PageTableUpdate

/-!
# `DzOS.Proofs.Mem.UserSpace`: how an address space grows

`pageEntry` is the present entry of a page in the last level. The functions that map user pages
panic where there is one already, so they keep every entry that is there (`Keeps`), and the pages
that they map have the entries of `buildPte`. The supply of pages only shrinks.

`mapPagesFrom_entries` and `allocateFrom_entries` say this for the two loops, and
`vmmUserPagetableNew_entries` says that a new table has a user stack unless the memory is out.
-/

set_option autoImplicit false

namespace DzOS.Proofs.Mem

open DzOS.Lib DzOS.Mem

variable {i n k : Nat} {r : Int} {clear : Bool} {pa size v va : UInt64}
  {perm permissions : PtePermissions} {s s' : UserSpace} {t t' t'' : PageTree 3}
  {pages rest : List UInt64}

/-- The present entry of the page of an address. -/
def pageEntry (t : PageTree 3) (va : UInt64) : Option UInt64 := t.mapping pteIsPresent (vaPath va)

/-- Every entry stays. -/
def Keeps (t t' : PageTree 3) : Prop :=
  ∀ q pte, pageEntry t q = some pte → pageEntry t' q = some pte

theorem Keeps.refl (t : PageTree 3) : Keeps t t := fun _ _ h => h

theorem Keeps.trans (h : Keeps t t') (h' : Keeps t' t'') : Keeps t t'' :=
  fun q pte hq => h' q pte (h q pte hq)

/-! ### Entries -/

/-- The entry of a page is what the walk finds, if it is present. -/
theorem pageEntry_eq_some {pte : UInt64} :
    pageEntry t va = some pte ↔ readLeaf t va = some pte ∧ pteIsPresent pte = true := by
  show (readLeaf t va).filter pteIsPresent = some pte ↔ _
  rw [Option.filter_eq_some_iff]

/-- A page without an entry is not present. -/
theorem pageEntry_eq_none : pageEntry t va = none ↔ ¬ Present t va := by
  rw [present_iff, pageEntry, Option.not_isSome_iff_eq_none]

/-- The entry depends on the page only. -/
theorem pageEntry_congr {va' : UInt64} (t : PageTree 3) (h : SamePage va va') :
    pageEntry t va = pageEntry t va' := by
  rw [pageEntry, pageEntry, Radix.mapping, Radix.mapping, Radix.leaf_congr h]

/-- Writing the entry of a page changes this page only. -/
theorem pageEntry_writeLeaf (h : (readLeaf t va).isSome) (hv : pteIsPresent v = true) (q : UInt64) :
    pageEntry (writeLeaf t va v) q = if SamePage q va then some v else pageEntry t q := by
  have hmap : pageEntry (writeLeaf t va v) q =
      if SamePage q va then (some v).filter pteIsPresent else pageEntry t q :=
    Radix.mapping_setLeaf h v (vaPath q)
  rw [hmap]
  simp [Option.filter, hv]

/-- What a walk with allocation does: the entries are the same, the page has a slot when the
memory was enough, and the supply shrinks. -/
structure Walked (t t' : PageTree 3) (va : UInt64) (ok : Bool) (pages rest : List UInt64) :
    Prop where
  entry : ∀ q, pageEntry t' q = pageEntry t q
  slot : ok = true → (readLeaf t' va).isSome
  supply : rest <:+ pages
  out : ok = false → rest = []

/-- Making a path takes its tables from the front of the supply, which is empty when it was not
enough. -/
theorem extend_supply {A : Type} (mk : A → UInt64) (t : PageTree n) (p : Nat → Nat)
    (supply : List A) :
    (t.extend pteIsPresent mk 0 p supply).2.2 <:+ supply ∧
      ((t.extend pteIsPresent mk 0 p supply).1 = false →
        (t.extend pteIsPresent mk 0 p supply).2.2 = []) := by
  induction n generalizing supply with
  | zero =>
    cases t with
    | leaves e => exact ⟨List.suffix_refl _, fun h => by cases h⟩
  | succ n ih =>
    cases t with
    | node e c =>
      unfold Radix.extend
      split
      · exact ih _ supply
      · split
        · exact ⟨List.suffix_refl _, fun _ => rfl⟩
        · rename_i a supply'
          obtain ⟨hsuffix, hout⟩ := ih (Radix.empty 0 n) supply'
          exact ⟨hsuffix.trans (List.suffix_cons a supply'), hout⟩

/-- A walk on a user address. -/
theorem walkUser_walked {io ok : Bool} (h : walkUser t va io pages = .ok (ok, t', rest)) :
    Walked t t' va ok pages rest := by
  unfold walkUser at h
  split at h
  · cases h
  have heq := Except.ok.inj h
  have hok : (extendPath (PTE_P ||| PTE_W ||| PTE_U) t va pages).1 = ok := by rw [heq]
  have ht : (extendPath (PTE_P ||| PTE_W ||| PTE_U) t va pages).2.1 = t' := by rw [heq]
  have hrest : (extendPath (PTE_P ||| PTE_W ||| PTE_U) t va pages).2.2 = rest := by rw [heq]
  obtain ⟨hsuffix, hout⟩ := extend_supply
    (fun pa => PTE_P ||| PTE_W ||| PTE_U ||| PTE_SET_ADDR pa) t (vaPath va) pages
  constructor
  · intro q
    rw [← ht]
    exact Radix.mapping_extend (fun pa => (tableEntry_flags (by decide) (by decide) pa).1)
      (by decide) t (vaPath va) pages (vaPath q)
  · intro hmore
    rw [← ht]
    exact readLeaf_extendPath (by decide) (by decide) (hok.trans hmore)
  · rw [← hrest]
    exact hsuffix
  · intro hless
    rw [← hrest]
    exact hout (hok.trans hless)

/-- The flags of an entry that `buildPte` makes. -/
def buildFlags (perm : PtePermissions) : UInt64 :=
  PTE_P ||| (if perm.writable then PTE_W else 0) ||| (if perm.executable then 0 else PTE_XD) |||
    (if perm.userspace then PTE_U else 0)

/-- The entry that `buildPte` makes, as flags and an address. -/
theorem buildPte_eq (frame : UInt64) (perm : PtePermissions) :
    buildPte frame perm = buildFlags perm ||| PTE_SET_ADDR frame := by
  obtain ⟨w, x, u⟩ := perm
  unfold buildPte buildFlags
  cases w <;> cases x <;> cases u
  all_goals
    simp only [if_true, if_false, Bool.false_eq_true, UInt64.or_zero, Bool.not_true,
      Bool.not_false]
    try ac_rfl

/-- The flags of the entry are those that were asked for. -/
theorem buildPte_flags (frame : UInt64) (perm : PtePermissions) :
    pteIsPresent (buildPte frame perm) = true ∧
      pteIsUser (buildPte frame perm) = perm.userspace ∧
      pteIsWritable (buildPte frame perm) = perm.writable ∧
      pteIsExecutable (buildPte frame perm) = perm.executable := by
  have hP : PTE_ADDR_MASK &&& PTE_P = 0 := by decide
  have hU : PTE_ADDR_MASK &&& PTE_U = 0 := by decide
  have hW : PTE_ADDR_MASK &&& PTE_W = 0 := by decide
  have hXD : PTE_ADDR_MASK &&& PTE_XD = 0 := by decide
  obtain ⟨w, x, u⟩ := perm
  rw [buildPte_eq]
  unfold pteIsPresent pteIsUser pteIsWritable pteIsExecutable
  rw [flags_and_addr hP, flags_and_addr hU, flags_and_addr hW, flags_and_addr hXD]
  cases w <;> cases x <;> cases u <;> decide

/-- The entry leads to its frame. -/
theorem pteFollow_buildPte {frame : UInt64} (perm : PtePermissions)
    (hal : frame.toNat % 4096 = 0) (hlt : frame.toNat < 2 ^ 52) :
    pteFollow (buildPte frame perm) = frame := by
  have hflags : buildFlags perm &&& PTE_ADDR_MASK = 0 := by
    obtain ⟨w, x, u⟩ := perm
    cases w <;> cases x <;> cases u <;> decide
  have hP : buildFlags perm &&& PTE_P = PTE_P := by
    obtain ⟨w, x, u⟩ := perm
    cases w <;> cases x <;> cases u <;> decide
  rw [buildPte_eq]
  exact (pte_flags_addr _ hflags hP hal hlt).2

/-! ### Mapping pages -/

/-- One turn of the loops that map a page: the page is mapped, and no entry is lost. -/
theorem keeps_map_one (hv : pteIsPresent v = true) (hwalk : Walked t t' va true pages rest)
    (hfree : ¬ leafPresent t' va = true) :
    Keeps t (writeLeaf t' va v) ∧ pageEntry (writeLeaf t' va v) va = some v := by
  have hwrite := pageEntry_writeLeaf (hwalk.slot rfl) hv
  refine ⟨fun q pte hq => ?_, by rw [hwrite, if_pos (samePage_refl va)]⟩
  have hne : ¬ SamePage q va := by
    intro hsame
    rw [← hwalk.entry, pageEntry_congr t' hsame, pageEntry_eq_none.mpr hfree] at hq
    cases hq
  rw [hwrite, if_neg hne, hwalk.entry]
  exact hq

/-- What every function that maps user pages does to the table and the supply. -/
structure Grown (t t' : PageTree 3) (pages rest : List UInt64) : Prop where
  keeps : Keeps t t'
  supply : rest <:+ pages

theorem Grown.refl (t : PageTree 3) (pages : List UInt64) : Grown t t pages pages :=
  ⟨Keeps.refl t, List.suffix_refl pages⟩

theorem Grown.trans {rest' : List UInt64} (h : Grown t t' pages rest)
    (h' : Grown t' t'' rest rest') : Grown t t'' pages rest' :=
  ⟨h.keeps.trans h'.keeps, h'.supply.trans h.supply⟩

/-- The loop of `vmm_map_pages`. It maps all pages, or the memory is out. -/
theorem mapPagesFrom_entries (h : mapPagesFrom va pa perm k i t pages = .ok (r, t', rest)) :
    Grown t t' pages rest ∧
      (rest = [] ∨ ∀ j < k, pageEntry t' (va + UInt64.ofNat (i + j) * PAGE_SIZE.toUInt64)
        = some (buildPte (pa + UInt64.ofNat (i + j) * PAGE_SIZE.toUInt64) perm)) := by
  induction k generalizing i t pages with
  | zero =>
    cases h
    exact ⟨Grown.refl _ _, Or.inr fun j hj => absurd hj (Nat.not_lt_zero j)⟩
  | succ k ih =>
    unfold mapPagesFrom at h
    dsimp only at h
    split at h
    · cases h
    · rename_i t₁ rest₁ hwalk
      have hwalked := walkUser_walked hwalk
      cases h
      refine ⟨⟨fun q pte hq => ?_, hwalked.supply⟩, Or.inl (hwalked.out rfl)⟩
      rw [hwalked.entry]
      exact hq
    · rename_i t₁ rest₁ hwalk
      have hwalked := walkUser_walked hwalk
      split at h
      · cases h
      rename_i hfree
      obtain ⟨hkeeps, hnew⟩ := keeps_map_one (buildPte_flags
        (pa + UInt64.ofNat i * PAGE_SIZE.toUInt64) perm).1 hwalked hfree
      obtain ⟨hgrown, hmapped⟩ := ih h
      refine ⟨Grown.trans ⟨hkeeps, hwalked.supply⟩ hgrown, hmapped.imp_right fun hall j hj => ?_⟩
      cases j with
      | zero => exact hgrown.keeps _ _ hnew
      | succ j =>
        have hindex : i + (j + 1) = i + 1 + j := by omega
        rw [hindex]
        exact hall j (by omega)

/-- `vmm_map_pages`. -/
theorem vmmMapPages_entries (h : vmmMapPages t va size pa perm pages = .ok (r, t', rest)) :
    Grown t t' pages rest ∧
      (rest = [] ∨ ∀ j < (size / PAGE_SIZE.toUInt64).toNat,
        pageEntry t' (va + UInt64.ofNat j * PAGE_SIZE.toUInt64)
          = some (buildPte (pa + UInt64.ofNat j * PAGE_SIZE.toUInt64) perm)) := by
  unfold vmmMapPages at h
  split_ifs at h
  have hloop := mapPagesFrom_entries h
  simpa only [Nat.zero_add] using hloop

/-- The permissions of the user stack. -/
def userStackPermissions : PtePermissions :=
  { writable := true, executable := false, userspace := true }

/-- The pages of the user stack are mapped. -/
def HasUserStack (t : PageTree 3) : Prop :=
  ∃ userStack : UInt64, ∀ j < 8,
    pageEntry t (USER_STACK_BOTTOM + UInt64.ofNat j * PAGE_SIZE.toUInt64)
      = some (buildPte (userStack + UInt64.ofNat j * PAGE_SIZE.toUInt64) userStackPermissions)

/-- The user stack stays. -/
theorem HasUserStack.keeps (h : HasUserStack t) (hkeeps : Keeps t t') : HasUserStack t' := by
  obtain ⟨userStack, hall⟩ := h
  exact ⟨userStack, fun j hj => hkeeps _ _ (hall j hj)⟩

/-- The pages of the stack, by address. -/
theorem HasUserStack.entry (h : HasUserStack t) (hlo : USER_STACK_BOTTOM ≤ va)
    (hhi : va < USER_STACK_TOP) :
    ∃ frame, pageEntry t va = some (buildPte frame userStackPermissions) := by
  obtain ⟨userStack, hall⟩ := h
  have htop : USER_STACK_TOP.toNat = 2 ^ 46 := by decide
  have hbottom : USER_STACK_BOTTOM.toNat = 2 ^ 46 - 0x8000 := by decide
  rw [UInt64.le_iff_toNat_le, hbottom] at hlo
  rw [UInt64.lt_iff_toNat_lt, htop] at hhi
  refine ⟨_, (pageEntry_congr t ?_).trans (hall ((va.toNat - (2 ^ 46 - 0x8000)) / 4096) (by omega))⟩
  rw [samePage_iff, UInt64.toNat_add, UInt64.toNat_mul, hbottom, toNat_PAGE_SIZE_toUInt64,
    UInt64.toNat_ofNat']
  omega

/-- The three stacks of a new process. -/
theorem mapUserStacks_entries {userStack intStack syscallStack : UInt64}
    (h : mapUserStacks t userStack intStack syscallStack pages = .ok (t', rest)) :
    Grown t t' pages rest ∧ (rest = [] ∨ HasUserStack t') := by
  obtain ⟨_, _, _, _, _, _, _, h₁, h₂, h₃⟩ := mapUserStacks_parts h
  obtain ⟨hgrown₁, hmapped⟩ := vmmMapPages_entries h₁
  obtain ⟨hgrown₂, -⟩ := vmmMapPages_entries h₂
  obtain ⟨hgrown₃, -⟩ := vmmMapPages_entries h₃
  have hgrown := hgrown₂.trans hgrown₃
  refine ⟨hgrown₁.trans hgrown, ?_⟩
  rcases hmapped with hout | hmapped
  · left
    have hsuffix := hgrown.supply
    rw [hout] at hsuffix
    exact List.suffix_nil.mp hsuffix
  · right
    exact HasUserStack.keeps ⟨userStack, hmapped⟩ hgrown.keeps

/-- A copy takes its tables from the front of the supply. It takes none exactly if no entry leads to
a table. -/
theorem copyEntries_supply {inner : Nat → List UInt64 → Option (PageTree n × List UInt64)}
    {src : Nat → UInt64}
    (hinner : ∀ i pages t rest, inner i pages = some (t, rest) → rest <:+ pages) {left : Nat}
    {entry : Nat → UInt64} {child : Nat → PageTree n} {t : PageTree (n + 1)}
    (h : copyEntries inner src left i entry child pages = some (t, rest)) :
    rest <:+ pages ∧ (rest = pages ↔
      ∀ j, i ≤ j → j < i + left → pteIsPresent (src j) = true → pteIsHuge (src j) = true) := by
  induction left generalizing i entry child pages with
  | zero =>
    cases h
    exact ⟨List.suffix_refl _, iff_of_true rfl fun j h1 h2 => by omega⟩
  | succ left ih =>
    unfold copyEntries at h
    split at h
    · rename_i hcond
      obtain ⟨hp, hhuge⟩ : pteIsPresent (src i) = true ∧ pteIsHuge (src i) = false := by
        simpa using hcond
      split at h
      · cases h
      · rename_i dstInner pages₁
        split at h
        · cases h
        · rename_i t₁ pages₂ hcopy
          have hsuffix := (ih h).1.trans (hinner i _ _ _ hcopy)
          refine ⟨hsuffix.trans (List.suffix_cons _ _),
            iff_of_false (fun heq => ?_) fun hall => ?_⟩
          · have hlen := hsuffix.length_le
            rw [heq, List.length_cons] at hlen
            omega
          · rw [hall i (Nat.le_refl i) (by omega) hp] at hhuge
            cases hhuge
    · rename_i hcond
      have hhuge : pteIsPresent (src i) = true → pteIsHuge (src i) = true := by
        simpa using hcond
      obtain ⟨hsuffix, hrest⟩ := ih h
      refine ⟨hsuffix, hrest.trans ⟨fun hall j h1 h2 => ?_, fun hall j h1 h2 => ?_⟩⟩
      · rcases Nat.eq_or_lt_of_le h1 with rfl | hlt
        · exact hhuge
        · exact hall j hlt (by omega)
      · exact hall j (by omega) (by omega)

theorem copyPagetable_supply {t t' : PageTree n} (h : copyPagetable t pages = some (t', rest)) :
    rest <:+ pages := by
  induction t generalizing pages rest with
  | leaves e =>
    cases h
    exact List.suffix_refl _
  | node e c ih =>
    unfold copyPagetable at h
    exact (copyEntries_supply (fun i pages t rest hcopy => ih i hcopy) h).1

/-- A new table has a user stack, or the memory is out. -/
theorem vmmUserPagetableNew_entries (h : vmmUserPagetableNew t pages = .ok (some t', rest)) :
    (rest = [] ∨ HasUserStack t') ∧ rest <:+ pages := by
  obtain ⟨root, copied, t₀, userStack, intStack, syscallStack, more, rfl, hcopy, hmap⟩ :=
    vmmUserPagetableNew_parts h
  obtain ⟨hgrown, hstack⟩ := mapUserStacks_entries hmap
  have hstacks : more <:+ userStack :: intStack :: syscallStack :: more :=
    ⟨[userStack, intStack, syscallStack], rfl⟩
  exact ⟨hstack, (hgrown.supply.trans hstacks).trans
    ((copyPagetable_supply hcopy).trans (List.suffix_cons _ _))⟩

/-- The loop of `vmm_allocate`. -/
theorem allocateFrom_grown (h : allocateFrom va permissions clear k i s = .ok (r, s')) :
    Grown s.pagetable s'.pagetable s.pages s'.pages := by
  induction k generalizing i s with
  | zero =>
    cases h
    exact Grown.refl _ _
  | succ k ih =>
    unfold allocateFrom at h
    dsimp only at h
    split at h
    · cases h
      exact Grown.refl _ _
    rename_i frame pages hpages
    have htake : pages <:+ s.pages := by
      rw [hpages]
      exact List.suffix_cons frame pages
    split at h
    · cases h
    · rename_i t₁ rest₁ hwalk
      have hwalked := walkUser_walked hwalk
      cases h
      refine ⟨fun q pte hq => ?_, hwalked.supply.trans htake⟩
      rw [hwalked.entry]
      exact hq
    · rename_i t₁ rest₁ hwalk
      have hwalked := walkUser_walked hwalk
      split at h
      · cases h
      rename_i hfree
      obtain ⟨hkeeps, -⟩ := keeps_map_one (buildPte_flags frame permissions).1 hwalked hfree
      exact Grown.trans ⟨hkeeps, hwalked.supply.trans htake⟩ (ih h)

/-- `vmm_allocate`. -/
theorem vmmAllocate_grown (h : s.vmmAllocate va size permissions clear = .ok (r, s')) :
    Grown s.pagetable s'.pagetable s.pages s'.pages := by
  unfold UserSpace.vmmAllocate at h
  split_ifs at h
  exact allocateFrom_grown h

/-- Without memory there is no kernel stack. -/
theorem vmmAllocateProcKernelStack_nil {r : UInt64 × PageTree 3 × List UInt64} :
    vmmAllocateProcKernelStack t i [] ≠ .ok r := by
  intro h
  unfold vmmAllocateProcKernelStack at h
  split at h
  · cases h
  · cases h
  · cases h
  · rename_i t₁ guardPage pages hwalk
    unfold walkKernel at hwalk
    split at hwalk
    · cases hwalk
    have hsuffix := (extend_supply (fun pa => PTE_P ||| PTE_W ||| PTE_SET_ADDR pa) t
      (vaPath (kernelStackVa i)) []).1
    have hrest :
        (extendPath (PTE_P ||| PTE_W) t (kernelStackVa i) []).2.2 = guardPage :: pages := by
      rw [Except.ok.inj hwalk]
    rw [show (t.extend pteIsPresent (fun pa => PTE_P ||| PTE_W ||| PTE_SET_ADDR pa) 0
      (vaPath (kernelStackVa i)) []).2.2 = guardPage :: pages from hrest] at hsuffix
    cases List.suffix_nil.mp hsuffix

end DzOS.Proofs.Mem
