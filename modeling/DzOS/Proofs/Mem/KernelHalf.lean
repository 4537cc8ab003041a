import DzOS.Lib.Outcome
import DzOS.Proofs.Mem.AddressSpace

/-!
# `DzOS.Proofs.Mem.KernelHalf`: translations and the copies of the kernel table

`PlainPath` excludes huge pages on the way to an address. On such a way the CPU finds a page
exactly when it is present in the last level (`translate_isSome_iff`). All functions make `Edits`
of a table, which keep the ways plain (`Edits.plainPath`).

`translateFrom_copyPagetable` says that a copied table translates every address as the original
does at the time of the copy, and `translateFrom_vmmUserPagetableNew` says so of the kernel half
of a new process. After that the two tables go different ways.
-/

set_option autoImplicit false

namespace DzOS.Proofs.Mem

open DzOS.Lib DzOS.Mem

variable {r : Int} {idx i n k left : Nat} {ok : Bool} {entry src : Nat → UInt64}
  {flags intStack size syscallStack userStack va pa : UInt64} {t t' : PageTree 3}
  {pages rest : List UInt64} {q p : Nat → Nat} {perm : PtePermissions}

/-! ### Ways without huge pages -/

/-- No present entry on the path above the last level is a huge page. -/
def PlainFrom : {n : Nat} → PageTree n → (Nat → Nat) → Prop
  | _, .leaves _, _ => True
  | n + 1, .node e c, p =>
    pteIsPresent (e (p (n + 1))) = true →
      pteIsHuge (e (p (n + 1))) = false ∧ PlainFrom (c (p (n + 1))) p

/-- The way to `va` has no huge page. -/
def PlainPath (t : PageTree 3) (va : UInt64) : Prop := PlainFrom t (vaPath va)

/-- A plain way is one where no branch is a huge page. -/
theorem plainFrom_iff (t : PageTree n) (p : Nat → Nat) :
    PlainFrom t p ↔ t.OnPath pteIsPresent (fun pte => pteIsHuge pte = false) p := by
  induction t with
  | leaves e => exact Iff.rfl
  | node e c ih => simp only [PlainFrom, Radix.OnPath, ih]

/-- The empty table is plain. -/
theorem plainFrom_empty (n : Nat) (p : Nat → Nat) :
    PlainFrom (Radix.empty 0 n : PageTree n) p := by
  rw [plainFrom_iff]
  exact Radix.onPath_empty (by decide) n p

/-- A write to the last level keeps the ways plain. -/
theorem plainFrom_setLeaf {t : PageTree n} (v : UInt64) (h : PlainFrom t q) :
    PlainFrom (t.setLeaf pteIsPresent p v) q := by
  rw [plainFrom_iff] at h ⊢
  exact Radix.onPath_setLeaf v h

/-- New tables keep the ways plain. -/
theorem plainFrom_extend (hp : flags &&& PTE_P = PTE_P) (hps : flags &&& PTE_PS = 0)
    {t : PageTree n} (pages : List UInt64) (h : PlainFrom t q) :
    PlainFrom (t.extend pteIsPresent (fun pa => flags ||| PTE_SET_ADDR pa) 0 p pages).2.1 q := by
  rw [plainFrom_iff] at h ⊢
  exact Radix.onPath_extend (fun a => (tableEntry_flags hp hps a).2) (by decide) pages h

/-- One change of a table: the missing tables of a path are made, or an entry of the last level
is written. -/
inductive Edit (t : PageTree 3) : PageTree 3 → Prop
  | extend {flags : UInt64} (hp : flags &&& PTE_P = PTE_P) (hps : flags &&& PTE_PS = 0)
      (va : UInt64) (pages : List UInt64) : Edit t (extendPath flags t va pages).2.1
  | write (va v : UInt64) : Edit t (writeLeaf t va v)

/-- The changes that the functions of `vmm.c` make. -/
abbrev Edits : PageTree 3 → PageTree 3 → Prop := Relation.ReflTransGen Edit

/-- All changes keep the ways plain. -/
theorem Edits.plainPath (h : Edits t t') (hplain : PlainPath t va) : PlainPath t' va := by
  induction h with
  | refl => exact hplain
  | tail _ hedit ih =>
    cases hedit with
    | extend hp hps va' pages => exact plainFrom_extend hp hps pages ih
    | write va' v => exact plainFrom_setLeaf v ih

/-- A walk of the kernel with allocation makes the tables of one path. -/
theorem walkKernel_edits (h : walkKernel t va pages = .ok (ok, t', rest)) : Edits t t' := by
  unfold walkKernel at h
  split at h
  · cases h
  · have ht : (extendPath (PTE_P ||| PTE_W) t va pages).2.1 = t' := by rw [Except.ok.inj h]
    rw [← ht]
    exact .single (.extend (by decide) (by decide) va pages)

/-- So does a walk on an I/O or user address. -/
theorem walkUser_edits {io : Bool} (h : walkUser t va io pages = .ok (ok, t', rest)) :
    Edits t t' := by
  unfold walkUser at h
  split at h
  · cases h
  · have ht : (extendPath (PTE_P ||| PTE_W ||| PTE_U) t va pages).2.1 = t' := by
      rw [Except.ok.inj h]
    rw [← ht]
    exact .single (.extend (by decide) (by decide) va pages)

/-- The changes of `vmm_map_kernel_pages`. -/
theorem mapKernelPagesFrom_edits
    (h : mapKernelPagesFrom va pa perm k i t pages = .ok (r, t', rest)) :
    Edits t t' := by
  induction k generalizing i t pages with
  | zero =>
    cases h
    exact .refl
  | succ k ih =>
    unfold mapKernelPagesFrom at h
    simp only at h
    split at h
    · cases h
    · rename_i hwalk
      cases h
      exact walkKernel_edits hwalk
    · rename_i hwalk
      split at h
      · cases h
      · exact ((walkKernel_edits hwalk).tail (.write _ _)).trans (ih h)

theorem vmmMapKernelPages_edits
    (h : vmmMapKernelPages t va pa size perm pages = .ok (r, t', rest)) :
    Edits t t' := by
  unfold vmmMapKernelPages at h
  split at h
  · cases h
  · exact mapKernelPagesFrom_edits h

/-- The changes of `vmm_io_memmap`. -/
theorem ioMemmapFrom_edits (h : ioMemmapFrom va pa k i t pages = .ok (ok, t')) : Edits t t' := by
  induction k generalizing i t pages with
  | zero =>
    cases h
    exact .refl
  | succ k ih =>
    unfold ioMemmapFrom at h
    simp only at h
    split at h
    · cases h
    · rename_i hwalk
      cases h
      exact walkUser_edits hwalk
    · rename_i hwalk
      split at h
      · cases h
      · exact ((walkUser_edits hwalk).tail (.write _ _)).trans (ih h)

/-- The changes of the loop that maps the stack pages. -/
theorem mapStackPages_edits (h : mapStackPages i left k t pages = .ok (t', rest)) : Edits t t' := by
  induction left generalizing k t pages with
  | zero =>
    cases h
    exact .refl
  | succ left ih =>
    unfold mapStackPages at h
    split at h
    · cases h
    · split at h
      · cases h
      · rename_i hmap
        split at h
        · cases h
        · exact (vmmMapKernelPages_edits hmap).trans (ih h)

/-- The changes of `vmm_allocate_proc_kernel_stack`. -/
theorem vmmAllocateProcKernelStack_edits {top : UInt64}
    (h : vmmAllocateProcKernelStack t i pages = .ok (top, t', rest)) : Edits t t' := by
  unfold vmmAllocateProcKernelStack at h
  split at h
  · cases h
  · cases h
  · cases h
  · rename_i hwalk
    simp only at h
    split at h
    · cases h
    · rename_i hmap
      simp only [Except.ok.injEq, Prod.mk.injEq] at h
      obtain ⟨-, rfl, -⟩ := h
      exact ((walkKernel_edits hwalk).tail (.write _ _)).trans (mapStackPages_edits hmap)

/-- The changes of the loop that unmaps the stack pages. -/
theorem unmapStackPages_edits (h : unmapStackPages i left k t = .ok t') : Edits t t' := by
  induction left generalizing k t with
  | zero =>
    cases h
    exact .refl
  | succ left ih =>
    unfold unmapStackPages at h
    split at h
    · cases h
    · split at h
      · exact .head (.write _ _) (ih h)
      · cases h

/-- The changes of `vmm_free_proc_kernel_stack`. -/
theorem vmmFreeProcKernelStack_edits (h : vmmFreeProcKernelStack t i = .ok t') : Edits t t' := by
  unfold vmmFreeProcKernelStack at h
  split at h
  · cases h
  · simp only at h
    split at h
    · exact .head (.write _ _) (unmapStackPages_edits h)
    · exact unmapStackPages_edits h

/-! ### What the CPU finds -/

/-- On a plain way, a translation exists exactly for a mapped page. -/
theorem translateFrom_isSome {t : PageTree n} (h : PlainFrom t p) (w u x : Bool) :
    (translateFrom t p w u x).isSome = (t.mapping pteIsPresent p).isSome := by
  induction t generalizing w u x with
  | leaves e =>
    unfold translateFrom Radix.mapping Radix.leaf
    by_cases hp : pteIsPresent (e (p 0)) <;> simp [hp, Option.filter]
  | node e c ih =>
    rename_i n
    by_cases hp : pteIsPresent (e (p (n + 1))) = true
    · obtain ⟨hhuge, hsub⟩ := h hp
      rw [Radix.mapping_node hp, ← ih _ hsub (w && pteIsWritable (e (p (n + 1))))
        (u && pteIsUser (e (p (n + 1)))) (x && pteIsExecutable (e (p (n + 1))))]
      simp [translateFrom, hp, hhuge]
    · rw [Bool.not_eq_true] at hp
      rw [Radix.mapping_node_none hp]
      simp [translateFrom, hp]

/-- On a plain way to a canonical address, the CPU finds a page exactly when it is present. -/
theorem translate_isSome_iff (hcanonical : canonical va = true) (h : PlainPath t va) :
    (translate t va).isSome ↔ Present t va := by
  unfold DzOS.Mem.translate
  rw [if_pos hcanonical, translateFrom_isSome h, present_iff]

/-! ### Copies -/

/-- The flags of an entry do not depend on its address. -/
theorem flags_and_addr {bit : UInt64} (h : PTE_ADDR_MASK &&& bit = 0) (pa : UInt64) :
    (flags ||| PTE_SET_ADDR pa) &&& bit = flags &&& bit := by
  rw [or_and, PTE_SET_ADDR, UInt64.and_assoc, h, UInt64.and_zero, UInt64.or_zero]

/-- The flags of a copied entry. -/
def copiedFlags (w u xd : Bool) : UInt64 :=
  PTE_P ||| (if w then PTE_W else 0) ||| (if u then PTE_U else 0) ||| (if xd then PTE_XD else 0)

/-- The entry of a copied table, as flags and an address. -/
theorem copiedPte_eq (pteSrc dstInner : UInt64) :
    copiedPte pteSrc dstInner =
      copiedFlags (pteIsWritable pteSrc) (pteIsUser pteSrc) ((pteSrc &&& PTE_XD) != 0) |||
        PTE_SET_ADDR dstInner := by
  unfold copiedPte copiedFlags
  cases pteIsWritable pteSrc <;> cases pteIsUser pteSrc <;> cases ((pteSrc &&& PTE_XD) != 0)
  all_goals
    simp only [if_true, if_false, Bool.false_eq_true, UInt64.or_zero]
    try ac_rfl

/-- The entry of a copied table leads to a table and gives the permissions of the original. -/
theorem copiedPte_spec (pteSrc dstInner : UInt64) :
    pteIsPresent (copiedPte pteSrc dstInner) = true ∧
      pteIsHuge (copiedPte pteSrc dstInner) = false ∧
      pteIsWritable (copiedPte pteSrc dstInner) = pteIsWritable pteSrc ∧
      pteIsUser (copiedPte pteSrc dstInner) = pteIsUser pteSrc ∧
      pteIsExecutable (copiedPte pteSrc dstInner) = pteIsExecutable pteSrc := by
  have hexec : pteIsExecutable pteSrc = !((pteSrc &&& PTE_XD) != 0) := by
    simp [pteIsExecutable, bne]
  rw [copiedPte_eq, hexec]
  generalize pteIsWritable pteSrc = w
  generalize pteIsUser pteSrc = u
  generalize ((pteSrc &&& PTE_XD) != 0) = xd
  have hP : PTE_ADDR_MASK &&& PTE_P = 0 := by decide
  have hPS : PTE_ADDR_MASK &&& PTE_PS = 0 := by decide
  have hW : PTE_ADDR_MASK &&& PTE_W = 0 := by decide
  have hU : PTE_ADDR_MASK &&& PTE_U = 0 := by decide
  have hXD : PTE_ADDR_MASK &&& PTE_XD = 0 := by decide
  unfold pteIsPresent pteIsHuge pteIsWritable pteIsUser pteIsExecutable
  rw [flags_and_addr hP, flags_and_addr hPS, flags_and_addr hW, flags_and_addr hU,
    flags_and_addr hXD]
  cases w <;> cases u <;> cases xd <;> decide

/-- Two entries with the tables behind them give the same translations on the path `q`. -/
def SameEntry {n : Nat} (e e' : UInt64) (c c' : PageTree n) (q : Nat → Nat) : Prop :=
  pteIsPresent e' = pteIsPresent e ∧ pteIsHuge e' = pteIsHuge e ∧
    (pteIsPresent e = true → pteIsHuge e = true → e' = e) ∧
    (pteIsPresent e = true → pteIsHuge e = false →
      pteIsWritable e' = pteIsWritable e ∧ pteIsUser e' = pteIsUser e ∧
      pteIsExecutable e' = pteIsExecutable e ∧
      ∀ w u x, translateFrom c' q w u x = translateFrom c q w u x)

/-- Tables with the same entry on the path give the same translation. -/
theorem translateFrom_node {e e' : Nat → UInt64} {c c' : Nat → PageTree n}
    (h : SameEntry (e (q (n + 1))) (e' (q (n + 1))) (c (q (n + 1))) (c' (q (n + 1))) q)
    (w u x : Bool) : translateFrom (.node e' c') q w u x = translateFrom (.node e c) q w u x := by
  obtain ⟨hpresent, hhuge, hsame, hsub⟩ := h
  unfold translateFrom
  simp only [hpresent, hhuge]
  cases hp : pteIsPresent (e (q (n + 1))) with
  | false => rfl
  | true =>
    cases hh : pteIsHuge (e (q (n + 1))) with
    | true => simp [hsame hp hh]
    | false =>
      obtain ⟨hw, hu, hx, hchild⟩ := hsub hp hh
      simp [hw, hu, hx, hchild]

/-- The loop of `copy_pagetable` keeps the entries that have been copied, and copies the rest. So
what holds of the entries that are there and of the copied ones holds of all entries of the
table. -/
theorem copyEntries_all {inner : Nat → List UInt64 → Option (PageTree n × List UInt64)}
    {R : Nat → UInt64 → PageTree n → Prop}
    (hcopied : ∀ i dstInner pages t rest, pteIsPresent (src i) = true →
      pteIsHuge (src i) = false → inner i pages = some (t, rest) →
        R i (copiedPte (src i) dstInner) t) {child : Nat → PageTree n} {t : PageTree (n + 1)}
    (hdone : ∀ j, R j (entry j) (child j))
    (h : copyEntries inner src left i entry child pages = some (t, rest)) :
    ∃ e c, t = .node e c ∧ ∀ j, R j (e j) (c j) := by
  induction left generalizing i entry child pages with
  | zero =>
    cases h
    exact ⟨entry, child, rfl, hdone⟩
  | succ left ih =>
    unfold copyEntries at h
    split at h
    · rename_i hcond
      split at h
      · cases h
      · rename_i dstInner pages₁
        split at h
        · cases h
        · rename_i t₁ pages₂ hcopy
          refine ih (fun j => ?_) h
          by_cases hj : j = i
          · -- The entry that this turn copies.
            subst hj
            rw [Function.update_self, Function.update_self]
            obtain ⟨hp, hh⟩ : pteIsPresent (src j) = true ∧ pteIsHuge (src j) = false := by
              simpa using hcond
            exact hcopied j dstInner _ _ _ hp hh hcopy
          · rw [Function.update_of_ne hj, Function.update_of_ne hj]
            exact hdone j
    · exact ih hdone h

/-- The loop of `copy_pagetable` gives a table with the translations of the source. -/
theorem copyEntries_same {inner : Nat → List UInt64 → Option (PageTree n × List UInt64)}
    {children : Nat → PageTree n} (hinner : ∀ i pages t rest, inner i pages = some (t, rest) →
      ∀ w u x, translateFrom t q w u x = translateFrom (children i) q w u x)
    {child : Nat → PageTree n} {t : PageTree (n + 1)}
    (hdone : ∀ j, SameEntry (src j) (entry j) (children j) (child j) q)
    (h : copyEntries inner src left i entry child pages = some (t, rest)) (w u x : Bool) :
    translateFrom t q w u x = translateFrom (.node src children) q w u x := by
  have hcopied : ∀ i dstInner pages t rest, pteIsPresent (src i) = true →
      pteIsHuge (src i) = false → inner i pages = some (t, rest) →
        SameEntry (src i) (copiedPte (src i) dstInner) (children i) t q := by
    intro i dstInner pages t rest hp hh hcopy
    obtain ⟨hp', hh', hw, hu, hx⟩ := copiedPte_spec (src i) dstInner
    exact ⟨hp'.trans hp.symm, hh'.trans hh.symm, fun _ hc => (by rw [hh] at hc; cases hc),
      fun _ _ => ⟨hw, hu, hx, hinner i _ _ _ hcopy⟩⟩
  obtain ⟨e, c, rfl, hall⟩ := copyEntries_all
    (R := fun j pte t => SameEntry (src j) pte (children j) t q) hcopied hdone h
  exact translateFrom_node (hall _) w u x

/-- A copied table translates every address as the original does. -/
theorem translateFrom_copyPagetable {t t' : PageTree n}
    (h : copyPagetable t pages = some (t', rest)) (q : Nat → Nat) (w u x : Bool) :
    translateFrom t' q w u x = translateFrom t q w u x := by
  induction t generalizing pages rest w u x with
  | leaves e =>
    cases h
    rfl
  | node e c ih =>
    unfold copyPagetable at h
    refine copyEntries_same (fun i pages t rest hcopy w u x => ih i hcopy w u x)
      (fun j => ?_) h w u x
    exact ⟨rfl, rfl, fun _ _ => rfl, fun _ _ => ⟨rfl, rfl, rfl, fun _ _ _ => rfl⟩⟩

/-! ### The user half of a new table -/

/-- The first index of an address of the user half. -/
theorem vaPath_user (h : va < USERSPACE_VA_MAX) : vaPath va 3 < 128 := by
  have hlt : va.toNat < 2 ^ 46 := by
    rw [UInt64.lt_iff_toNat_lt, toNat_USERSPACE_VA_MAX] at h
    exact h
  rw [vaPath_eq _ (Nat.le_refl 3)]
  omega

/-- Tables with the same branch on the path give the same translation. -/
theorem translateFrom_branchAt {t t' : PageTree (n + 1)}
    (h : t'.branchAt (q (n + 1)) = t.branchAt (q (n + 1))) (w u x : Bool) :
    translateFrom t' q w u x = translateFrom t q w u x := by
  cases t with
  | node e c =>
    cases t' with
    | node e' c' =>
      obtain ⟨he, hc⟩ := Prod.mk.inj h
      unfold translateFrom
      rw [he, hc]

/-- Mapping user pages leaves the branches of the other half alone. -/
theorem mapPagesFrom_branchAt (h : mapPagesFrom va pa perm k i t pages = .ok (r, t', rest))
    (hidx : 128 ≤ idx) : t'.branchAt idx = t.branchAt idx := by
  induction k generalizing i t pages with
  | zero =>
    cases h
    rfl
  | succ k ih =>
    unfold mapPagesFrom at h
    simp only at h
    generalize hva : va + UInt64.ofNat i * PAGE_SIZE.toUInt64 = currentVa at h
    have hwalk_same : ∀ {ok : Bool} {t₁ : PageTree 3} {pages₁ : List UInt64},
        walkUser t currentVa false pages = .ok (ok, t₁, pages₁) →
          idx ≠ vaPath currentVa 3 ∧ t₁.branchAt idx = t.branchAt idx := by
      intro ok t₁ pages₁ hwalk
      unfold walkUser at hwalk
      split at hwalk
      · cases hwalk
      · rename_i hrange
        have hlt : currentVa < USERSPACE_VA_MAX := by
          simp only [Bool.not_false, Bool.true_and, Bool.or_eq_true, decide_eq_true_eq,
            not_or] at hrange
          exact UInt64.not_le.mp hrange.1
        have hne : idx ≠ vaPath currentVa 3 := by
          have := vaPath_user hlt
          omega
        have heq := Except.ok.inj hwalk
        have ht : (extendPath (PTE_P ||| PTE_W ||| PTE_U) t currentVa pages).2.1 = t₁ := by rw [heq]
        subst ht
        exact ⟨hne, Radix.branchAt_extend t pages hne⟩
    split at h
    · cases h
    · rename_i hwalk
      cases h
      exact (hwalk_same hwalk).2
    · rename_i t₁ pages₁ hwalk
      obtain ⟨hne, hsame⟩ := hwalk_same hwalk
      split at h
      · cases h
      · rw [ih h, writeLeaf, Radix.branchAt_setLeaf t₁ _ hne, hsame]

/-- `vmm_map_pages` leaves the branches of the other half alone. -/
theorem vmmMapPages_branchAt (h : vmmMapPages t va size pa perm pages = .ok (r, t', rest))
    (hidx : 128 ≤ idx) : t'.branchAt idx = t.branchAt idx := by
  unfold vmmMapPages at h
  split_ifs at h
  exact mapPagesFrom_branchAt h hidx

/-- The three mappings of the stacks. -/
theorem mapUserStacks_parts
    (h : mapUserStacks t userStack intStack syscallStack pages = .ok (t', rest)) :
    ∃ r₁ t₁ rest₁ r₂ t₂ rest₂ r₃,
      vmmMapPages t USER_STACK_BOTTOM USER_STACK_SIZE userStack
        { writable := true, executable := false, userspace := true } pages =
          .ok (r₁, t₁, rest₁) ∧
      vmmMapPages t₁ INTSTACK_VIRTUAL_ADDRESS_BOTTOM INTSTACK_SIZE intStack
        { writable := true, executable := false, userspace := false } rest₁ =
          .ok (r₂, t₂, rest₂) ∧
      vmmMapPages t₂ SYSCALLSTACK_VIRTUAL_ADDRESS_BOTTOM SYSCALLSTACK_SIZE syscallStack
        { writable := true, executable := false, userspace := false } rest₂ =
          .ok (r₃, t', rest) := by
  unfold mapUserStacks at h
  obtain ⟨⟨r₁, t₁, rest₁⟩, h₁, h⟩ := bind_eq_ok.mp h
  obtain ⟨⟨r₂, t₂, rest₂⟩, h₂, h⟩ := bind_eq_ok.mp h
  obtain ⟨⟨r₃, t₃, rest₃⟩, h₃, h⟩ := bind_eq_ok.mp h
  cases h
  exact ⟨r₁, t₁, rest₁, r₂, t₂, rest₂, r₃, h₁, h₂, h₃⟩

/-- The parts of a creation that succeeds: the root, the copy, and the stacks. -/
theorem vmmUserPagetableNew_parts (h : vmmUserPagetableNew t pages = .ok (some t', rest)) :
    ∃ root copied t₀ userStack intStack syscallStack more, pages = root :: copied ∧
      copyPagetable t copied = some (t₀, userStack :: intStack :: syscallStack :: more) ∧
      mapUserStacks t₀ userStack intStack syscallStack more = .ok (t', rest) := by
  unfold vmmUserPagetableNew at h
  split at h
  · cases h
  · rename_i root copied
    split at h
    · cases h
    · rename_i t₀ userStack intStack syscallStack more hcopy
      obtain ⟨⟨t₁, rest₁⟩, hmap, h⟩ := bind_eq_ok.mp h
      cases h
      exact ⟨root, copied, t₀, userStack, intStack, syscallStack, more, rfl, hcopy, hmap⟩
    · cases h

/-- Mapping the user stacks leaves the branches of the other half alone. -/
theorem mapUserStacks_branchAt
    (h : mapUserStacks t userStack intStack syscallStack pages = .ok (t', rest))
    (hidx : 128 ≤ idx) :
    t'.branchAt idx = t.branchAt idx := by
  obtain ⟨_, _, _, _, _, _, _, h₁, h₂, h₃⟩ := mapUserStacks_parts h
  rw [vmmMapPages_branchAt h₃ hidx, vmmMapPages_branchAt h₂ hidx, vmmMapPages_branchAt h₁ hidx]

/-- A new process starts with the kernel half of the kernel table. -/
theorem translateFrom_vmmUserPagetableNew (h : vmmUserPagetableNew t pages = .ok (some t', rest))
    (hq : 128 ≤ q 3) (w u x : Bool) : translateFrom t' q w u x = translateFrom t q w u x := by
  obtain ⟨_, _, _, _, _, _, _, _, hcopy, hmap⟩ := vmmUserPagetableNew_parts h
  rw [translateFrom_branchAt (mapUserStacks_branchAt hmap hq) w u x,
    translateFrom_copyPagetable hcopy q w u x]

end DzOS.Proofs.Mem
