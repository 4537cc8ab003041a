import DzOS.Lib.RadixItems
import DzOS.Proofs.Mem.UserSpace

/-!
# `DzOS.Proofs.Mem.SpaceItems`: the pages of the user half

`spaceItems` lists the pages that an address space has in its user half: the tables below the root,
and the frames. `vmm_user_pagetable_free` walks a window of the table with range tests and checks on
each level. While the table is `Visible`, none of these tests stops it inside of the user half, so
it frees the listed pages and the root (`vmmUserPagetableFree_eq`).

`Gains` says how a function changes the list. A walk adds the tables that it makes, and a mapping
adds its frame (`walkUser_gains`, `writeLeaf_gains`).
-/

set_option autoImplicit false

namespace DzOS.Proofs.Mem.SpaceItems

open scoped List

open DzOS.Lib DzOS.Mem DzOS.Proofs.Mem

variable {initialVa p : UInt64} {ok : Bool}

/-- The indices of the user half. The window ends in the middle of the lower half. -/
def userIndices (level : ℕ) : List ℕ := List.range (if level = 3 then 128 else 512)

/-- The tables and frames behind the entries of the user half. -/
def spaceItems {n : ℕ} (t : PageTree n) : List UInt64 := t.items pteIsPresent pteFollow userIndices

/-- A page of the allocator, as the checks of the free functions see it. -/
structure PageOk (physMaxEnd p : UInt64) : Prop where
  aligned : p.toNat % 4096 = 0
  valid : p < physMaxEnd
  lt : p.toNat < 2 ^ 52

/-- No test of `vmm_user_pagetable_free_recursive` skips a present entry of the user half. -/
def Visible (physMaxEnd : UInt64) : {n : ℕ} → PageTree n → UInt64 → Prop
  | _, .leaves e, _ =>
    ∀ i ∈ userIndices 0, pteIsPresent (e i) = true →
      physAddrValid physMaxEnd (pteFollow (e i)) = true
  | n + 1, .node e c, initialVa =>
    ∀ i ∈ userIndices (n + 1), pteIsPresent (e i) = true →
      outsideUserspace initialVa i (n + 1) = false ∧ pteIsHuge (e i) = false ∧
      physAddrValid physMaxEnd (pteFollow (e i)) = true ∧
      Visible physMaxEnd (c i) (initialVa ||| (UInt64.ofNat i <<< UInt64.ofNat ((n + 1) * 9 + 12)))

variable {physMaxEnd : UInt64} {n : ℕ} {va : UInt64}

theorem PageOk.physAddrValid (h : PageOk physMaxEnd p) : physAddrValid physMaxEnd p = true := by
  have hmod : p % PAGE_SIZE.toUInt64 = 0 := by
    apply UInt64.toNat.inj
    rw [UInt64.toNat_mod, toNat_PAGE_SIZE_toUInt64]
    exact h.aligned
  rw [DzOS.Mem.physAddrValid, hmod, decide_eq_true h.valid]
  rfl

/-! ### What is freed -/

/-- The tables below the root are freed with all that they hold. -/
theorem pagetableFreeRecursive_eq {t : PageTree n} (hn : n ≤ 2) (h : Visible physMaxEnd t initialVa)
    (pagetable : UInt64) :
    pagetableFreeRecursive physMaxEnd t pagetable initialVa = spaceItems t ++ [pagetable] := by
  induction t generalizing initialVa pagetable with
  | leaves e =>
    have hflat : ∀ l : List ℕ, (∀ i ∈ l, i ∈ userIndices 0) →
        (l.filter fun i => pteIsPresent (e i) && physAddrValid physMaxEnd (pteFollow (e i))).map
          (fun i => pteFollow (e i)) =
        l.flatMap fun i => if pteIsPresent (e i) then [pteFollow (e i)] else [] := by
      intro l hl
      induction l with
      | nil => rfl
      | cons i l ih =>
        have hi := h i (hl i List.mem_cons_self)
        rw [List.flatMap_cons, ← ih fun j hj => hl j (List.mem_cons_of_mem _ hj)]
        cases hp : pteIsPresent (e i) with
        | false => simp [hp]
        | true => simp [hp, hi hp]
    rw [pagetableFreeRecursive, spaceItems, Radix.items]
    exact congrArg (· ++ [pagetable]) (hflat _ fun i hi => hi)
  | node e c ih =>
    rename_i n
    have hrange : List.range PAGETABLE_PTE_COUNT = userIndices (n + 1) := by
      rw [userIndices, if_neg (by omega)]
      rfl
    rw [pagetableFreeRecursive, spaceItems, Radix.items, hrange]
    refine congrArg (· ++ [pagetable]) (List.flatMap_congr fun i hi => ?_)
    cases hp : pteIsPresent (e i) with
    | false => simp
    | true =>
      obtain ⟨hinside, hhuge, hvalid, hchild⟩ := h i hi hp
      rw [hinside, hhuge, hvalid]
      exact ih i (by omega) hchild _

/-- The upper half of the top table is outside of the window. -/
theorem outsideUserspace_upper {i : ℕ} (hlo : 128 ≤ i) (hhi : i < 512) :
    outsideUserspace 0 i 3 = true := by
  have hshift : ∀ j : ℕ, 128 ≤ j → j ≤ 512 →
      (0 ||| (UInt64.ofNat j <<< UInt64.ofNat (3 * 9 + 12))) ≥ USERSPACE_VA_MAX := by
    intro j h1 h2
    have hcount : (UInt64.ofNat (3 * 9 + 12)).toNat % 64 = 39 := by decide
    rw [UInt64.zero_or, ge_iff_le, UInt64.le_iff_toNat_le, toNat_USERSPACE_VA_MAX,
      UInt64.toNat_shiftLeft, hcount, UInt64.toNat_ofNat', Nat.shiftLeft_eq]
    omega
  have hlow := hshift i hlo (by omega)
  have hhigh := hshift (i + 1) (by omega) (by omega)
  simp only [outsideUserspace, decide_eq_true hlow, decide_eq_true hhigh, Bool.and_self,
    Bool.true_or]

/-- The pages that `vmm_user_pagetable_free` frees. -/
theorem vmmUserPagetableFree_eq {t : PageTree 3} (h : Visible physMaxEnd t 0) (root : UInt64) :
    vmmUserPagetableFree physMaxEnd t root = spaceItems t ++ [root] := by
  cases t with
  | node e c =>
    have hrange : List.range PAGETABLE_PTE_COUNT =
        userIndices 3 ++ (List.range 384).map (128 + ·) := List.range_add (n := 128) (m := 384)
    rw [vmmUserPagetableFree, pagetableFreeRecursive, spaceItems, Radix.items, hrange,
      List.flatMap_append]
    have hupper : ((List.range 384).map (128 + ·)).flatMap (fun i =>
        if (!pteIsPresent (e i) || outsideUserspace 0 i (2 + 1) || pteIsHuge (e i) ||
          !physAddrValid physMaxEnd (pteFollow (e i))) = true then []
        else pagetableFreeRecursive physMaxEnd (c i) (pteFollow (e i))
          (0 ||| (UInt64.ofNat i <<< UInt64.ofNat ((2 + 1) * 9 + 12)))) = [] := by
      rw [List.flatMap_eq_nil_iff]
      intro i hi
      obtain ⟨j, hj, rfl⟩ := List.mem_map.mp hi
      have hj' := List.mem_range.mp hj
      rw [outsideUserspace_upper (by omega) (by omega)]
      simp
    rw [hupper, List.append_nil]
    refine congrArg (· ++ [root]) (List.flatMap_congr fun i hi => ?_)
    cases hp : pteIsPresent (e i) with
    | false => simp
    | true =>
      obtain ⟨hinside, hhuge, hvalid, hchild⟩ := h i hi hp
      rw [hinside, hhuge, hvalid]
      exact pagetableFreeRecursive_eq (Nat.le_refl 2) hchild _

/-! ### Addresses of the window -/

/-- The part of an address that leads to the table of level `n`. -/
def vaPrefix (va : UInt64) (n : ℕ) : UInt64 :=
  UInt64.ofNat (va.toNat / 2 ^ (9 * n + 21) * 2 ^ (9 * n + 21))

theorem toNat_vaPrefix (va : UInt64) (n : ℕ) :
    (vaPrefix va n).toNat = va.toNat / 2 ^ (9 * n + 21) * 2 ^ (9 * n + 21) := by
  have hle := Nat.div_mul_le_self va.toNat (2 ^ (9 * n + 21))
  have hlt := va.toNat_lt
  rw [vaPrefix, UInt64.toNat_ofNat', Nat.mod_eq_of_lt (by omega)]

/-- The start of the range of an entry on the way to `va`. -/
theorem vaPrefix_succ (va : UInt64) (hn : n ≤ 2) :
    (vaPrefix va (n + 1) |||
      (UInt64.ofNat (vaPath va (n + 1)) <<< UInt64.ofNat ((n + 1) * 9 + 12))) = vaPrefix va n := by
  apply UInt64.toNat.inj
  have hshift : (UInt64.ofNat ((n + 1) * 9 + 12)).toNat % 64 = 9 * n + 21 := by
    interval_cases n <;> decide
  have hpath := vaPath_eq va (show n + 1 ≤ 3 by omega)
  have hlt := va.toNat_lt
  rw [UInt64.toNat_or, toNat_vaPrefix, toNat_vaPrefix, UInt64.toNat_shiftLeft, hshift, hpath,
    UInt64.toNat_ofNat', Nat.shiftLeft_eq]
  interval_cases n
  all_goals
    rw [Nat.mod_eq_of_lt (by omega), Nat.mod_eq_of_lt (by omega), Nat.mul_comm (va.toNat / _),
      ← Nat.two_pow_add_eq_or_of_lt (by omega)]
    omega

/-- An entry on the way to an address of the window is not skipped. -/
theorem inside_window (hlo : USERSPACE_VA_MIN ≤ va) (hhi : va < USERSPACE_VA_MAX) (hn : n ≤ 2) :
    outsideUserspace (vaPrefix va (n + 1)) (vaPath va (n + 1)) (n + 1) = false := by
  rw [UInt64.le_iff_toNat_le, toNat_USERSPACE_VA_MIN] at hlo
  rw [UInt64.lt_iff_toNat_lt, toNat_USERSPACE_VA_MAX] at hhi
  unfold outsideUserspace
  dsimp only
  rw [vaPrefix_succ va hn]
  have hlow := toNat_vaPrefix va n
  have hbelow : ¬ vaPrefix va n ≥ USERSPACE_VA_MAX := by
    have hle := Nat.div_mul_le_self va.toNat (2 ^ (9 * n + 21))
    rw [ge_iff_le, UInt64.le_iff_toNat_le, toNat_USERSPACE_VA_MAX, hlow]
    omega
  rw [decide_eq_false hbelow, Bool.and_false, Bool.false_or, Bool.and_eq_false_iff]
  by_cases hmin : vaPrefix va n < USERSPACE_VA_MIN
  · -- the entry is the first one of its level, and its range ends behind the window's start
    left
    rw [UInt64.lt_iff_toNat_lt, toNat_USERSPACE_VA_MIN, hlow] at hmin
    have hpath := vaPath_eq va (show n + 1 ≤ 3 by omega)
    have hprefix : (vaPrefix va (n + 1)).toNat = 0 := by
      rw [toNat_vaPrefix]
      interval_cases n <;> omega
    have hzero : vaPrefix va (n + 1) = 0 := UInt64.toNat.inj hprefix
    rw [hzero, hpath, decide_eq_false_iff_not, UInt64.lt_iff_toNat_lt, toNat_USERSPACE_VA_MIN]
    interval_cases n
    · omega
    · have hindex : va.toNat / 4096 / 512 ^ (1 + 1) % 512 = 0 := by omega
      rw [hindex]
      decide
    · have hindex : va.toNat / 4096 / 512 ^ (2 + 1) % 512 = 0 := by omega
      rw [hindex]
      decide
  · right
    exact decide_eq_false hmin

/-! ### Walks and writes -/

theorem listed_vaPath (hhi : va < USERSPACE_VA_MAX) : Radix.Listed userIndices (vaPath va) 3 := by
  intro level hle
  refine ⟨List.nodup_range, ?_⟩
  rw [userIndices, List.mem_range]
  split
  · rename_i htop
    rw [htop]
    exact vaPath_user hhi
  · rw [vaPath_eq va hle]
    exact Nat.mod_lt _ (by omega)

theorem visible_empty (n : ℕ) (initialVa : UInt64) :
    Visible physMaxEnd (Radix.empty 0 n : PageTree n) initialVa := by
  have habsent : ¬ pteIsPresent 0 = true := by decide
  cases n with
  | zero => exact fun i _ hp => absurd hp habsent
  | succ n => exact fun i _ hp => absurd hp habsent

/-- The entry of a new table. -/
theorem newTable_ok (hp : PageOk physMaxEnd p) :
    pteIsPresent (PTE_P ||| PTE_W ||| PTE_U ||| PTE_SET_ADDR p) = true ∧
      pteIsHuge (PTE_P ||| PTE_W ||| PTE_U ||| PTE_SET_ADDR p) = false ∧
      pteFollow (PTE_P ||| PTE_W ||| PTE_U ||| PTE_SET_ADDR p) = p := by
  obtain ⟨hpresent, hhuge⟩ := tableEntry_flags
    (by decide : (PTE_P ||| PTE_W ||| PTE_U) &&& PTE_P = PTE_P) (by decide) p
  exact ⟨hpresent, hhuge, (pte_flags_addr _ (by decide) (by decide) hp.aligned hp.lt).2⟩

/-- A walk to an address of the window keeps the tables visible. -/
theorem Visible.extend {t : PageTree n} {pages : List UInt64} (hn : n ≤ 3)
    (hlo : USERSPACE_VA_MIN ≤ va) (hhi : va < USERSPACE_VA_MAX)
    (hpages : ∀ p ∈ pages, PageOk physMaxEnd p) (h : Visible physMaxEnd t (vaPrefix va n)) :
    Visible physMaxEnd (t.extend pteIsPresent
      (fun pa => PTE_P ||| PTE_W ||| PTE_U ||| PTE_SET_ADDR pa) 0 (vaPath va) pages).2.1
      (vaPrefix va n) := by
  induction n generalizing pages with
  | zero =>
    cases t with
    | leaves e => exact h
  | succ n ih =>
    cases t with
    | node e c =>
      have hinside := inside_window (n := n) hlo hhi (by omega)
      have hprefix := vaPrefix_succ (n := n) va (by omega)
      unfold Radix.extend
      split
      · intro i hi hp
        obtain ⟨hin, hhuge, hvalid, hchild⟩ := h i hi hp
        refine ⟨hin, hhuge, hvalid, ?_⟩
        by_cases hpath : i = vaPath va (n + 1)
        · rw [hpath, Function.update_self, hprefix]
          rw [hpath, hprefix] at hchild
          exact ih (by omega) hpages hchild
        · rw [Function.update_of_ne hpath]
          exact hchild
      · cases pages with
        | nil => exact h
        | cons a pages =>
          intro i hi hp
          by_cases hpath : i = vaPath va (n + 1)
          · obtain ⟨-, hhuge, hfollow⟩ := newTable_ok (hpages a List.mem_cons_self)
            rw [hpath, Function.update_self, Function.update_self, hprefix, hfollow]
            exact ⟨hinside, hhuge, (hpages a List.mem_cons_self).physAddrValid,
              ih (by omega) (fun p hmem => hpages p (List.mem_cons_of_mem _ hmem))
                (visible_empty n _)⟩
          · rw [Function.update_of_ne hpath] at hp
            rw [Function.update_of_ne hpath, Function.update_of_ne hpath]
            exact h i hi hp

theorem Visible.setLeaf {t : PageTree n} {v : UInt64} {p : ℕ → ℕ}
    (h : Visible physMaxEnd t initialVa) (hv : physAddrValid physMaxEnd (pteFollow v) = true) :
    Visible physMaxEnd (t.setLeaf pteIsPresent p v) initialVa := by
  induction t generalizing initialVa with
  | leaves e =>
    intro i hi hp
    by_cases hpath : i = p 0
    · rw [hpath, Function.update_self]
      exact hv
    · rw [Function.update_of_ne hpath] at hp ⊢
      exact h i hi hp
  | node e c ih =>
    rename_i n
    unfold Radix.setLeaf
    split
    · intro i hi hp
      obtain ⟨hin, hhuge, hvalid, hchild⟩ := h i hi hp
      refine ⟨hin, hhuge, hvalid, ?_⟩
      by_cases hpath : i = p (n + 1)
      · rw [hpath, Function.update_self]
        rw [hpath] at hchild
        exact ih _ hchild
      · rw [Function.update_of_ne hpath]
        exact hchild
    · exact h

/-- The address space takes the pages. -/
structure Gains (physMaxEnd : UInt64) (t t' : PageTree 3) (taken : List UInt64) : Prop where
  items : spaceItems t' ~ spaceItems t ++ taken
  visible : Visible physMaxEnd t 0 → Visible physMaxEnd t' 0

variable {t t' t'' : PageTree 3} {pages rest taken taken' : List UInt64}

theorem Gains.refl (t : PageTree 3) : Gains physMaxEnd t t [] where
  items := by
    rw [List.append_nil]
  visible := id

theorem Gains.trans (h : Gains physMaxEnd t t' taken) (h' : Gains physMaxEnd t' t'' taken') :
    Gains physMaxEnd t t'' (taken ++ taken') where
  items := by
    rw [← List.append_assoc]
    exact h'.items.trans (h.items.append_right _)
  visible := fun hvisible => h'.visible (h.visible hvisible)

/-- A walk on a user address is inside of the window, and is the making of a path. -/
theorem walkUser_window (h : walkUser t va false pages = .ok (ok, t', rest)) :
    USERSPACE_VA_MIN ≤ va ∧ va < USERSPACE_VA_MAX ∧
      extendPath (PTE_P ||| PTE_W ||| PTE_U) t va pages = (ok, t', rest) := by
  unfold walkUser at h
  split at h
  · cases h
  · rename_i hwindow
    simp only [Bool.not_false, Bool.true_and, Bool.or_eq_true, decide_eq_true_eq, not_or,
      UInt64.not_lt, ge_iff_le, UInt64.not_le] at hwindow
    exact ⟨hwindow.2, hwindow.1, Except.ok.inj h⟩

/-- A walk takes the pages of its new tables. -/
theorem walkUser_gains (h : walkUser t va false pages = .ok (ok, t', rest))
    (hpages : ∀ p ∈ pages, PageOk physMaxEnd p) :
    ∃ used, pages = used ++ rest ∧ Gains physMaxEnd t t' used := by
  obtain ⟨hlo, hhi, hpath⟩ := walkUser_window h
  have hextend : ∃ used,
      pages = used ++ (extendPath (PTE_P ||| PTE_W ||| PTE_U) t va pages).2.2 ∧
        spaceItems (extendPath (PTE_P ||| PTE_W ||| PTE_U) t va pages).2.1 ~
          spaceItems t ++ used :=
    Radix.items_extend (by decide) (listed_vaPath hhi) fun p hp =>
      ⟨(newTable_ok (hpages p hp)).1, (newTable_ok (hpages p hp)).2.2⟩
  have hvisible : Visible physMaxEnd t (vaPrefix va 3) →
      Visible physMaxEnd (extendPath (PTE_P ||| PTE_W ||| PTE_U) t va pages).2.1 (vaPrefix va 3) :=
    Visible.extend (Nat.le_refl 3) hlo hhi hpages
  have htop : vaPrefix va 3 = 0 := by
    rw [UInt64.lt_iff_toNat_lt, toNat_USERSPACE_VA_MAX] at hhi
    apply UInt64.toNat.inj
    rw [toNat_vaPrefix]
    show _ = 0
    omega
  rw [htop, hpath] at hvisible
  rw [hpath] at hextend
  obtain ⟨used, hused, hitems⟩ := hextend
  exact ⟨used, hused, hitems, hvisible⟩

/-- A new mapping takes its frame. -/
theorem writeLeaf_gains {frame : UInt64} (perm : PtePermissions) (hhi : va < USERSPACE_VA_MAX)
    (hleaf : (readLeaf t va).isSome) (hfree : ¬ leafPresent t va = true)
    (hframe : PageOk physMaxEnd frame) :
    Gains physMaxEnd t (writeLeaf t va (buildPte frame perm)) [frame] := by
  have hfollow := pteFollow_buildPte perm hframe.aligned hframe.lt
  obtain ⟨old, hold⟩ := Option.isSome_iff_exists.mp hleaf
  have habsent : pteIsPresent old = false := by
    rw [leafPresent, hold] at hfree
    exact Bool.eq_false_iff.mpr hfree
  constructor
  · have hitems : spaceItems (writeLeaf t va (buildPte frame perm)) ~
        spaceItems t ++ [pteFollow (buildPte frame perm)] :=
      Radix.items_setLeaf (listed_vaPath hhi) hold habsent (buildPte_flags frame perm).1
    rw [hfollow] at hitems
    exact hitems
  · intro hvisible
    exact hvisible.setLeaf (by rw [hfollow]; exact hframe.physAddrValid)

end DzOS.Proofs.Mem.SpaceItems
