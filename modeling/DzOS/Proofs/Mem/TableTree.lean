import DzOS.Proofs.Mem.NewSpaceLeak
import DzOS.Proofs.Mem.PageTableUpdate

/-!
# `DzOS.Proofs.Mem.TableTree`: the tables of an address space in memory

`treeAt` reads the tables behind a root out of the memory, and what the CPU sees there is
`translate` of this value. `TableOf` says which page is a table, and on which level. The two
depend on the bytes of the tables only (`translateFrom_congr` and `tableOf_congr`).

`TableEdit` is a change of a mapping that is no huge page: an entry of the last level is written, or
a missing table is made. The code edits a mapping through `walk`, which makes such edits only
(`walkLevels_edits`).

Two address spaces are `Separated` when they have no table in common and the allocator has none of
their tables. `Separated.edit` is the step: an edit of one of them keeps them separated, and it
does not touch a table of the other.
-/

set_option autoImplicit false

namespace DzOS.Proofs.Mem

open DzOS.Lib DzOS.Mem

variable {flags page r u t : UInt64} {left i : Nat} {q : Nat → Nat} {s s₁ : MemState}

/-! ### Tables in memory -/

/-- The entry leads to a table. -/
def leads (pte : UInt64) : Bool := pteIsPresent pte && !pteIsHuge pte

/-- The table at an address, with the tables on the `n` levels below it. -/
def treeAt (mem : Bytes) : (n : Nat) → UInt64 → PageTree n
  | 0, t => .leaves (tableEntry mem t)
  | n + 1, t => .node (tableEntry mem t) fun i => treeAt mem n (pteFollow (tableEntry mem t i))

/-- `u` is a table of the level `l`, behind the table `t` of the level `n`. -/
def TableOf (mem : Bytes) : (n : Nat) → UInt64 → Nat → UInt64 → Prop
  | 0, t, l, u => l = 0 ∧ u = t
  | n + 1, t, l, u => (l = n + 1 ∧ u = t) ∨ ∃ i < 512, leads (tableEntry mem t i) = true ∧
      TableOf mem n (pteFollow (tableEntry mem t i)) l u

/-- `u` is an inner table behind the root table `root`. -/
def InnerTable (mem : Bytes) (root u : UInt64) : Prop := ∃ l < 3, TableOf mem 3 root l u

/-- Each table is on one level. -/
def Leveled (mem : Bytes) (n : Nat) (t : UInt64) : Prop :=
  ∀ l l' u, TableOf mem n t l u → TableOf mem n t l' u → l = l'

/-- The bytes of the page `t` are the same. -/
def SameBytes (mem mem' : Bytes) (t : UInt64) : Prop :=
  ∀ a, t.toNat ≤ a → a < t.toNat + 4096 → mem' a = mem a

/-- The bytes of all tables are the same. -/
def SameSpace (mem mem' : Bytes) (n : Nat) (t : UInt64) : Prop :=
  ∀ l u, TableOf mem n t l u → SameBytes mem mem' u

section

variable {mem mem' : Bytes} {n l i : Nat} {t u : UInt64}

theorem tableOf_root (mem : Bytes) (n : Nat) (t : UInt64) : TableOf mem n t n t := by
  cases n with
  | zero => exact ⟨rfl, rfl⟩
  | succ n => exact Or.inl ⟨rfl, rfl⟩

/-- A table behind an entry. -/
theorem tableOf_child (hi : i < 512) (hlead : leads (tableEntry mem t i) = true)
    (h : TableOf mem n (pteFollow (tableEntry mem t i)) l u) : TableOf mem (n + 1) t l u :=
  Or.inr ⟨i, hi, hlead, h⟩

/-- The tables behind a table of the space belong to the space. -/
theorem tableOf_trans {m k : Nat} (h : TableOf mem n t m r) (h' : TableOf mem m r k u) :
    TableOf mem n t k u := by
  induction n generalizing t with
  | zero =>
    obtain ⟨rfl, rfl⟩ := h
    exact h'
  | succ n ih =>
    rcases h with ⟨rfl, rfl⟩ | ⟨i, hi, hlead, h⟩
    · exact h'
    · exact tableOf_child hi hlead (ih h)

/-- An entry of a table of the space leads to a table of the space. -/
theorem tableOf_next (h : TableOf mem n t (l + 1) u) (hi : i < 512)
    (hlead : leads (tableEntry mem u i) = true) :
    TableOf mem n t l (pteFollow (tableEntry mem u i)) :=
  tableOf_trans h (tableOf_child hi hlead (tableOf_root mem l _))

/-- The tables are pages. -/
theorem aligned_of_tableOf (ht : t.toNat % 4096 = 0) (h : TableOf mem n t l u) :
    u.toNat % 4096 = 0 := by
  induction n generalizing t with
  | zero =>
    rw [h.2]
    exact ht
  | succ n ih =>
    rcases h with ⟨-, rfl⟩ | ⟨i, -, -, h⟩
    · exact ht
    · apply ih _ h
      rw [toNat_pteFollow]
      omega

theorem SameBytes.entry (h : SameBytes mem mem' t) (hi : i < 512) :
    tableEntry mem' t i = tableEntry mem t i :=
  tableEntry_congr hi h

theorem SameSpace.root (h : SameSpace mem mem' n t) : SameBytes mem mem' t :=
  h n t (tableOf_root mem n t)

/-- The bytes of the tables behind an entry are the same. -/
theorem SameSpace.child (h : SameSpace mem mem' (n + 1) t) (hi : i < 512)
    (hlead : leads (tableEntry mem t i) = true) :
    SameSpace mem mem' n (pteFollow (tableEntry mem t i)) := by
  intro l u hu
  exact h l u (tableOf_child hi hlead hu)

/-- The tables depend on their bytes only. -/
theorem tableOf_congr (h : SameSpace mem mem' n t) :
    TableOf mem' n t l u ↔ TableOf mem n t l u := by
  induction n generalizing t with
  | zero => exact Iff.rfl
  | succ n ih =>
    have hentry : ∀ i < 512, tableEntry mem' t i = tableEntry mem t i := fun i hi =>
      h.root.entry hi
    constructor
    · rintro (htop | ⟨i, hi, hlead, hu⟩)
      · exact Or.inl htop
      · rw [hentry i hi] at hlead hu
        exact tableOf_child hi hlead ((ih (h.child hi hlead)).mp hu)
    · rintro (htop | ⟨i, hi, hlead, hu⟩)
      · exact Or.inl htop
      · have hu' := (ih (h.child hi hlead)).mpr hu
        rw [← hentry i hi] at hlead hu'
        exact tableOf_child hi hlead hu'

theorem leveled_congr (h : SameSpace mem mem' n t) : Leveled mem' n t ↔ Leveled mem n t := by
  constructor
  · intro hl l l' u hu hu'
    exact hl l l' u ((tableOf_congr h).mpr hu) ((tableOf_congr h).mpr hu')
  · intro hl l l' u hu hu'
    exact hl l l' u ((tableOf_congr h).mp hu) ((tableOf_congr h).mp hu')

/-- Two entries on a path that are the same, with the same translations behind them. -/
theorem sameEntry_refl {e : UInt64} {c c' : PageTree n}
    (h : leads e = true → ∀ w u x, translateFrom c' q w u x = translateFrom c q w u x) :
    SameEntry e e c c' q := by
  refine ⟨rfl, rfl, fun _ _ => rfl, fun hp hh => ⟨rfl, rfl, rfl, h ?_⟩⟩
  rw [leads, hp, hh]
  rfl

/-- What the CPU sees depends on the bytes of the tables only. -/
theorem translateFrom_congr (hq : ∀ k, q k < 512) (h : SameSpace mem mem' n t) (w u x : Bool) :
    translateFrom (treeAt mem' n t) q w u x = translateFrom (treeAt mem n t) q w u x := by
  induction n generalizing t w u x with
  | zero =>
    rw [treeAt, treeAt, translateFrom, translateFrom, h.root.entry (hq 0)]
  | succ n ih =>
    rw [treeAt, treeAt]
    apply translateFrom_node
    rw [h.root.entry (hq (n + 1))]
    apply sameEntry_refl
    intro hlead w u x
    exact ih (h.child (hq (n + 1)) hlead) w u x

/-- The tables behind the entries of `t` from the `i`-th on. -/
def tablesFrom (mem : Bytes) (n : Nat) (t : UInt64) (i left : Nat) : Nat :=
  ((List.range' i left).map fun i => if leads (tableEntry mem t i) then
    1 + innerTables (treeAt mem n (pteFollow (tableEntry mem t i))) else 0).sum

theorem innerTables_succ (mem : Bytes) (n : Nat) (t : UInt64) :
    innerTables (treeAt mem (n + 1) t) = tablesFrom mem n t 0 512 := by
  rw [treeAt, innerTables]
  rfl

theorem tablesFrom_succ (mem : Bytes) (n : Nat) (t : UInt64) (i left : Nat) :
    tablesFrom mem n t i (left + 1) = (if leads (tableEntry mem t i) then
      1 + innerTables (treeAt mem n (pteFollow (tableEntry mem t i))) else 0) +
        tablesFrom mem n t (i + 1) left := by
  simp only [tablesFrom, List.range'_succ, List.map_cons, List.sum_cons]

theorem tablesFrom_zero (h : ∀ j, i ≤ j → j < i + left → leads (tableEntry mem t j) = false) :
    tablesFrom mem n t i left = 0 := by
  induction left generalizing i with
  | zero => simp only [tablesFrom, List.range'_zero, List.map_nil, List.sum_nil]
  | succ left ih =>
    rw [tablesFrom_succ, h i le_rfl (by omega), ih fun j hj hend => h j (by omega) (by omega)]
    rfl

theorem tablesFrom_congr (hentry : ∀ i < 512, tableEntry mem' t i = tableEntry mem t i)
    (hchild : ∀ i < 512, leads (tableEntry mem t i) = true →
      innerTables (treeAt mem' n (pteFollow (tableEntry mem t i))) =
        innerTables (treeAt mem n (pteFollow (tableEntry mem t i)))) (hleft : i + left ≤ 512) :
    tablesFrom mem' n t i left = tablesFrom mem n t i left := by
  induction left generalizing i with
  | zero => simp only [tablesFrom, List.range'_zero, List.map_nil]
  | succ left ih =>
    have hlt : i < 512 := by omega
    rw [tablesFrom_succ, tablesFrom_succ, ih (i := i + 1) (by omega), hentry i hlt]
    by_cases hlead : leads (tableEntry mem t i) = true
    · have hinner := hchild i hlt hlead
      simp only [hlead, if_true, hinner]
    · simp only [hlead, Bool.false_eq_true, if_false]

/-- The number of the tables depends on their bytes only. -/
theorem innerTables_congr (h : SameSpace mem mem' n t) :
    innerTables (treeAt mem' n t) = innerTables (treeAt mem n t) := by
  induction n generalizing t with
  | zero => simp only [treeAt, innerTables]
  | succ n ih =>
    rw [innerTables_succ, innerTables_succ]
    apply tablesFrom_congr
    · intro i hi
      exact h.root.entry hi
    · intro i hi hlead
      exact ih (h.child hi hlead)
    · omega

end

/-! ### The allocator -/

/-- The allocator hands out pages, and none twice. -/
structure AllocOk (s : MemState) : Prop where
  hhdm : s.hhdmOffset.toNat % 4096 = 0
  regions : ∀ r ∈ s.regions, RegionOk r
  nodup : (stock s).Nodup
  /-- The pages have 52-bit physical addresses. -/
  stockPage : ∀ p ∈ stock s, p.toNat % 4096 = 0 ∧ p.toNat < 2 ^ 52

/-- Between two states, the page `p` became an empty table. -/
structure NewTable (s s' : MemState) (p : UInt64) : Prop where
  ok : AllocOk s'
  hhdm : s'.hhdmOffset = s.hhdmOffset
  inStock : p ∈ stock s
  taken : p ∉ stock s'
  sub : ∀ q ∈ stock s', q ∈ stock s
  length : (stock s).length = (stock s').length + 1
  empty : ∀ i < 512, tableEntry s'.mem p i = 0
  frame : ∀ t : UInt64, t.toNat % 4096 = 0 → t ≠ p → SameBytes s.mem s'.mem t

/-- Two pages do not overlap. -/
theorem pages_apart {p : UInt64} (ht : t.toNat % 4096 = 0) (hp : p.toNat % 4096 = 0) (hne : t ≠ p)
    {a : Nat} (h1 : t.toNat ≤ a) (h2 : a < t.toNat + 4096) : a < p.toNat ∨ p.toNat + 4096 ≤ a := by
  have hnat : t.toNat ≠ p.toNat := fun hc => hne (UInt64.toNat.inj hc)
  omega

/-- A page of the allocator, after it was cleared. -/
theorem newTable_of_kalloc (h : AllocOk s) (halloc : kalloc s = (some page, s₁)) :
    s₁.hhdmOffset = s.hhdmOffset ∧
      NewTable s (s₁.memset page 0 PAGE_SIZE.toUInt64) (s.V2P page) := by
  obtain ⟨hhdm, -, hreg⟩ := kallocFill_lends h.regions halloc
  obtain ⟨y, hmem, -⟩ := kallocFill_mem halloc
  obtain ⟨hin, hnotin, hsub, hnodup, hlength⟩ := kallocFill_takes h.regions h.nodup halloc
  obtain ⟨hal, hlt⟩ := h.stockPage _ hin
  have hV2P : s₁.V2P page = s.V2P page := by
    rw [MemState.V2P, MemState.V2P, hhdm]
  have hfill : (s₁.memset page 0 PAGE_SIZE.toUInt64).mem =
      (s.mem.fill (s.V2P page).toNat 4096 y).fill (s.V2P page).toNat 4096 0 := by
    rw [← hmem, ← hV2P]
    rfl
  refine ⟨hhdm, ?_⟩
  constructor
  · exact ⟨hhdm ▸ h.hhdm, hreg, hnodup, fun q hq => h.stockPage q (hsub q hq)⟩
  · exact hhdm
  · exact hin
  · exact hnotin
  · exact hsub
  · exact hlength
  · intro i hi
    have hzero : ((s.mem.fill (s.V2P page).toNat 4096 y).fill (s.V2P page).toNat 4096 0).getLE 8
        ((s.V2P page).toNat + 8 * i) = Bytes.zero.getLE 8 ((s.V2P page).toNat + 8 * i) :=
      Bytes.getLE_congr fun a h1 h2 => Bytes.fill_of_mem (by omega) (by omega)
    rw [tableEntry, readPte, hfill, hzero, Bytes.getLE_zero]
    rfl
  · intro t ht hne a h1 h2
    have hapart := pages_apart ht hal hne h1 h2
    rw [hfill, Bytes.fill_of_apart hapart, Bytes.fill_of_apart hapart]

/-- A write to an entry changes its page only. -/
theorem writePte_frame (s : MemState) (v : UInt64) (hi : i < 512) (ht : t.toNat % 4096 = 0)
    (hu : u.toNat % 4096 = 0) (hne : u ≠ t) :
    SameBytes s.mem (writePte s (t.toNat + 8 * i) v).mem u := by
  intro a h1 h2
  have hapart := pages_apart hu ht hne h1 h2
  exact Bytes.setLE_of_apart (by omega)

/-! ### Edits -/

/-- A change of a mapping that is no huge page, in the address space of `root`. -/
inductive TableEdit (root : UInt64) (s : MemState) : MemState → Prop
  /-- A missing table is made. -/
  | attach {l i : Nat} {t page flags : UInt64} {s₁ : MemState}
      (table : TableOf s.mem 3 root (l + 1) t) (hi : i < 512)
      (missing : pteIsPresent (tableEntry s.mem t i) = false)
      (hp : flags &&& PTE_P = PTE_P) (hps : flags &&& PTE_PS = 0)
      (haddr : flags &&& PTE_ADDR_MASK = 0) (alloc : kalloc s = (some page, s₁)) :
      TableEdit root s (writePte (s₁.memset page 0 PAGE_SIZE.toUInt64) (t.toNat + 8 * i)
        (flags ||| PTE_SET_ADDR (s.V2P page)))
  /-- An entry of the last level is written, in a table that is on no other level. -/
  | write {i : Nat} {t : UInt64} (v : UInt64) (table : TableOf s.mem 3 root 0 t) (hi : i < 512)
      (last : ∀ l, TableOf s.mem 3 root l t → l = 0) :
      TableEdit root s (writePte s (t.toNat + 8 * i) v)

section

variable {mem mem' : Bytes} {n l : Nat} {r u p : UInt64}

/-- Behind an empty table there is no other one. -/
theorem tableOf_empty (hempty : ∀ i < 512, tableEntry mem p i = 0) (h : TableOf mem n p l u) :
    l = n ∧ u = p := by
  cases n with
  | zero => exact h
  | succ n =>
    rcases h with htop | ⟨i, hi, hlead, -⟩
    · exact htop
    · rw [hempty i hi] at hlead
      exact absurd hlead (by decide)

/-- The entry of a new table leads to it. -/
theorem leads_attached (hp : flags &&& PTE_P = PTE_P) (hps : flags &&& PTE_PS = 0)
    (haddr : flags &&& PTE_ADDR_MASK = 0) (hal : p.toNat % 4096 = 0) (hlt : p.toNat < 2 ^ 52) :
    leads (flags ||| PTE_SET_ADDR p) = true ∧ pteFollow (flags ||| PTE_SET_ADDR p) = p := by
  obtain ⟨hpresent, hfollow⟩ := pte_flags_addr flags haddr hp hal hlt
  refine ⟨?_, hfollow⟩
  have hhuge : (flags ||| PTE_SET_ADDR p) &&& PTE_PS = 0 := by
    rw [flags_and_addr (by decide), hps]
  rw [leads, hpresent, pteIsHuge, hhuge]
  decide

/-- One entry of `mem` has become an entry for the empty table `p`, and no other table has
changed. -/
structure Attached (mem mem' : Bytes) (t : UInt64) (i : Nat) (p : UInt64) : Prop where
  missing : pteIsPresent (tableEntry mem t i) = false
  branch : leads (tableEntry mem' t i) = true
  follow : pteFollow (tableEntry mem' t i) = p
  empty : ∀ j < 512, tableEntry mem' p j = 0
  other : ∀ r : UInt64, r.toNat % 4096 = 0 → r ≠ p → ∀ j < 512, ¬ (r = t ∧ j = i) →
    tableEntry mem' r j = tableEntry mem r j

section

variable (h : Attached mem mem' t i p) (hi : i < 512) (hr : r.toNat % 4096 = 0)
  (hno : ∀ l u, TableOf mem n r l u → u ≠ p)

include h hi hr hno

/-- The only new table is `p`. It is one level below the table with its entry. -/
theorem Attached.tableOf_iff :
    TableOf mem' n r l u ↔ TableOf mem n r l u ∨ u = p ∧ TableOf mem n r (l + 1) t := by
  induction n generalizing r with
  | zero =>
    refine ⟨Or.inl, fun hu => hu.resolve_right fun hc => absurd hc.2.1 (Nat.succ_ne_zero l)⟩
  | succ n ih =>
    have hother := h.other r hr (hno _ _ (tableOf_root mem _ r))
    have hchild : ∀ j < 512, leads (tableEntry mem r j) = true →
        (TableOf mem' n (pteFollow (tableEntry mem r j)) l u ↔
          TableOf mem n (pteFollow (tableEntry mem r j)) l u ∨
            u = p ∧ TableOf mem n (pteFollow (tableEntry mem r j)) (l + 1) t) := by
      intro j hj hlead
      refine ih ?_ fun l u hu => hno l u (tableOf_child hj hlead hu)
      rw [toNat_pteFollow]
      omega
    -- An entry that led to a table is not the new one.
    have hkeep : ∀ j < 512, leads (tableEntry mem r j) = true →
        TableOf mem' n (pteFollow (tableEntry mem r j)) l u → TableOf mem' (n + 1) r l u := by
      intro j hj hlead hu
      have hentry : tableEntry mem' r j = tableEntry mem r j := by
        refine hother j hj ?_
        rintro ⟨rfl, rfl⟩
        rw [leads, h.missing] at hlead
        cases hlead
      rw [← hentry] at hlead hu
      exact tableOf_child hj hlead hu
    constructor
    · rintro (htop | ⟨j, hj, hlead, hu⟩)
      · exact Or.inl (Or.inl htop)
      · by_cases hslot : r = t ∧ j = i
        · -- The entry leads to the new table, which is empty.
          obtain ⟨rfl, rfl⟩ := hslot
          rw [h.follow] at hu
          obtain ⟨rfl, rfl⟩ := tableOf_empty h.empty hu
          exact Or.inr ⟨rfl, tableOf_root mem _ r⟩
        · rw [hother j hj hslot] at hlead hu
          exact ((hchild j hj hlead).mp hu).imp (tableOf_child hj hlead)
            (And.imp_right (tableOf_child hj hlead))
    · rintro ((htop | ⟨j, hj, hlead, hu⟩) | ⟨rfl, htop | ⟨j, hj, hlead, hu⟩⟩)
      · exact Or.inl htop
      · exact hkeep j hj hlead ((hchild j hj hlead).mpr (Or.inl hu))
      · obtain ⟨hl, rfl⟩ := htop
        refine tableOf_child hi h.branch ?_
        rw [h.follow, Nat.succ.inj hl]
        exact tableOf_root mem' n u
      · exact hkeep j hj hlead ((hchild j hj hlead).mpr (Or.inr ⟨rfl, hu⟩))

end

end

/-! ### Two address spaces -/

/-- The address spaces of `a` and `b` have no table in common, and the allocator has none of
their tables. -/
structure Separated (s : MemState) (a b : UInt64) : Prop where
  alloc : AllocOk s
  leftAligned : a.toNat % 4096 = 0
  rightAligned : b.toNat % 4096 = 0
  leftTables : ∀ l u, TableOf s.mem 3 a l u → u ∉ stock s
  rightTables : ∀ l u, TableOf s.mem 3 b l u → u ∉ stock s
  apart : ∀ l l' u, TableOf s.mem 3 a l u → ¬ TableOf s.mem 3 b l' u

section

variable {s s' : MemState} {a b : UInt64}

theorem Separated.symm (h : Separated s a b) : Separated s b a where
  alloc := h.alloc
  leftAligned := h.rightAligned
  rightAligned := h.leftAligned
  leftTables := h.rightTables
  rightTables := h.leftTables
  apart := fun l l' u hb ha => h.apart l' l u ha hb

/-- Taking a page from the allocator and writing an entry for it. -/
theorem attached_of_kalloc (hs : AllocOk s) (ht : t.toNat % 4096 = 0) (hi : i < 512)
    (hstock : t ∉ stock s) (hmissing : pteIsPresent (tableEntry s.mem t i) = false)
    (hp : flags &&& PTE_P = PTE_P) (hps : flags &&& PTE_PS = 0)
    (haddr : flags &&& PTE_ADDR_MASK = 0) (halloc : kalloc s = (some page, s₁))
    (hs' : s' = writePte (s₁.memset page 0 PAGE_SIZE.toUInt64) (t.toNat + 8 * i)
      (flags ||| PTE_SET_ADDR (s.V2P page))) :
    NewTable s (s₁.memset page 0 PAGE_SIZE.toUInt64) (s.V2P page) ∧
      Attached s.mem s'.mem t i (s.V2P page) ∧ AllocOk s' ∧
      stock s' = stock (s₁.memset page 0 PAGE_SIZE.toUInt64) ∧
      ∀ r : UInt64, r.toNat % 4096 = 0 → r ≠ s.V2P page → r ≠ t →
        SameBytes s.mem s'.mem r := by
  obtain ⟨-, hnew⟩ := newTable_of_kalloc hs halloc
  obtain ⟨hal, hlt⟩ := hs.stockPage _ hnew.inStock
  obtain ⟨hlead, hfollow⟩ := leads_attached hp hps haddr hal hlt
  have hne : t ≠ s.V2P page := fun hc => hstock (hc ▸ hnew.inStock)
  have hentry : tableEntry s'.mem t i = flags ||| PTE_SET_ADDR (s.V2P page) := by
    rw [hs', tableEntry, readPte_writePte_self]
  refine ⟨hnew, ⟨hmissing, ?_, ?_, ?_, ?_⟩, ?_, ?_, ?_⟩
  · rw [hentry]
    exact hlead
  · rw [hentry]
    exact hfollow
  · intro j hj
    rw [hs', tableEntry_writePte_of_ne _ _ ht hal hi hj (fun hc => hne hc.1.symm)]
    exact hnew.empty j hj
  · intro r hr hrp j hj hslot
    rw [hs', tableEntry_writePte_of_ne _ _ ht hr hi hj hslot]
    exact (hnew.frame r hr hrp).entry hj
  · rw [hs']
    exact ⟨hnew.ok.hhdm, hnew.ok.regions, hnew.ok.nodup, hnew.ok.stockPage⟩
  · rw [hs']
    rfl
  · intro r hr hrp hrt x h1 h2
    rw [hs', writePte_frame _ _ hi ht hr hrt x h1 h2]
    exact hnew.frame r hr hrp x h1 h2

/-- A write to an entry of the last level leaves the tables as they are. -/
theorem tableOf_write {n l : Nat} {v : UInt64} (ha : a.toNat % 4096 = 0)
    (ht : TableOf s.mem 3 a 0 t) (hi : i < 512) (hlast : ∀ l, TableOf s.mem 3 a l t → l = 0)
    (hr : TableOf s.mem 3 a n r) :
    TableOf (writePte s (t.toNat + 8 * i) v).mem n r l u ↔ TableOf s.mem n r l u := by
  induction n generalizing r with
  | zero => exact Iff.rfl
  | succ n ih =>
    -- A table of a higher level is not the one that is written.
    have hne : r ≠ t := by
      rintro rfl
      exact absurd (hlast _ hr) (by omega)
    have hentry : ∀ j < 512, tableEntry (writePte s (t.toNat + 8 * i) v).mem r j =
        tableEntry s.mem r j := fun j hj =>
      tableEntry_writePte_of_ne s v (aligned_of_tableOf ha ht) (aligned_of_tableOf ha hr) hi hj
        fun hc => hne hc.1
    constructor
    · rintro (htop | ⟨j, hj, hlead, hu⟩)
      · exact Or.inl htop
      · rw [hentry j hj] at hlead hu
        exact tableOf_child hj hlead ((ih (tableOf_next hr hj hlead)).mp hu)
    · rintro (htop | ⟨j, hj, hlead, hu⟩)
      · exact Or.inl htop
      · have hu' := (ih (tableOf_next hr hj hlead)).mpr hu
        rw [← hentry j hj] at hlead hu'
        exact tableOf_child hj hlead hu'

/-- An edit of `a` makes only pages of the allocator tables of `a`, and it does not touch the
tables of `b`. -/
theorem Separated.edit (h : Separated s a b) (hedit : TableEdit a s s') :
    Separated s' a b ∧ SameSpace s.mem s'.mem 3 b := by
  cases hedit with
  | @attach l i t page flags s₁ table hi missing hp hps haddr alloc =>
    -- The new table is a page of the allocator, so it is no table of `b`.
    have ht := aligned_of_tableOf h.leftAligned table
    obtain ⟨hnew, hattached, hok, hstock, hframe⟩ := attached_of_kalloc h.alloc ht hi
      (h.leftTables _ _ table) missing hp hps haddr alloc rfl
    generalize writePte (s₁.memset page 0 PAGE_SIZE.toUInt64) (t.toNat + 8 * i)
      (flags ||| PTE_SET_ADDR (s.V2P page)) = s' at hattached hok hstock hframe
    have hsub : ∀ q ∈ stock s', q ∈ stock s := by
      rw [hstock]
      exact hnew.sub
    have hsame : SameSpace s.mem s'.mem 3 b := by
      intro l' u hu
      apply hframe u (aligned_of_tableOf h.rightAligned hu)
      · rintro rfl
        exact h.rightTables _ _ hu hnew.inStock
      · rintro rfl
        exact h.apart _ _ _ table hu
    have htables : ∀ l u, TableOf s'.mem 3 a l u → TableOf s.mem 3 a l u ∨ u = s.V2P page :=
      fun l u hu => ((hattached.tableOf_iff hi h.leftAligned
        fun l u hu hc => h.leftTables l u hu (hc ▸ hnew.inStock)).mp hu).imp_right And.left
    refine ⟨⟨hok, h.leftAligned, h.rightAligned, ?_, ?_, ?_⟩, hsame⟩
    · intro l' u hu hc
      rcases htables l' u hu with hold | rfl
      · exact h.leftTables l' u hold (hsub u hc)
      · rw [hstock] at hc
        exact hnew.taken hc
    · intro l' u hu hc
      exact h.rightTables l' u ((tableOf_congr hsame).mp hu) (hsub u hc)
    · intro l₁ l₂ u hu hb
      have hb := (tableOf_congr hsame).mp hb
      rcases htables l₁ u hu with hold | rfl
      · exact h.apart l₁ l₂ u hold hb
      · exact h.rightTables l₂ _ hb hnew.inStock
  | @write i t v table hi last =>
    -- On the last level no entry leads to a table, so the tables of `a` stay.
    have ht := aligned_of_tableOf h.leftAligned table
    have hsame : SameSpace s.mem (writePte s (t.toNat + 8 * i) v).mem 3 b := by
      intro l' u hu
      apply writePte_frame s v hi ht (aligned_of_tableOf h.rightAligned hu)
      rintro rfl
      exact h.apart _ _ _ table hu
    have htables : ∀ l u, TableOf (writePte s (t.toNat + 8 * i) v).mem 3 a l u →
        TableOf s.mem 3 a l u := fun l u hu =>
      (tableOf_write h.leftAligned table hi last (tableOf_root s.mem 3 a)).mp hu
    refine ⟨⟨⟨h.alloc.hhdm, h.alloc.regions, h.alloc.nodup, h.alloc.stockPage⟩, h.leftAligned,
      h.rightAligned, ?_, ?_, ?_⟩, hsame⟩
    · intro l' u hu
      exact h.leftTables l' u (htables l' u hu)
    · intro l' u hu
      exact h.rightTables l' u ((tableOf_congr hsame).mp hu)
    · intro l₁ l₂ u hu hb
      exact h.apart l₁ l₂ u (htables l₁ u hu) ((tableOf_congr hsame).mp hb)

end

/-- An edit keeps every table on one level. -/
theorem Separated.leveled {s' : MemState} {a b : UInt64} (h : Separated s a b)
    (hedit : TableEdit a s s') (hleveled : Leveled s.mem 3 a) : Leveled s'.mem 3 a := by
  cases hedit with
  | @attach l i t page flags s₁ table hi missing hp hps haddr alloc =>
    obtain ⟨hnew, hattached, -, -, -⟩ := attached_of_kalloc h.alloc
      (aligned_of_tableOf h.leftAligned table) hi (h.leftTables _ _ table) missing hp hps haddr
      alloc rfl
    have hno : ∀ l u, TableOf s.mem 3 a l u → u ≠ s.V2P page := fun l u hu hc =>
      h.leftTables l u hu (hc ▸ hnew.inStock)
    intro l₁ l₂ u hu hu'
    rcases (hattached.tableOf_iff hi h.leftAligned hno).mp hu with h1 | ⟨rfl, h1⟩ <;>
      rcases (hattached.tableOf_iff hi h.leftAligned hno).mp hu' with h2 | ⟨hp, h2⟩
    · exact hleveled l₁ l₂ u h1 h2
    · exact absurd hp (hno _ _ h1)
    · exact absurd rfl (hno _ _ h2)
    · -- The table with the entry is on one level, and so is the new one.
      exact Nat.succ.inj (hleveled _ _ _ h1 h2)
  | @write i t v table hi last =>
    have htables : ∀ l u, TableOf (writePte s (t.toNat + 8 * i) v).mem 3 a l u →
        TableOf s.mem 3 a l u := fun l u hu =>
      (tableOf_write h.leftAligned table hi last (tableOf_root s.mem 3 a)).mp hu
    intro l₁ l₂ u hu hu'
    exact hleveled l₁ l₂ u (htables l₁ u hu) (htables l₂ u hu')

/-! ### Runs -/

/-- The tables of both address spaces stay as they are: memory is written elsewhere, and pages are
allocated and given back. -/
structure Elsewhere (s s' : MemState) (a b : UInt64) : Prop where
  alloc : AllocOk s'
  left : ∀ l u, TableOf s.mem 3 a l u → SameBytes s.mem s'.mem u ∧ u ∉ stock s'
  right : ∀ l u, TableOf s.mem 3 b l u → SameBytes s.mem s'.mem u ∧ u ∉ stock s'

/-- A step of a system in which both address spaces are edited. -/
inductive SpaceStep (a b : UInt64) (s s' : MemState) : Prop
  | left (edit : TableEdit a s s')
  | right (edit : TableEdit b s s')
  | elsewhere (other : Elsewhere s s' a b)

section

variable {s s' : MemState} {a b : UInt64}

theorem Separated.elsewhere (h : Separated s a b) (hother : Elsewhere s s' a b) :
    Separated s' a b := by
  have hleft : SameSpace s.mem s'.mem 3 a := fun l u hu => (hother.left l u hu).1
  have hright : SameSpace s.mem s'.mem 3 b := fun l u hu => (hother.right l u hu).1
  constructor
  · exact hother.alloc
  · exact h.leftAligned
  · exact h.rightAligned
  · intro l u hu
    exact (hother.left l u ((tableOf_congr hleft).mp hu)).2
  · intro l u hu
    exact (hother.right l u ((tableOf_congr hright).mp hu)).2
  · intro l l' u hu hb
    exact h.apart l l' u ((tableOf_congr hleft).mp hu) ((tableOf_congr hright).mp hb)

/-- A step keeps the address spaces separated. -/
theorem Separated.step (h : Separated s a b) (hstep : SpaceStep a b s s') : Separated s' a b := by
  cases hstep with
  | left edit => exact (h.edit edit).1
  | right edit => exact (h.symm.edit edit).1.symm
  | elsewhere other => exact h.elsewhere other

/-- So does a run. -/
theorem Separated.run (h : Separated s a b) (hrun : Relation.ReflTransGen (SpaceStep a b) s s') :
    Separated s' a b := by
  induction hrun with
  | refl => exact h
  | tail _ hstep ih => exact ih.step hstep

/-- In a run, the tables of `a` stay on one level. -/
theorem Separated.runLeveled (h : Separated s a b) (hleveled : Leveled s.mem 3 a)
    (hrun : Relation.ReflTransGen (SpaceStep a b) s s') : Leveled s'.mem 3 a := by
  induction hrun with
  | refl => exact hleveled
  | tail hrun hstep ih =>
    have hsep := h.run hrun
    cases hstep with
    | left edit => exact hsep.leveled edit ih
    | right edit => exact (leveled_congr (hsep.symm.edit edit).2).mpr ih
    | elsewhere other => exact (leveled_congr fun l u hu => (other.left l u hu).1).mpr ih

/-- The indices of an address. -/
theorem vaPath_lt (va : UInt64) (k : Nat) : vaPath va k < 512 := by
  have hmask : (((1 : UInt64) <<< 9) - 1) = 511 := by decide
  unfold vaPath PTE_INDEX_FROM_VA
  rw [hmask, UInt64.toNat_and]
  exact Nat.lt_succ_of_le Nat.and_le_right

/-- With the same bytes in the tables, the CPU sees the same. -/
theorem translate_congr {mem mem' : Bytes} {root : UInt64} (h : SameSpace mem mem' 3 root)
    (va : UInt64) : translate (treeAt mem' 3 root) va = translate (treeAt mem 3 root) va := by
  unfold DzOS.Mem.translate
  rw [translateFrom_congr (vaPath_lt va) h]

/-- An edit of one address space changes no translation of the other. -/
theorem Separated.translate (h : Separated s a b) (hedit : TableEdit a s s') (va : UInt64) :
    translate (treeAt s'.mem 3 b) va = translate (treeAt s.mem 3 b) va :=
  translate_congr (h.edit hedit).2 va

/-! ### `walk` -/

/-- In an empty table no walk passes a huge page. -/
theorem plainFrom_emptyTable {mem : Bytes} {p va : UInt64} (n : Nat)
    (hempty : ∀ i < 512, tableEntry mem p i = 0) : PlainFrom (treeAt mem n p) (vaPath va) := by
  cases n with
  | zero => exact trivial
  | succ n =>
    intro hpresent
    rw [hempty _ (vaPath_lt va (n + 1))] at hpresent
    exact absurd hpresent (by decide)

/-- The walk of an address, with allocation, edits the address space of `a` if it passes no huge
page. It ends at an entry of the last level. -/
theorem walkLevels_edits {va : UInt64} {level : Nat} (h : Separated s a b)
    (ht : TableOf s.mem 3 a level t) (hplain : PlainFrom (treeAt s.mem level t) (vaPath va)) :
    Relation.ReflTransGen (TableEdit a) s (walkLevels true va level s t).2 ∧
      ∀ slot, (walkLevels true va level s t).1 = some slot →
        ∃ u, ∃ i < 512, TableOf (walkLevels true va level s t).2.mem 3 a 0 u ∧
          slot = u.toNat + 8 * i := by
  induction level generalizing s t with
  | zero =>
    refine ⟨Relation.ReflTransGen.refl, ?_⟩
    intro slot hslot
    cases hslot
    exact ⟨t, vaPath va 0, vaPath_lt va 0, ht, rfl⟩
  | succ level ih =>
    have hindex := vaPath_lt va (level + 1)
    have hpte : readPte s.mem (pteSlot t va (level + 1)) =
        tableEntry s.mem t (vaPath va (level + 1)) := rfl
    rw [walkLevels, hpte]
    by_cases hpresent : pteIsPresent (tableEntry s.mem t (vaPath va (level + 1))) = true
    · -- The walk goes on in the table behind the entry.
      simp only [hpresent, if_true]
      obtain ⟨hhuge, hchild⟩ := hplain hpresent
      have hlead : leads (tableEntry s.mem t (vaPath va (level + 1))) = true := by
        rw [leads, hpresent, hhuge]
        rfl
      exact ih h (tableOf_next ht hindex hlead) hchild
    · simp only [hpresent, Bool.not_true, Bool.false_eq_true, if_false]
      rw [Bool.not_eq_true] at hpresent
      cases halloc : kalloc s with
      | mk page s₁ =>
        cases page with
        | none =>
          rw [kallocFill_none halloc]
          exact ⟨Relation.ReflTransGen.refl, fun slot hslot => by cases hslot⟩
        | some page =>
          -- One table is made, and the walk goes on from it.
          have hV2P : s₁.V2P page = s.V2P page := by
            rw [MemState.V2P, MemState.V2P, (newTable_of_kalloc h.alloc halloc).1]
          have hp : (PTE_P ||| PTE_W ||| PTE_U) &&& PTE_P = PTE_P := by decide
          have hps : (PTE_P ||| PTE_W ||| PTE_U) &&& PTE_PS = 0 := by decide
          have haddr : (PTE_P ||| PTE_W ||| PTE_U) &&& PTE_ADDR_MASK = 0 := by decide
          have hedit := TableEdit.attach ht hindex hpresent hp hps haddr halloc
          obtain ⟨hnew, hattached, -⟩ := attached_of_kalloc h.alloc
            (aligned_of_tableOf h.leftAligned ht) hindex (h.leftTables _ _ ht) hpresent hp hps
            haddr halloc rfl
          have htable := (hattached.tableOf_iff hindex h.leftAligned
            fun l u hu hc => h.leftTables l u hu (hc ▸ hnew.inStock)).mpr (Or.inr ⟨rfl, ht⟩)
          obtain ⟨hrun, hend⟩ := ih (h.edit hedit).1 htable
            (plainFrom_emptyTable level hattached.empty)
          rw [← hV2P] at hedit hrun hend
          exact ⟨Relation.ReflTransGen.head hedit hrun, hend⟩

end

end DzOS.Proofs.Mem
