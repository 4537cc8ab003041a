import DzOS.Proofs.Mem.PageOwnership
import DzOS.Proofs.Mem.PageTable

/-!
# `DzOS.Proofs.Mem.PageTableUpdate`: how mapping a page changes the tables

`mapping` is what the hardware sees: the present entry of a page in the last level.
`TablesOk` is the invariant under which the tables can be changed safely: the tables of the
user half form a tree, none of them is a page that the allocator may hand out, and the
allocator hands out no page twice.

`writeLeaf_tables` and `mapping_writeLeaf` are the rules for writing an entry of the last
level, `attach_spec` is the rule for hanging in a new table, and `walkLevels_alloc` says what
`walk` does when it allocates: it finds or makes the slot and leaves every mapping as it is.
`Held` lists pages that are in use elsewhere, and the rules say that they stay apart from
the tables and from the allocator.
-/

set_option autoImplicit false

namespace DzOS.Proofs.Mem

open DzOS.Lib DzOS.Mem

variable {d page' i page : Nat} {s' s : MemState} {c root t a : UInt64} {mem' mem : Bytes}

/-! ### Entries -/

/-- The address part of an entry. -/
theorem toNat_pteFollow (pte : UInt64) : (pteFollow pte).toNat = pte.toNat / 4096 % 2 ^ 40 * 4096 :=
  toNat_and_shifted_mask pte PTE_ADDR_MASK 40 12 (by decide)

/-- A page-aligned physical address survives `PTE_SET_ADDR`. -/
theorem PTE_SET_ADDR_eq (hal : a.toNat % 4096 = 0) (hlt : a.toNat < 2 ^ 52) :
    PTE_SET_ADDR a = a := by
  apply UInt64.toNat.inj
  have : (PTE_SET_ADDR a).toNat = a.toNat / 4096 % 2 ^ 40 * 4096 := toNat_pteFollow a
  omega

/-- An entry made of flags and an address. -/
theorem pte_flags_addr (flags : UInt64) (hflags : flags &&& PTE_ADDR_MASK = 0)
    (hp : flags &&& PTE_P = PTE_P) (hal : a.toNat % 4096 = 0) (hlt : a.toNat < 2 ^ 52) :
    pteIsPresent (flags ||| PTE_SET_ADDR a) = true ∧ pteFollow (flags ||| PTE_SET_ADDR a) = a := by
  constructor
  · have hlow : PTE_ADDR_MASK &&& PTE_P = 0 := by decide
    have : (flags ||| PTE_SET_ADDR a) &&& PTE_P = PTE_P := by
      rw [or_and, hp, PTE_SET_ADDR, UInt64.and_assoc, hlow, UInt64.and_zero, UInt64.or_zero]
    rw [pteIsPresent, this]
    decide
  · rw [pteFollow, PTE_SET_ADDR, or_masked_and _ _ _ hflags]
    exact PTE_SET_ADDR_eq hal hlt

/-- The entry of a new table. -/
theorem tablePte_spec (hal : a.toNat % 4096 = 0) (hlt : a.toNat < 2 ^ 52) :
    nextTable (PTE_P ||| PTE_W ||| PTE_U ||| PTE_SET_ADDR a) = some a := by
  obtain ⟨hp, hf⟩ := pte_flags_addr (PTE_P ||| PTE_W ||| PTE_U) (by decide) (by decide)
    hal hlt
  rw [nextTable, if_pos hp, hf]

/-- The entry of a heap page. -/
theorem heapPte_spec (hal : a.toNat % 4096 = 0) (hlt : a.toNat < 2 ^ 52) :
    pteIsPresent (buildPte a heapPermissions) = true ∧
      pteFollow (buildPte a heapPermissions) = a := by
  have heq : buildPte a heapPermissions =
      (PTE_P ||| PTE_W ||| PTE_XD ||| PTE_U) ||| PTE_SET_ADDR a := by
    show PTE_P ||| PTE_SET_ADDR a ||| PTE_W ||| PTE_XD ||| PTE_U = _
    ac_rfl
  rw [heq]
  exact pte_flags_addr _ (by decide) (by decide) hal hlt

/-! ### Paths and tables of the user half -/

/-- The paths of the pages that `walk` accepts. -/
def userPaths : Set (Nat → Nat) := { p | ∃ page < 2 ^ 34, p = pagePath page }

theorem pagePath_mem (h : page < 2 ^ 34) : pagePath page ∈ userPaths :=
  ⟨page, h, rfl⟩

theorem pagePath_lt (page d : Nat) : pagePath page d < 512 := Nat.mod_lt _ (by omega)

theorem lt_of_userPath {p : Nat → Nat} (h : p ∈ userPaths) (d : Nat) : p d < 512 := by
  obtain ⟨page, -, rfl⟩ := h
  exact pagePath_lt page d

/-- A page is determined by its path. -/
theorem page_eq_of_agree (h : page < 2 ^ 34) (h' : page' < 2 ^ 34)
    (hag : Trie.Agree (pagePath page) (pagePath page') 4) : page = page' := by
  have h0 : page / 134217728 % 512 = page' / 134217728 % 512 := hag 0 (by omega)
  have h1 : page / 262144 % 512 = page' / 262144 % 512 := hag 1 (by omega)
  have h2 : page / 512 % 512 = page' / 512 % 512 := hag 2 (by omega)
  have h3 : page / 1 % 512 = page' / 1 % 512 := hag 3 (by omega)
  omega

/-- `t` is a table of the user half. -/
def IsTable (mem : Bytes) (root t : UInt64) : Prop :=
  ∃ page < 2 ^ 34, ∃ d ≤ 3, tableAt mem root page d = some t

/-- The present entry of a page in the last level. -/
def mapping (mem : Bytes) (root : UInt64) (page : Nat) : Option UInt64 :=
  (leafEntry mem root page).filter pteIsPresent

/-- The mapping, by the table of the last level. -/
theorem mapping_of_table (h : tableAt mem root page 3 = some t) :
    mapping mem root page =
      (some (tableEntry mem t (pagePath page 3))).filter pteIsPresent := by
  simp [mapping, leafEntry, leafSlot, h, tableEntry]

/-- A page without a table of the last level is not mapped. -/
theorem mapping_of_no_table (h : tableAt mem root page 3 = none) :
    mapping mem root page = none := by
  simp [mapping, leafEntry, leafSlot, h]

/-- Tables are page-aligned. -/
theorem aligned_of_tableAt (hroot : root.toNat % 4096 = 0) (h : tableAt mem root page d = some t) :
    t.toNat % 4096 = 0 := by
  cases d with
  | zero =>
    cases h
    exact hroot
  | succ d =>
    rw [tableAt, Trie.node_succ] at h
    obtain ⟨u, -, hu⟩ := Option.bind_eq_some_iff.mp h
    unfold nextTable at hu
    split at hu
    · cases hu
      rw [toNat_pteFollow]
      omega
    · cases hu

/-! ### Reading after a write -/

/-- An entry reads the bytes of its table only. -/
theorem tableEntry_congr (hi : i < 512)
    (h : ∀ a, t.toNat ≤ a → a < t.toNat + 4096 → mem' a = mem a) :
    tableEntry mem' t i = tableEntry mem t i := by
  unfold tableEntry readPte
  rw [Bytes.getLE_congr fun a h1 h2 => h a (by omega) (by omega)]

/-- Writing an entry and reading it back. -/
theorem readPte_writePte_self (s : MemState) (slot : Nat) (v : UInt64) :
    readPte (writePte s slot v).mem slot = v := by
  have hlt := v.toNat_lt
  rw [readPte, writePte, Bytes.getLE_setLE_self, Nat.mod_eq_of_lt (by omega), UInt64.ofNat_toNat]

/-- Writing an entry leaves the other entries of page-aligned tables alone. -/
theorem tableEntry_writePte_of_ne (s : MemState) {u : UInt64} {j : Nat} (v : UInt64)
    (ht : t.toNat % 4096 = 0) (hu : u.toNat % 4096 = 0) (hi : i < 512) (hj : j < 512)
    (hne : ¬ (u = t ∧ j = i)) :
    tableEntry (writePte s (t.toNat + 8 * i) v).mem u j = tableEntry s.mem u j := by
  unfold tableEntry readPte writePte
  rw [Bytes.getLE_setLE_of_apart]
  by_cases htu : u = t
  · have hij : j ≠ i := fun hc => hne ⟨htu, hc⟩
    rw [htu]
    omega
  · have hnat : u.toNat ≠ t.toNat := fun hc => htu (UInt64.toNat.inj hc)
    omega

/-! ### The invariant -/

/-- The tables and the allocator are in order. -/
structure TablesOk (s : MemState) (root : UInt64) : Prop where
  hhdm : s.hhdmOffset.toNat % 4096 = 0
  regions : ∀ r ∈ s.regions, RegionOk r
  /-- The allocator hands out no page twice. -/
  nodup : (stock s).Nodup
  /-- The pages of the allocator have 52-bit physical addresses. -/
  stockPage : ∀ p ∈ stock s, p.toNat % 4096 = 0 ∧ p.toNat < 2 ^ 52
  rootAligned : root.toNat % 4096 = 0
  /-- The tables of the user half form a tree. -/
  separate : Trie.Separate nextTable userPaths (tableEntry s.mem) root 3
  /-- No table can be handed out. -/
  apart : ∀ t, IsTable s.mem root t → t ∉ stock s

/-- The page `f` is in use: it is neither a table nor in the allocator. -/
def Held (s : MemState) (root f : UInt64) : Prop := ¬ IsTable s.mem root f ∧ f ∉ stock s

/-- The bytes of the tables of `mem` are the same in `mem'`. -/
def SameTables (mem mem' : Bytes) (root : UInt64) : Prop :=
  ∀ t, IsTable mem root t → ∀ a, t.toNat ≤ a → a < t.toNat + 4096 → mem' a = mem a

/-- The tables depend only on the bytes of the tables. -/
theorem tableAt_congr (h : SameTables mem mem' root) (hpage : page < 2 ^ 34) (hd : d ≤ 3) :
    tableAt mem' root page d = tableAt mem root page d := by
  unfold tableAt
  refine Trie.node_congr_ent (V := userPaths) (fun q hq k t hk hn => ?_) (pagePath_mem hpage) hd
  obtain ⟨page', hpage', rfl⟩ := hq
  exact tableEntry_congr (pagePath_lt _ _) (h t ⟨page', hpage', k, by omega, hn⟩)

/-! ### Writing an entry of the last level -/

section WriteLeaf

variable {s : MemState} {root t : UInt64} {page : Nat} (v : UInt64)

section

variable (hok : TablesOk s root) (hpage : page < 2 ^ 34) (ht : tableAt s.mem root page 3 = some t)

include hok hpage ht

/-- The walks do not read the slot that is written, so the tables stay. -/
theorem tableAt_writeLeaf (hpage' : page' < 2 ^ 34) (hd : d ≤ 3) :
    tableAt (writePte s (t.toNat + 8 * pagePath page 3) v).mem root page' d =
      tableAt s.mem root page' d := by
  have htal := aligned_of_tableAt hok.rootAligned ht
  unfold tableAt
  refine Trie.node_congr_ent (V := userPaths) (fun q hq k u hk hn => ?_) (pagePath_mem hpage') hd
  obtain ⟨page₁, hpage₁, rfl⟩ := hq
  have hual : u.toNat % 4096 = 0 := aligned_of_tableAt hok.rootAligned hn
  refine tableEntry_writePte_of_ne s v htal hual (pagePath_lt _ _) (pagePath_lt _ _) ?_
  rintro ⟨rfl, -⟩
  -- A table of the last level is at no other depth.
  have := (hok.separate _ (pagePath_mem hpage) _ (pagePath_mem hpage₁) 3 k u (Nat.le_refl 3)
    (by omega) ht hn).1
  omega

/-- The write changes the mapping of its own page only. -/
theorem mapping_writeLeaf (hpage' : page' < 2 ^ 34) :
    mapping (writePte s (t.toNat + 8 * pagePath page 3) v).mem root page' =
      if page' = page then (some v).filter pteIsPresent else mapping s.mem root page' := by
  have htab := tableAt_writeLeaf v hok hpage ht hpage' (Nat.le_refl 3)
  have htal := aligned_of_tableAt hok.rootAligned ht
  split
  · rename_i heq
    subst heq
    rw [mapping_of_table (htab.trans ht), tableEntry, readPte_writePte_self]
  · rename_i hne
    cases hu : tableAt s.mem root page' 3 with
    | none => rw [mapping_of_no_table (htab.trans hu), mapping_of_no_table hu]
    | some u =>
      have hual := aligned_of_tableAt hok.rootAligned hu
      rw [mapping_of_table (htab.trans hu), mapping_of_table hu,
        tableEntry_writePte_of_ne s v htal hual (pagePath_lt _ _) (pagePath_lt _ _)]
      rintro ⟨rfl, hidx⟩
      refine hne (page_eq_of_agree hpage' hpage ?_)
      exact (Trie.slot_inj hok.separate (pagePath_mem hpage') (pagePath_mem hpage) (Nat.le_refl 3)
        (Nat.le_refl 3) hu ht hidx).2

/-- The write keeps the tables. -/
theorem isTable_writeLeaf (u : UInt64) :
    IsTable (writePte s (t.toNat + 8 * pagePath page 3) v).mem root u ↔ IsTable s.mem root u := by
  constructor
  · rintro ⟨page', hpage', d, hd, hu⟩
    exact ⟨page', hpage', d, hd, (tableAt_writeLeaf v hok hpage ht hpage' hd).symm.trans hu⟩
  · rintro ⟨page', hpage', d, hd, hu⟩
    exact ⟨page', hpage', d, hd, (tableAt_writeLeaf v hok hpage ht hpage' hd).trans hu⟩

/-- The write keeps the invariant. -/
theorem tablesOk_writeLeaf :
    TablesOk (writePte s (t.toNat + 8 * pagePath page 3) v) root where
  hhdm := hok.hhdm
  regions := hok.regions
  nodup := hok.nodup
  stockPage := hok.stockPage
  rootAligned := hok.rootAligned
  separate := by
    rintro p ⟨page₁, hpage₁, rfl⟩ q ⟨page₂, hpage₂, rfl⟩ d e u hd he h1 h2
    refine hok.separate _ (pagePath_mem hpage₁) _ (pagePath_mem hpage₂) d e u hd he ?_ ?_
    · exact (tableAt_writeLeaf v hok hpage ht hpage₁ hd).symm.trans h1
    · exact (tableAt_writeLeaf v hok hpage ht hpage₂ he).symm.trans h2
  apart := fun u hu => hok.apart u ((isTable_writeLeaf v hok hpage ht u).mp hu)

/-- The write leaves the pages in use alone. -/
theorem held_writeLeaf {f : UInt64} (hf : Held s root f) :
    Held (writePte s (t.toNat + 8 * pagePath page 3) v) root f :=
  ⟨fun hc => hf.1 ((isTable_writeLeaf v hok hpage ht f).mp hc), hf.2⟩

end

end WriteLeaf

/-! ### Changes outside the tables -/

section Outside

variable {s s' : MemState} {root : UInt64} (htables : SameTables s.mem s'.mem root)

include htables

/-- A change outside the tables keeps every mapping. -/
theorem mapping_congr (hpage : page < 2 ^ 34) :
    mapping s'.mem root page = mapping s.mem root page := by
  have htab := tableAt_congr htables hpage (Nat.le_refl 3)
  cases ht : tableAt s.mem root page 3 with
  | none => rw [mapping_of_no_table (htab.trans ht), mapping_of_no_table ht]
  | some t =>
    rw [mapping_of_table (htab.trans ht), mapping_of_table ht,
      tableEntry_congr (pagePath_lt _ _) (htables t ⟨page, hpage, 3, Nat.le_refl 3, ht⟩)]

/-- A change outside the tables keeps the tables. -/
theorem isTable_congr (t : UInt64) : IsTable s'.mem root t ↔ IsTable s.mem root t := by
  constructor
  · rintro ⟨page, hpage, d, hd, ht⟩
    exact ⟨page, hpage, d, hd, (tableAt_congr htables hpage hd).symm.trans ht⟩
  · rintro ⟨page, hpage, d, hd, ht⟩
    exact ⟨page, hpage, d, hd, (tableAt_congr htables hpage hd).trans ht⟩

/-- A change outside the tables, with a stock that does not grow, keeps the invariant. -/
theorem tablesOk_congr (hok : TablesOk s root) (hhdm : s'.hhdmOffset = s.hhdmOffset)
    (hreg : ∀ r ∈ s'.regions, RegionOk r) (hnodup : (stock s').Nodup)
    (hsub : ∀ p ∈ stock s', p ∈ stock s) : TablesOk s' root where
  hhdm := hhdm ▸ hok.hhdm
  regions := hreg
  nodup := hnodup
  stockPage := fun p hp => hok.stockPage p (hsub p hp)
  rootAligned := hok.rootAligned
  separate := by
    rintro p ⟨page₁, hpage₁, rfl⟩ q ⟨page₂, hpage₂, rfl⟩ d e u hd he h1 h2
    refine hok.separate _ (pagePath_mem hpage₁) _ (pagePath_mem hpage₂) d e u hd he ?_ ?_
    · exact (tableAt_congr htables hpage₁ hd).symm.trans h1
    · exact (tableAt_congr htables hpage₂ he).symm.trans h2
  apart := fun t ht hc => hok.apart t ((isTable_congr htables t).mp ht) (hsub t hc)

end Outside

/-- Filling a page that is not a table changes nothing in the tables. -/
theorem fill_outside (x : UInt8) (hroot : root.toNat % 4096 = 0) (hal : c.toNat % 4096 = 0)
    (hc : ¬ IsTable mem root c) (ht : IsTable mem root t) {a : Nat} (h1 : t.toNat ≤ a)
    (h2 : a < t.toNat + 4096) : mem.fill c.toNat 4096 x a = mem a := by
  have hne : t.toNat ≠ c.toNat := by
    intro heq
    rw [UInt64.toNat.inj heq] at ht
    exact hc ht
  obtain ⟨page, -, d, -, htab⟩ := ht
  have htal := aligned_of_tableAt hroot htab
  exact Bytes.fill_of_apart (by omega)

/-! ### Hanging in a table -/

/-- What happens between two states when at most `k` pages of the allocator become tables. -/
structure Grows (s s' : MemState) (root : UInt64) (k : Nat) : Prop where
  ok : TablesOk s' root
  hhdm : s'.hhdmOffset = s.hhdmOffset
  mapping : ∀ page < 2 ^ 34, mapping s'.mem root page = mapping s.mem root page
  held : ∀ f, Held s root f → Held s' root f
  sub : ∀ p ∈ stock s', p ∈ stock s
  stock : (stock s).length ≤ (stock s').length + k

theorem Grows.refl (hok : TablesOk s root) (k : Nat) : Grows s s root k :=
  ⟨hok, rfl, fun _ _ => rfl, fun _ h => h, fun _ h => h, by omega⟩

theorem Grows.trans {s'' : MemState} {k l : Nat} (h : Grows s s' root k)
    (h' : Grows s' s'' root l) :
    Grows s s'' root (k + l) where
  ok := h'.ok
  hhdm := h'.hhdm.trans h.hhdm
  mapping := fun page hp => (h'.mapping page hp).trans (h.mapping page hp)
  held := fun f hf => h'.held f (h.held f hf)
  sub := fun p hp => h.sub p (h'.sub p hp)
  stock := by
    have h1 := h.stock
    have h2 := h'.stock
    omega

/-- Taking a page from the allocator. The page is in use from now on. -/
theorem take_spec {ptr : UInt64} {x : UInt8} (hok : TablesOk s root)
    (h : kallocFill s x = (some ptr, s')) :
    Grows s s' root 1 ∧ SameTables s.mem s'.mem root ∧ Held s' root (s.V2P ptr) ∧
      (s.V2P ptr).toNat % 4096 = 0 ∧ (s.V2P ptr).toNat < 2 ^ 52 ∧ s.V2P ptr ∈ stock s := by
  obtain ⟨hhdm, -, hreg⟩ := kallocFill_lends hok.regions h
  obtain ⟨y, hmem, -⟩ := kallocFill_mem h
  obtain ⟨hin, hnotin, hsub, hnodup, hlength⟩ := kallocFill_takes hok.regions hok.nodup h
  obtain ⟨hal, hlt⟩ := hok.stockPage _ hin
  have hnt : ¬ IsTable s.mem root (s.V2P ptr) := fun hc => hok.apart _ hc hin
  have htables : SameTables s.mem s'.mem root := by
    intro t ht a h1 h2
    rw [hmem]
    exact fill_outside y hok.rootAligned hal hnt ht h1 h2
  refine ⟨?_, htables, ⟨fun hc => hnt ((isTable_congr htables _).mp hc), hnotin⟩, hal, hlt, hin⟩
  exact {
    ok := tablesOk_congr htables hok hhdm hreg hnodup hsub
    hhdm := hhdm
    mapping := fun page hp => mapping_congr htables hp
    held := fun f hf =>
      ⟨fun hc => hf.1 ((isTable_congr htables f).mp hc), fun hc => hf.2 (hsub f hc)⟩
    sub := hsub
    stock := Nat.le_of_eq hlength }

/-- Hanging a page in use into an empty slot as an empty table. -/
theorem attach_spec {v : UInt64} (hok : TablesOk s root) (hheld : Held s root c)
    (hal : c.toNat % 4096 = 0) (hpage : page < 2 ^ 34) (hd : d < 3)
    (ht : tableAt s.mem root page d = some t)
    (hempty : nextTable (tableEntry s.mem t (pagePath page d)) = none) (hv : nextTable v = some c)
    (hs' : s' = writePte { s with mem := s.mem.fill c.toNat 4096 0 }
      (t.toNat + 8 * pagePath page d) v) :
    TablesOk s' root ∧ tableAt s'.mem root page (d + 1) = some c ∧
    (∀ page' < 2 ^ 34, mapping s'.mem root page' = mapping s.mem root page') ∧
    (∀ f, f ≠ c → Held s root f → Held s' root f) := by
  have htal := aligned_of_tableAt hok.rootAligned ht
  have htable : IsTable s.mem root t := ⟨page, hpage, d, by omega, ht⟩
  have hne : ∀ u, IsTable s.mem root u → u ≠ c := fun u hu heq => hheld.1 (heq ▸ hu)
  have hstock : stock s' = stock s := by rw [hs']; rfl
  -- The entries after the change: the slot, the new table, and the rest.
  have hslot : tableEntry s'.mem t (pagePath page d) = v := by
    rw [hs', tableEntry, readPte_writePte_self]
  have hkeep : ∀ u, IsTable s.mem root u → ∀ i < 512, ¬ (u = t ∧ i = pagePath page d) →
      tableEntry s'.mem u i = tableEntry s.mem u i := by
    intro u hu i hi hne'
    obtain ⟨page₁, -, d₁, -, hu'⟩ := id hu
    rw [hs', tableEntry_writePte_of_ne _ v htal (aligned_of_tableAt hok.rootAligned hu')
      (pagePath_lt _ _) hi hne']
    exact tableEntry_congr hi fun a h1 h2 => fill_outside 0 hok.rootAligned hal hheld.1 hu h1 h2
  have hclear : ∀ i < 512, nextTable (tableEntry s'.mem c i) = none := by
    intro i hi
    rw [hs', tableEntry_writePte_of_ne _ v htal hal (pagePath_lt _ _) hi
      (fun hc => hne t htable hc.1.symm)]
    have hzero : tableEntry (s.mem.fill c.toNat 4096 0) c i = 0 := by
      have hzeros : (s.mem.fill c.toNat 4096 0).getLE 8 (c.toNat + 8 * i) =
          Bytes.zero.getLE 8 (c.toNat + 8 * i) :=
        Bytes.getLE_congr fun a h1 h2 => Bytes.fill_of_mem (by omega) (by omega)
      rw [tableEntry, readPte, hzeros, Bytes.getLE_zero]
      rfl
    show nextTable (tableEntry (s.mem.fill c.toNat 4096 0) c i) = none
    rw [hzero]
    decide
  have hattach : Trie.Attach nextTable userPaths (tableEntry s.mem) (tableEntry s'.mem) root
      (pagePath page) d 3 t c := {
    hnode := ht
    hlt := hd
    hempty := hempty
    hfull := by rw [hslot, hv]
    hclear := fun q hq k _ => hclear _ (lt_of_userPath hq k)
    hfresh := by
      rintro q ⟨page₁, hpage₁, rfl⟩ k hk hn
      exact hheld.1 ⟨page₁, hpage₁, k, hk, hn⟩
    hkeep := by
      rintro q ⟨page₁, hpage₁, rfl⟩ k hk u hu hnot
      refine hkeep u ⟨page₁, hpage₁, k, hk, hu⟩ _ (pagePath_lt _ _) ?_
      rintro ⟨rfl, hidx⟩
      have hdk := (hok.separate _ (pagePath_mem hpage₁) _ (pagePath_mem hpage) k d u hk
        (by omega) hu ht).1
      subst hdk
      exact hnot ⟨rfl, (Trie.slot_inj hok.separate (pagePath_mem hpage₁) (pagePath_mem hpage) hk
        hk hu ht hidx).2⟩ }
  have hnode := fun {page' k : Nat} (hpage' : page' < 2 ^ 34) (hk : k ≤ 3) =>
    Trie.node_attach hattach (pagePath_mem hpage') hk
  have htables : ∀ u, IsTable s'.mem root u → IsTable s.mem root u ∨ u = c := by
    rintro u ⟨page', hpage', k, hk, hu⟩
    by_cases hcase : k = d + 1 ∧ Trie.Agree (pagePath page') (pagePath page) (d + 1)
    · have := (hnode hpage' hk).1 hcase.1 hcase.2
      exact Or.inr (Option.some.inj (hu.symm.trans this))
    · exact Or.inl ⟨page', hpage', k, hk, ((hnode hpage' hk).2 hcase).symm.trans hu⟩
  refine ⟨?_, ?_, fun page' hpage' => ?_, fun f hf hheldf => ⟨fun hc => ?_, ?_⟩⟩
  · exact {
      hhdm := by rw [hs']; exact hok.hhdm
      regions := by rw [hs']; exact hok.regions
      nodup := by rw [hstock]; exact hok.nodup
      stockPage := by rw [hstock]; exact hok.stockPage
      rootAligned := hok.rootAligned
      separate := Trie.separate_attach hattach hok.separate
      apart := fun u hu hc => by
        rw [hstock] at hc
        rcases htables u hu with hu | rfl
        · exact hok.apart u hu hc
        · exact hheld.2 hc }
  · exact (hnode hpage (by omega)).1 rfl (fun i _ => rfl)
  · by_cases hcase : 3 = d + 1 ∧ Trie.Agree (pagePath page') (pagePath page) (d + 1)
    · -- The page ran into the empty slot before, and into the empty table now.
      have hnew : tableAt s'.mem root page' 3 = some c :=
        (hnode hpage' (by omega)).1 hcase.1 hcase.2
      have hd2 : d = 2 := by omega
      subst hd2
      have hold : tableAt s.mem root page' 3 = none := by
        rw [tableAt, Trie.node_succ, Trie.node_congr (hcase.2.mono (by omega))]
        rw [tableAt] at ht
        rw [ht, Option.bind_some, hcase.2 2 (by omega)]
        exact hempty
      rw [mapping_of_table hnew, mapping_of_no_table hold]
      have hnone := hclear _ (pagePath_lt page' 3)
      unfold nextTable at hnone
      split at hnone
      · cases hnone
      · rename_i hp
        simp [Option.filter, hp]
    · have hsame : tableAt s'.mem root page' 3 = tableAt s.mem root page' 3 :=
        (hnode hpage' (by omega)).2 hcase
      cases hu : tableAt s.mem root page' 3 with
      | none => rw [mapping_of_no_table (hsame.trans hu), mapping_of_no_table hu]
      | some u =>
        rw [mapping_of_table (hsame.trans hu), mapping_of_table hu,
          hkeep u ⟨page', hpage', 3, Nat.le_refl 3, hu⟩ _ (pagePath_lt _ _)]
        rintro ⟨rfl, -⟩
        have := (hok.separate _ (pagePath_mem hpage') _ (pagePath_mem hpage) 3 d u (Nat.le_refl 3)
          (by omega) hu ht).1
        omega
  · rcases htables f hc with hc | hc
    · exact hheldf.1 hc
    · exact hf hc
  · rw [hstock]
    exact hheldf.2

/-- What `walk` does when it allocates. It finds the slot of the page, after making at most
`level` tables, or it runs out of memory. -/
theorem walkLevels_alloc (va : UInt64) {level : Nat} (hok : TablesOk s root)
    (hva : va.toNat < 2 ^ 46) (hlevel : level ≤ 3)
    (ht : tableAt s.mem root (va.toNat / 4096) (3 - level) = some t) :
    (∃ s', walkLevels true va level s t = (none, s') ∧ s'.hhdmOffset = s.hhdmOffset ∧
      (stock s).length < level) ∨
    ∃ s' u, walkLevels true va level s t =
        (some (u.toNat + 8 * pagePath (va.toNat / 4096) 3), s') ∧
      Grows s s' root level ∧ tableAt s'.mem root (va.toNat / 4096) 3 = some u := by
  have hpage : va.toNat / 4096 < 2 ^ 34 := by omega
  induction level generalizing s t with
  | zero =>
    have hslot := pteSlot_eq t va (Nat.le_refl 3)
    simp only [Nat.sub_self] at hslot
    refine Or.inr ⟨s, t, ?_, Grows.refl hok 0, ht⟩
    rw [walkLevels, hslot]
  | succ level ih =>
    have hslot := pteSlot_eq t va (d := 3 - (level + 1)) (by omega)
    rw [show 3 - (3 - (level + 1)) = level + 1 by omega] at hslot
    have hdepth : 3 - (level + 1) + 1 = 3 - level := by omega
    unfold walkLevels
    simp only [hslot, Bool.not_true, Bool.false_eq_true, if_false]
    split
    · -- The table of the next level exists.
      rename_i hp
      have hnext : tableAt s.mem root (va.toNat / 4096) (3 - level) =
          some (pteFollow (readPte s.mem
            (t.toNat + 8 * pagePath (va.toNat / 4096) (3 - (level + 1))))) := by
        rw [tableAt] at ht
        rw [← hdepth, tableAt, Trie.node_succ, ht, Option.bind_some, tableEntry, nextTable,
          if_pos hp]
      rcases ih hok (by omega) hnext with ⟨s', hrun, hhdm, hshort⟩ | ⟨s', u, hrun, hgrow, hu⟩
      · exact Or.inl ⟨s', hrun, hhdm, by omega⟩
      · exact Or.inr ⟨s', u, hrun, hgrow.trans (Grows.refl hgrow.ok 1), hu⟩
    · rename_i hp
      split
      · rename_i s₁ halloc
        have hempty := stock_of_kallocFill_none halloc
        refine Or.inl ⟨s₁, rfl, by rw [kallocFill_none halloc], ?_⟩
        rw [hempty, List.length_nil]
        omega
      · -- A new table is hung in.
        rename_i ptr s₁ halloc
        obtain ⟨hgrow, hsame, hheld, hal, hlt, hin⟩ := take_spec hok halloc
        have hV2P : s₁.V2P ptr = s.V2P ptr := by rw [MemState.V2P, MemState.V2P, hgrow.hhdm]
        have ht₁ : tableAt s₁.mem root (va.toNat / 4096) (3 - (level + 1)) = some t :=
          (tableAt_congr hsame hpage (by omega)).trans ht
        have hempty : nextTable (tableEntry s₁.mem t
            (pagePath (va.toNat / 4096) (3 - (level + 1)))) = none := by
          rw [tableEntry_congr (pagePath_lt _ _)
            (hsame t ⟨_, hpage, 3 - (level + 1), by omega, ht⟩), tableEntry, nextTable, if_neg hp]
        generalize hs₂ : writePte (s₁.memset ptr 0 PAGE_SIZE.toUInt64) _ _ = s₂
        have hs₂' : s₂ = writePte { s₁ with mem := s₁.mem.fill (s.V2P ptr).toNat 4096 0 }
            (t.toNat + 8 * pagePath (va.toNat / 4096) (3 - (level + 1)))
            (PTE_P ||| PTE_W ||| PTE_U ||| PTE_SET_ADDR (s.V2P ptr)) := by
          rw [← hs₂, MemState.memset, hV2P, toNat_PAGE_SIZE_toUInt64]
          rw [show MemState.V2P { s₁ with mem := s₁.mem.fill (s.V2P ptr).toNat 4096 0 } ptr =
            s.V2P ptr from hV2P]
        obtain ⟨hok₂, hnew, hmap₂, hheld₂⟩ := attach_spec hgrow.ok hheld hal hpage (by omega) ht₁
          hempty (tablePte_spec hal hlt) hs₂'
        have hgrow₂ : Grows s s₂ root 1 := {
          ok := hok₂
          hhdm := by rw [hs₂']; exact hgrow.hhdm
          mapping := fun page' hp' => (hmap₂ page' hp').trans (hgrow.mapping page' hp')
          held := fun f hf => hheld₂ f (fun hc => hf.2 (hc ▸ hin)) (hgrow.held f hf)
          sub := by rw [hs₂']; exact hgrow.sub
          stock := by rw [hs₂']; exact hgrow.stock }
        rw [hdepth] at hnew
        have hV2P₂ : s₂.V2P ptr = s.V2P ptr := by rw [MemState.V2P, MemState.V2P, hgrow₂.hhdm]
        rw [hV2P₂]
        have hleft := hgrow₂.stock
        rcases ih hok₂ (by omega) hnew with ⟨s', hrun, hhdm, hshort⟩ | ⟨s', u, hrun, hgrow', hu⟩
        · exact Or.inl ⟨s', hrun, hhdm.trans hgrow₂.hhdm, by omega⟩
        · exact Or.inr ⟨s', u, hrun, by
            rw [Nat.add_comm level 1]
            exact hgrow₂.trans hgrow', hu⟩

end DzOS.Proofs.Mem
