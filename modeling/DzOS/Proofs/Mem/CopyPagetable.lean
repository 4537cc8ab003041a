import DzOS.Mem.NewSpace
import DzOS.Proofs.Mem.TableTree

/-!
# `DzOS.Proofs.Mem.CopyPagetable`: the deep copy of a page table

`copy_pagetable` makes a page of the allocator the copy of each inner table of the source, and
copies the entries that lead to no table as they are. `DeepCopy` says what it leaves behind: the
CPU sees the same in both tables, no table of the source was touched, and every inner table of the
copy was a page of the allocator before. The proof is an induction over the levels, with an
induction over the entries of a table inside (`copyEntries_copied`).

The source may have huge pages on every level, and may use one table twice. It only has to lie
apart from the copy and from the pages of the allocator, which must be as many as its inner tables
(`CopyReady`).

So the two address spaces are separated, and they stay so when either of them is edited.
-/

set_option autoImplicit false

namespace DzOS.Proofs.Mem

open DzOS.Lib DzOS.Mem

variable {k : Nat} {p a b v : UInt64} {s₂ s s₃ s₄ : MemState}

/-! ### One table -/

section

variable {s : MemState} {dst src : UInt64}

/-- The entries of a copied table. -/
theorem copyTable_entry {i : Nat} (hi : i < 512) :
    tableEntry (s.copyTable dst src).mem dst i = tableEntry s.mem src i := by
  have hlen : (s.mem.slice src.toNat PAGE_SIZE.toNat).length = 4096 := Bytes.length_slice _ _ _
  have hword : (s.mem.blit dst.toNat (s.mem.slice src.toNat PAGE_SIZE.toNat)).getLE 8
      (dst.toNat + 8 * i) = s.mem.getLE 8 (src.toNat + 8 * i) := by
    apply Bytes.getLE_shift
    intro k hk
    have hstart : dst.toNat ≤ dst.toNat + 8 * i + k := by omega
    rw [Bytes.blit_of_mem hstart (by rw [hlen]; omega), Bytes.getElem_slice]
    rw [show src.toNat + (dst.toNat + 8 * i + k - dst.toNat) = src.toNat + 8 * i + k by omega]
  exact congrArg UInt64.ofNat hword

/-- The copy changes its own page only. -/
theorem copyTable_frame {t : UInt64} (hdst : dst.toNat % 4096 = 0) (ht : t.toNat % 4096 = 0)
    (hne : t ≠ dst) : SameBytes s.mem (s.copyTable dst src).mem t := by
  intro a h1 h2
  have hapart := pages_apart ht hdst hne h1 h2
  apply Bytes.blit_of_apart
  rw [Bytes.length_slice]
  exact hapart

end

/-- The entry of a copied inner table leads to it. -/
theorem copiedPte_leads (pteSrc : UInt64) (hal : p.toNat % 4096 = 0) (hlt : p.toNat < 2 ^ 52) :
    leads (copiedPte pteSrc p) = true ∧ pteFollow (copiedPte pteSrc p) = p := by
  obtain ⟨hpresent, hhuge, -, -, -⟩ := copiedPte_spec pteSrc p
  have hlead : leads (copiedPte pteSrc p) = true := by
    rw [leads, hpresent, hhuge]
    rfl
  refine ⟨hlead, ?_⟩
  rw [copiedPte_eq]
  generalize pteIsWritable pteSrc = w
  generalize pteIsUser pteSrc = u
  generalize ((pteSrc &&& PTE_XD) != 0) = xd
  apply (pte_flags_addr _ _ _ hal hlt).2
  · cases w <;> cases u <;> cases xd <;> decide
  · cases w <;> cases u <;> cases xd <;> decide

/-! ### The statement -/

/-- The tables of the source lie apart from the page `dst` and from the pages of the allocator. -/
structure CopyReady (n : Nat) (s : MemState) (dst src : UInt64) : Prop where
  alloc : AllocOk s
  dstAligned : dst.toNat % 4096 = 0
  dstTaken : dst ∉ stock s
  srcAligned : src.toNat % 4096 = 0
  srcTables : ∀ l u, TableOf s.mem n src l u → u ≠ dst ∧ u ∉ stock s

/-- The pages that a function has taken from the allocator, and what it has not touched. -/
structure TakesPages (s s' : MemState) (dst : UInt64) (k : Nat) : Prop where
  alloc : AllocOk s'
  hhdm : s'.hhdmOffset = s.hhdmOffset
  sub : ∀ p ∈ stock s', p ∈ stock s
  length : (stock s).length = (stock s').length + k
  frame : ∀ t : UInt64, t.toNat % 4096 = 0 → t ≠ dst → t ∉ stock s → SameBytes s.mem s'.mem t

/-- The table `dst` is a copy of the table `src` of the level `n`, which was made between two
states. -/
structure DeepCopy (n : Nat) (s s' : MemState) (dst src : UInt64) : Prop where
  takes : TakesPages s s' dst (innerTables (treeAt s.mem n src))
  same : ∀ q : Nat → Nat, (∀ k, q k < 512) → ∀ w u x,
    translateFrom (treeAt s'.mem n dst) q w u x = translateFrom (treeAt s.mem n src) q w u x
  fresh : ∀ l u, TableOf s'.mem n dst l u → (l = n ∧ u = dst) ∨ (u ∈ stock s ∧ u ∉ stock s')
  leveled : Leveled s'.mem n dst

/-- The entry `j` of `dst` was copied. -/
structure EntryCopied (n : Nat) (s s' : MemState) (dst src : UInt64) (j : Nat) : Prop where
  plain : leads (tableEntry s.mem src j) = false →
    tableEntry s'.mem dst j = tableEntry s.mem src j
  table : leads (tableEntry s.mem src j) = true → ∃ inner : UInt64,
    tableEntry s'.mem dst j = copiedPte (tableEntry s.mem src j) inner ∧
    inner.toNat % 4096 = 0 ∧ inner.toNat < 2 ^ 52 ∧
    (∀ q : Nat → Nat, (∀ k, q k < 512) → ∀ w u x, translateFrom (treeAt s'.mem n inner) q w u x =
      translateFrom (treeAt s.mem n (pteFollow (tableEntry s.mem src j))) q w u x) ∧
    (∀ l u, TableOf s'.mem n inner l u → u ∈ stock s ∧ u ∉ stock s') ∧
    Leveled s'.mem n inner

/-- `u` is a table behind the entry `j` of `t`. -/
def Behind (mem : Bytes) (n : Nat) (t : UInt64) (j l : Nat) (u : UInt64) : Prop :=
  leads (tableEntry mem t j) = true ∧ TableOf mem n (pteFollow (tableEntry mem t j)) l u

/-- The loop has copied the entries from the `i`-th on. -/
structure LoopCopied (n : Nat) (s s' : MemState) (dst src : UInt64) (i left : Nat) : Prop where
  takes : TakesPages s s' dst (tablesFrom s.mem n src i left)
  before : ∀ j < i, tableEntry s'.mem dst j = tableEntry s.mem dst j
  entries : ∀ j < 512, i ≤ j → EntryCopied n s s' dst src j
  disjoint : ∀ j k l l' u, i ≤ j → j < k → k < 512 → Behind s'.mem n dst j l u →
    ¬ Behind s'.mem n dst k l' u

section

variable {n : Nat} {s s' s₁ : MemState} {dst src : UInt64} {i left j l : Nat} {u : UInt64}

/-- The bytes of the source stay. -/
theorem CopyReady.sameSpace (h : CopyReady n s dst src) (ht : TakesPages s s' dst k) :
    SameSpace s.mem s'.mem n src := by
  intro l u hu
  obtain ⟨hne, hstock⟩ := h.srcTables l u hu
  exact ht.frame u (aligned_of_tableOf h.srcAligned hu) hne hstock

/-- The source stays ready. -/
theorem CopyReady.takes (h : CopyReady n s dst src) (ht : TakesPages s s' dst k) :
    CopyReady n s' dst src where
  alloc := ht.alloc
  dstAligned := h.dstAligned
  dstTaken := fun hc => h.dstTaken (ht.sub dst hc)
  srcAligned := h.srcAligned
  srcTables := by
    intro l u hu
    obtain ⟨hne, hstock⟩ := h.srcTables l u ((tableOf_congr (h.sameSpace ht)).mp hu)
    exact ⟨hne, fun hc => hstock (ht.sub u hc)⟩

theorem TakesPages.trans {m : Nat} (h : TakesPages s s₁ dst k) (h' : TakesPages s₁ s' dst m) :
    TakesPages s s' dst (k + m) where
  alloc := h'.alloc
  hhdm := h'.hhdm.trans h.hhdm
  sub := fun p hp => h.sub p (h'.sub p hp)
  length := by
    have h1 := h.length
    have h2 := h'.length
    omega
  frame := by
    intro t ht hne hstock a h1 h2
    rw [h'.frame t ht hne (fun hc => hstock (h.sub t hc)) a h1 h2]
    exact h.frame t ht hne hstock a h1 h2

/-- The tables behind a copied entry are pages that were taken. -/
theorem EntryCopied.behind (h : EntryCopied n s s' dst src j)
    (hu : Behind s'.mem n dst j l u) : u ∈ stock s ∧ u ∉ stock s' := by
  obtain ⟨hlead, hu⟩ := hu
  cases hsrc : leads (tableEntry s.mem src j) with
  | false =>
    rw [h.plain hsrc, hsrc] at hlead
    cases hlead
  | true =>
    obtain ⟨inner, hentry, hal, hlt, -, htables, -⟩ := h.table hsrc
    rw [hentry, (copiedPte_leads _ hal hlt).2] at hu
    exact htables l u hu

/-- An entry that was copied after the source was seen in an earlier state. -/
theorem EntryCopied.earlier (h : EntryCopied n s₁ s' dst src j) (hj : j < 512)
    (hready : CopyReady (n + 1) s dst src) (ht : TakesPages s s₁ dst k) :
    EntryCopied n s s' dst src j := by
  have hsame := hready.sameSpace ht
  have hentry := hsame.root.entry hj
  constructor
  · intro hlead
    rw [← hentry] at hlead ⊢
    exact h.plain hlead
  · intro hlead
    have hchild := hsame.child hj hlead
    rw [← hentry] at hlead
    obtain ⟨inner, hcopied, hal, hlt, hsub, htables, hleveled⟩ := h.table hlead
    rw [hentry] at hcopied hsub
    refine ⟨inner, hcopied, hal, hlt, ?_, ?_, hleveled⟩
    · intro q hq w u x
      rw [hsub q hq, translateFrom_congr hq hchild]
    · intro l u hu
      exact ⟨ht.sub u (htables l u hu).1, (htables l u hu).2⟩

/-- A page of the allocator is ready for the copy of the table behind an entry. -/
theorem CopyReady.inner (h : CopyReady (n + 1) s dst src) (hnew : NewTable s s₂ p) (hi : i < 512)
    (hlead : leads (tableEntry s.mem src i) = true) :
    CopyReady n s₂ p (pteFollow (tableEntry s.mem src i)) ∧
      SameSpace s.mem s₂.mem n (pteFollow (tableEntry s.mem src i)) := by
  have hout : ∀ l u, TableOf s.mem n (pteFollow (tableEntry s.mem src i)) l u →
      u.toNat % 4096 = 0 ∧ u ≠ p ∧ u ∉ stock s := by
    intro l u hu
    have htable := tableOf_child hi hlead hu
    obtain ⟨-, hstock⟩ := h.srcTables l u htable
    exact ⟨aligned_of_tableOf h.srcAligned htable, fun hc => hstock (hc ▸ hnew.inStock), hstock⟩
  have hsame : SameSpace s.mem s₂.mem n (pteFollow (tableEntry s.mem src i)) := by
    intro l u hu
    obtain ⟨hal, hne, -⟩ := hout l u hu
    exact hnew.frame u hal hne
  refine ⟨⟨hnew.ok, ?_, hnew.taken, ?_, ?_⟩, hsame⟩
  · exact (h.alloc.stockPage p hnew.inStock).1
  · rw [toNat_pteFollow]
    omega
  · intro l u hu
    obtain ⟨-, hne, hstock⟩ := hout l u ((tableOf_congr hsame).mp hu)
    exact ⟨hne, fun hc => hstock (hnew.sub u hc)⟩

/-- The steps of the loop for one entry: a page, its copy and the entry for it. -/
theorem takesPages_entry (hdst : dst.toNat % 4096 = 0) (hi : i < 512) (hnew : NewTable s s₂ p)
    (hcopy : TakesPages s₂ s₃ p k) :
    TakesPages s (writePte s₃ (dst.toNat + 8 * i) v) dst (1 + k) where
  alloc := ⟨hcopy.alloc.hhdm, hcopy.alloc.regions, hcopy.alloc.nodup, hcopy.alloc.stockPage⟩
  hhdm := hcopy.hhdm.trans hnew.hhdm
  sub := fun q hq => hnew.sub q (hcopy.sub q hq)
  length := by
    have h1 := hnew.length
    have h2 := hcopy.length
    have h3 : stock (writePte s₃ (dst.toNat + 8 * i) v) = stock s₃ := rfl
    rw [h3]
    omega
  frame := by
    intro t ht hne hstock a h1 h2
    have htp : t ≠ p := fun hc => hstock (hc ▸ hnew.inStock)
    rw [writePte_frame s₃ v hi hdst ht hne a h1 h2,
      hcopy.frame t ht htp (fun hc => hstock (hnew.sub t hc)) a h1 h2]
    exact hnew.frame t ht htp a h1 h2

/-- The other entries of the copy stay. -/
theorem entry_other (hready : CopyReady (n + 1) s dst src) (hi : i < 512) (hnew : NewTable s s₂ p)
    (hcopy : TakesPages s₂ s₃ p k) (hs₄ : s₄ = writePte s₃ (dst.toNat + 8 * i) v) (hj : j < 512)
    (hji : j ≠ i) : tableEntry s₄.mem dst j = tableEntry s.mem dst j := by
  have hdp : dst ≠ p := fun hc => hready.dstTaken (hc ▸ hnew.inStock)
  have hds₂ : dst ∉ stock s₂ := fun hc => hready.dstTaken (hnew.sub dst hc)
  rw [hs₄, tableEntry_writePte_of_ne s₃ _ hready.dstAligned hready.dstAligned hi hj
    (fun hc => hji hc.2), (hcopy.frame dst hready.dstAligned hdp hds₂).entry hj]
  exact (hnew.frame dst hready.dstAligned hdp).entry hj

/-- One entry that leads to a table, and the loop over the entries behind it. -/
theorem LoopCopied.cons (hready : CopyReady (n + 1) s dst src) (hi : i < 512)
    (hend : i + 1 + left ≤ 512) (hlead : leads (tableEntry s.mem src i) = true)
    (hnew : NewTable s s₂ p) (hcopy : DeepCopy n s₂ s₃ p (pteFollow (tableEntry s.mem src i)))
    (hs₄ : s₄ = writePte s₃ (dst.toNat + 8 * i) (copiedPte (tableEntry s.mem src i) p))
    (hloop : LoopCopied n s₄ s' dst src (i + 1) left) : LoopCopied n s s' dst src i (left + 1) := by
  obtain ⟨hal, hlt⟩ := hready.alloc.stockPage p hnew.inStock
  obtain ⟨-, hbehind⟩ := hready.inner hnew hi hlead
  have hstock : stock s₄ = stock s₃ := by
    rw [hs₄]
    rfl
  have htakes : TakesPages s s₄ dst
      (1 + innerTables (treeAt s.mem n (pteFollow (tableEntry s.mem src i)))) := by
    rw [← innerTables_congr hbehind, hs₄]
    exact takesPages_entry hready.dstAligned hi hnew hcopy.takes
  have hsource := hready.sameSpace htakes
  -- The source was not touched, so the same tables are left to copy.
  have hcount : tablesFrom s₄.mem n src (i + 1) left = tablesFrom s.mem n src (i + 1) left :=
    tablesFrom_congr (fun j hj => hsource.root.entry hj)
      (fun j hj hlead => innerTables_congr (hsource.child hj hlead)) hend
  -- The rest of the loop does not come back to this entry.
  have hentry : tableEntry s'.mem dst i = copiedPte (tableEntry s.mem src i) p := by
    rw [hloop.before i (by omega), hs₄, tableEntry, readPte_writePte_self]
  -- The tables behind the entry are the copy, and the rest of the loop leaves them alone.
  have htables : ∀ l u, TableOf s₃.mem n p l u → u ∈ stock s ∧ u ∉ stock s₃ := by
    intro l u hu
    rcases hcopy.fresh l u hu with ⟨-, rfl⟩ | ⟨hin, hout⟩
    · exact ⟨hnew.inStock, fun hc => hnew.taken (hcopy.takes.sub u hc)⟩
    · exact ⟨hnew.sub u hin, hout⟩
  have hsame : SameSpace s₃.mem s'.mem n p := by
    intro l u hu a h1 h2
    obtain ⟨hin, hout⟩ := htables l u hu
    have hual := (hready.alloc.stockPage u hin).1
    have hne : u ≠ dst := fun hc => hready.dstTaken (hc ▸ hin)
    rw [hloop.takes.frame u hual hne (hstock ▸ hout) a h1 h2, hs₄]
    exact writePte_frame s₃ _ hi hready.dstAligned hual hne a h1 h2
  constructor
  · rw [tablesFrom_succ, if_pos hlead, ← hcount]
    exact htakes.trans hloop.takes
  · intro j hj
    rw [hloop.before j (by omega)]
    exact entry_other hready hi hnew hcopy.takes hs₄ (by omega) (by omega)
  · intro j hj hij
    by_cases hji : j = i
    · subst hji
      refine ⟨fun hc => absurd (hlead.symm.trans hc) (by simp), fun _ => ?_⟩
      refine ⟨p, hentry, hal, hlt, ?_, ?_, ?_⟩
      · intro q hq w u x
        rw [translateFrom_congr hq hsame, hcopy.same q hq, translateFrom_congr hq hbehind]
      · intro l u hu
        obtain ⟨hin, hout⟩ := htables l u ((tableOf_congr hsame).mp hu)
        exact ⟨hin, fun hc => hout (hstock ▸ hloop.takes.sub u hc)⟩
      · intro l l' u hu hu'
        exact hcopy.leveled l l' u ((tableOf_congr hsame).mp hu) ((tableOf_congr hsame).mp hu')
    · exact (hloop.entries j hj (by omega)).earlier hj hready htakes
  · intro j k l l' u hij hjk hk hu hu'
    by_cases hji : j = i
    · -- A page behind a later entry was still in the allocator when this entry was done.
      subst hji
      rw [Behind, hentry, (copiedPte_leads _ hal hlt).2] at hu
      have hout := (htables l u ((tableOf_congr hsame).mp hu.2)).2
      exact hout (hstock ▸ ((hloop.entries k hk (by omega)).behind hu').1)
    · exact hloop.disjoint j k l l' u (by omega) hjk hk hu hu'

/-- An entry that leads to no table was copied before the loop. -/
theorem LoopCopied.skip (hi : i < 512) (hlead : ¬ leads (tableEntry s.mem src i) = true)
    (hsame : tableEntry s.mem dst i = tableEntry s.mem src i)
    (hloop : LoopCopied n s s' dst src (i + 1) left) :
    LoopCopied n s s' dst src i (left + 1) := by
  have hentry : tableEntry s'.mem dst i = tableEntry s.mem src i := by
    rw [hloop.before i (by omega)]
    exact hsame
  constructor
  · rw [tablesFrom_succ, if_neg hlead, Nat.zero_add]
    exact hloop.takes
  · intro j hj
    exact hloop.before j (by omega)
  · intro j hj hij
    by_cases hji : j = i
    · subst hji
      exact ⟨fun _ => hentry, fun hc => absurd hc hlead⟩
    · exact hloop.entries j hj (by omega)
  · intro j k l l' u hij hjk hk hu
    by_cases hji : j = i
    · -- There is no table behind this entry.
      subst hji
      rw [Behind, hentry] at hu
      exact absurd hu.1 hlead
    · exact hloop.disjoint j k l l' u (by omega) hjk hk hu

section

variable {inner : MemState → UInt64 → UInt64 → Except String (Int × MemState)}
  (hinner : ∀ s dst src, CopyReady n s dst src →
    innerTables (treeAt s.mem n src) ≤ (stock s).length →
    ∃ s', inner s dst src = .ok (0, s') ∧ DeepCopy n s s' dst src)

include hinner

/-- A turn of the loop on an entry that leads to a table: a page is taken, the table is copied to
it, and the entry is written. -/
theorem copyEntries_table (hready : CopyReady (n + 1) s dst src) (hi : i < 512)
    (hlead : leads (tableEntry s.mem src i) = true)
    (hmemory : 1 + innerTables (treeAt s.mem n (pteFollow (tableEntry s.mem src i))) ≤
      (stock s).length) (left : Nat) :
    ∃ s₂ s₃ p, NewTable s s₂ p ∧ DeepCopy n s₂ s₃ p (pteFollow (tableEntry s.mem src i)) ∧
      MemState.copyEntries inner dst src (left + 1) i s =
        MemState.copyEntries inner dst src left (i + 1)
          (writePte s₃ (dst.toNat + 8 * i) (copiedPte (tableEntry s.mem src i) p)) := by
  have hpte : readPte s.mem (src.toNat + 8 * i) = tableEntry s.mem src i := rfl
  have hcond : (pteIsPresent (tableEntry s.mem src i) &&
      !pteIsHuge (tableEntry s.mem src i)) = true := hlead
  rw [MemState.copyEntries, hpte]
  simp only [hcond, if_true]
  cases halloc : kalloc s with
  | mk page s₁ =>
    cases page with
    | none =>
      -- The allocator has a page for this table.
      rw [stock_of_kallocFill_none halloc] at hmemory
      simp only [List.length_nil] at hmemory
      omega
    | some page =>
      obtain ⟨hhdm, hnew⟩ := newTable_of_kalloc hready.alloc halloc
      have hV2P : (s₁.memset page 0 PAGE_SIZE.toUInt64).V2P page = s.V2P page := by
        show page - s₁.hhdmOffset = page - s.hhdmOffset
        rw [hhdm]
      simp only [hV2P]
      generalize s₁.memset page 0 PAGE_SIZE.toUInt64 = s₂ at hnew hV2P
      generalize hp : s.V2P page = p at hnew hV2P
      obtain ⟨hinnerReady, hbehind⟩ := hready.inner hnew hi hlead
      -- One page is gone, so the rest is enough for the tables behind the entry.
      have hlength := hnew.length
      have hcount := innerTables_congr hbehind
      obtain ⟨s₃, hrun, hcopy⟩ := hinner s₂ p _ hinnerReady (by omega)
      have hV2P₃ : s₃.V2P page = p := by
        show page - s₃.hhdmOffset = p
        rw [hcopy.takes.hhdm]
        exact hV2P
      rw [hrun]
      simp only [ne_eq, not_true_eq_false, if_false, hV2P₃]
      exact ⟨s₂, s₃, p, hnew, hcopy, rfl⟩

/-- The loop of `copy_pagetable`, by what it does for an inner table. -/
theorem copyEntries_copied (hend : i + left = 512) (hready : CopyReady (n + 1) s dst src)
    (hmemory : tablesFrom s.mem n src i left ≤ (stock s).length)
    (hrest : ∀ j < 512, i ≤ j → tableEntry s.mem dst j = tableEntry s.mem src j) :
    ∃ s', MemState.copyEntries inner dst src left i s = .ok (0, s') ∧
      LoopCopied n s s' dst src i left := by
  induction left generalizing s i with
  | zero =>
    refine ⟨s, rfl, ⟨⟨hready.alloc, rfl, fun _ h => h, rfl, fun _ _ _ _ _ _ _ => rfl⟩,
      fun _ _ => rfl, ?_, ?_⟩⟩
    · intro j hj hij
      omega
    · intro j k l l' u hij hjk hk
      omega
  | succ left ih =>
    have hi : i < 512 := by omega
    rw [tablesFrom_succ] at hmemory
    by_cases hlead : leads (tableEntry s.mem src i) = true
    · rw [if_pos hlead] at hmemory
      obtain ⟨s₂, s₃, p, hnew, hcopy, hturn⟩ :=
        copyEntries_table hinner hready hi hlead (by omega) left
      have htakes := takesPages_entry (i := i) (v := copiedPte (tableEntry s.mem src i) p)
        hready.dstAligned hi hnew hcopy.takes
      have hsource := hready.sameSpace htakes
      have hleft := htakes.length
      have hcount := innerTables_congr (hready.inner hnew hi hlead).2
      generalize hs₄ : writePte s₃ (dst.toNat + 8 * i)
        (copiedPte (tableEntry s.mem src i) p) = s₄ at hturn htakes hsource hleft
      -- The loop goes on in a state with the same source and the entries that are left.
      have hcountFrom : tablesFrom s₄.mem n src (i + 1) left =
          tablesFrom s.mem n src (i + 1) left :=
        tablesFrom_congr (fun j hj => hsource.root.entry hj)
          (fun j hj hlead => innerTables_congr (hsource.child hj hlead)) (by omega)
      have hrest' : ∀ j < 512, i + 1 ≤ j →
          tableEntry s₄.mem dst j = tableEntry s₄.mem src j := by
        intro j hj hij
        rw [entry_other hready hi hnew hcopy.takes hs₄.symm hj (by omega), hsource.root.entry hj]
        exact hrest j hj (by omega)
      obtain ⟨s', hloop, hdone⟩ := ih (i := i + 1) (by omega) (hready.takes htakes) (by omega)
        hrest'
      rw [hturn]
      exact ⟨s', hloop, hdone.cons hready hi (by omega) hlead hnew hcopy hs₄.symm⟩
    · have hcond : ¬ (pteIsPresent (tableEntry s.mem src i) &&
          !pteIsHuge (tableEntry s.mem src i)) = true := hlead
      have hturn : MemState.copyEntries inner dst src (left + 1) i s =
          MemState.copyEntries inner dst src left (i + 1) s := by
        rw [MemState.copyEntries]
        exact if_neg hcond
      rw [if_neg hlead] at hmemory
      obtain ⟨s', hrun, hloop⟩ := ih (i := i + 1) (by omega) hready (by omega)
        fun j hj hij => hrest j hj (by omega)
      rw [hturn]
      exact ⟨s', hrun, hloop.skip hi hlead (hrest i hi le_rfl)⟩

/-! ### All levels -/

end

/-- The bulk copy at the start takes no page. -/
theorem takesPages_copyTable (h : CopyReady n s dst src) :
    TakesPages s (s.copyTable dst src) dst 0 where
  alloc := ⟨h.alloc.hhdm, h.alloc.regions, h.alloc.nodup, h.alloc.stockPage⟩
  hhdm := rfl
  sub := fun _ hq => hq
  length := rfl
  frame := fun _ ht hne _ => copyTable_frame h.dstAligned ht hne

/-- A copied entry gives the translations of the original. -/
theorem EntryCopied.sameEntry (h : EntryCopied n s s' dst src j) {q : Nat → Nat}
    (hq : ∀ k, q k < 512) :
    SameEntry (tableEntry s.mem src j) (tableEntry s'.mem dst j)
      (treeAt s.mem n (pteFollow (tableEntry s.mem src j)))
      (treeAt s'.mem n (pteFollow (tableEntry s'.mem dst j))) q := by
  cases hlead : leads (tableEntry s.mem src j) with
  | false =>
    rw [h.plain hlead]
    apply sameEntry_refl
    intro hc
    rw [hlead] at hc
    cases hc
  | true =>
    -- The entry was built anew, with the flags of the original.
    obtain ⟨inner, hentry, hal, hlt, hsame, -, -⟩ := h.table hlead
    obtain ⟨hpresent, hhuge, hw, hu, hx⟩ := copiedPte_spec (tableEntry s.mem src j) inner
    have hfollow := (copiedPte_leads (tableEntry s.mem src j) hal hlt).2
    obtain ⟨hp, hh⟩ : pteIsPresent (tableEntry s.mem src j) = true ∧
        pteIsHuge (tableEntry s.mem src j) = false := by
      simpa [leads] using hlead
    rw [hentry]
    refine ⟨hpresent.trans hp.symm, hhuge.trans hh.symm, ?_, ?_⟩
    · intro _ hc
      rw [hh] at hc
      cases hc
    · intro _ _
      rw [hfollow]
      exact ⟨hw, hu, hx, hsame q hq⟩

/-- The whole table, when its entries have been copied. -/
theorem LoopCopied.deepCopy (hready : CopyReady (n + 1) s dst src)
    (h : LoopCopied n (s.copyTable dst src) s' dst src 0 512) :
    DeepCopy (n + 1) s s' dst src := by
  have hcopy := takesPages_copyTable hready
  -- The bulk copy does not touch the source, so the loop sees the original entries.
  have hsource := hready.sameSpace hcopy
  have hentries : ∀ j < 512, EntryCopied n s s' dst src j := fun j hj =>
    (h.entries j hj (Nat.zero_le j)).earlier hj hready hcopy
  have hbehind : ∀ j < 512, ∀ l u, Behind s'.mem n dst j l u → u ∈ stock s ∧ u ∉ stock s' :=
    fun j hj l u hu => (hentries j hj).behind hu
  constructor
  · rw [← innerTables_congr hsource, innerTables_succ, ← Nat.zero_add (tablesFrom _ _ _ _ _)]
    exact hcopy.trans h.takes
  · intro q hq w u x
    rw [treeAt, treeAt]
    apply translateFrom_node
    exact (hentries (q (n + 1)) (hq (n + 1))).sameEntry hq
  · intro l u hu
    rcases hu with htop | ⟨j, hj, hlead, hu⟩
    · exact Or.inl htop
    · exact Or.inr (hbehind j hj l u ⟨hlead, hu⟩)
  · intro l l' u hu hu'
    rcases hu with ⟨rfl, rfl⟩ | ⟨j, hj, hlead, hu⟩
    · rcases hu' with ⟨rfl, -⟩ | ⟨k, hk, hlead', hu'⟩
      · rfl
      · exact absurd (hbehind k hk l' _ ⟨hlead', hu'⟩).1 hready.dstTaken
    · rcases hu' with ⟨rfl, rfl⟩ | ⟨k, hk, hlead', hu'⟩
      · exact absurd (hbehind j hj l _ ⟨hlead, hu⟩).1 hready.dstTaken
      · rcases Nat.lt_trichotomy j k with hjk | rfl | hkj
        · exact absurd ⟨hlead', hu'⟩ (h.disjoint j k l l' u (Nat.zero_le j) hjk hk ⟨hlead, hu⟩)
        · -- Both tables are behind one entry.
          have hcopied := hentries j hj
          cases hsrc : leads (tableEntry s.mem src j) with
          | false =>
            rw [hcopied.plain hsrc, hsrc] at hlead
            cases hlead
          | true =>
            obtain ⟨inner, hentry, hal, hlt, -, -, hleveled⟩ := hcopied.table hsrc
            rw [hentry, (copiedPte_leads _ hal hlt).2] at hu hu'
            exact hleveled l l' u hu hu'
        · exact absurd ⟨hlead, hu⟩ (h.disjoint k j l' l u (Nat.zero_le k) hkj hj ⟨hlead', hu'⟩)

/-- `copy_pagetable` makes a deep copy when the allocator has as many pages as the source has
inner tables. -/
theorem copyPagetable_copies (n : Nat) (hready : CopyReady n s dst src)
    (hmemory : innerTables (treeAt s.mem n src) ≤ (stock s).length) :
    ∃ s', MemState.copyPagetable n s dst src = .ok (0, s') ∧ DeepCopy n s s' dst src := by
  induction n generalizing s dst src with
  | zero =>
    refine ⟨s.copyTable dst src, rfl, ?_⟩
    constructor
    · exact takesPages_copyTable hready
    · intro q hq w u x
      rw [treeAt, treeAt, translateFrom, translateFrom, copyTable_entry (hq 0)]
    · intro l u hu
      exact Or.inl hu
    · intro l l' u hu hu'
      exact hu.1.trans hu'.1.symm
  | succ n ih =>
    have hcopy := takesPages_copyTable hready
    have hsource := hready.sameSpace hcopy
    have hcount : tablesFrom (s.copyTable dst src).mem n src 0 512 =
        innerTables (treeAt s.mem (n + 1) src) := by
      rw [← innerTables_succ, innerTables_congr hsource]
    have hstart : ∀ j < 512, 0 ≤ j → tableEntry (s.copyTable dst src).mem dst j =
        tableEntry (s.copyTable dst src).mem src j := by
      intro j hj _
      rw [copyTable_entry hj, hsource.root.entry hj]
    obtain ⟨s', hrun, hloop⟩ := copyEntries_copied (fun s dst src => ih) (Nat.zero_add 512)
      (hready.takes hcopy) (hcount ▸ hmemory) hstart
    exact ⟨s', hrun, hloop.deepCopy hready⟩

/-! ### Two address spaces -/

/-- The copy and its source have no table in common. -/
theorem DeepCopy.separated (hready : CopyReady 3 s dst src) (h : DeepCopy 3 s s' dst src) :
    Separated s' dst src := by
  have hready' := hready.takes h.takes
  constructor
  · exact hready'.alloc
  · exact hready.dstAligned
  · exact hready.srcAligned
  · intro l u hu
    rcases h.fresh l u hu with ⟨-, rfl⟩ | ⟨-, hout⟩
    · exact hready'.dstTaken
    · exact hout
  · intro l u hu
    exact (hready'.srcTables l u hu).2
  · intro l l' u hu hsrc
    -- The tables of the source are neither `dst` nor pages that the allocator had.
    obtain ⟨hne, hstock⟩ :=
      hready.srcTables l' u ((tableOf_congr (hready.sameSpace h.takes)).mp hsrc)
    rcases h.fresh l u hu with ⟨-, hdst⟩ | ⟨hin, -⟩
    · exact hne hdst
    · exact hstock hin

end

/-- A step is a step of the same two address spaces, named the other way round. -/
theorem SpaceStep.symm {s' : MemState} (h : SpaceStep a b s s') : SpaceStep b a s s' := by
  cases h with
  | left edit => exact SpaceStep.right edit
  | right edit => exact SpaceStep.left edit
  | elsewhere other => exact SpaceStep.elsewhere ⟨other.alloc, other.right, other.left⟩

/-- The two address spaces do not depend on each other: in every run from `s`, an edit of one
changes no translation of the other. -/
structure Independent (s : MemState) (a b : UInt64) : Prop where
  inner : ∀ u, InnerTable s.mem a u → ¬ InnerTable s.mem b u
  left : ∀ t, Relation.ReflTransGen (SpaceStep a b) s t → ∀ t', TableEdit a t t' →
    ∀ va, translate (treeAt t'.mem 3 b) va = translate (treeAt t.mem 3 b) va
  right : ∀ t, Relation.ReflTransGen (SpaceStep a b) s t → ∀ t', TableEdit b t t' →
    ∀ va, translate (treeAt t'.mem 3 a) va = translate (treeAt t.mem 3 a) va
  /-- If the tables were on one level each, they are so in the run, and every entry of the last
  level may be edited. -/
  leftLeveled : Leveled s.mem 3 a → ∀ t, Relation.ReflTransGen (SpaceStep a b) s t →
    Leveled t.mem 3 a
  rightLeveled : Leveled s.mem 3 b → ∀ t, Relation.ReflTransGen (SpaceStep a b) s t →
    Leveled t.mem 3 b

/-- Separated address spaces are independent. -/
theorem Separated.independent (h : Separated s a b) :
    Independent s a b where
  inner := by
    intro u hu hu'
    obtain ⟨l, -, hu⟩ := hu
    obtain ⟨l', -, hu'⟩ := hu'
    exact h.apart l l' u hu hu'
  left := fun _ hrun _ hedit va => (h.run hrun).translate hedit va
  right := fun _ hrun _ hedit va => (h.run hrun).symm.translate hedit va
  leftLeveled := fun hleveled _ hrun => h.runLeveled hleveled hrun
  rightLeveled := by
    intro hleveled t hrun
    have hswap : Relation.ReflTransGen (SpaceStep b a) s t :=
      hrun.lift id fun _ _ hstep => SpaceStep.symm hstep
    exact h.symm.runLeveled hleveled hswap

/-- With a page for each inner table of the source, `copy_pagetable` succeeds. The CPU then sees
the same in the copy as in the source, and the two are independent. -/
theorem copyPagetable_independent {s : MemState} {dst src : UInt64}
    (hready : CopyReady 3 s dst src)
    (hmemory : innerTables (treeAt s.mem 3 src) ≤ (stock s).length) :
    ∃ s', MemState.copyPagetable 3 s dst src = .ok (0, s') ∧
      (∀ va, translate (treeAt s'.mem 3 dst) va = translate (treeAt s.mem 3 src) va) ∧
      (∀ va, translate (treeAt s'.mem 3 src) va = translate (treeAt s.mem 3 src) va) ∧
      Leveled s'.mem 3 dst ∧ (Leveled s.mem 3 src → Leveled s'.mem 3 src) ∧
      Independent s' dst src := by
  obtain ⟨s', hrun, hcopy⟩ := copyPagetable_copies 3 hready hmemory
  have hsource := hready.sameSpace hcopy.takes
  refine ⟨s', hrun, ?_, ?_, hcopy.leveled, (leveled_congr hsource).mpr, ?_⟩
  · intro va
    unfold DzOS.Mem.translate
    rw [hcopy.same (vaPath va) (vaPath_lt va)]
  · exact translate_congr hsource
  · exact (hcopy.separated hready).independent

/-- A machine where the table at `0x1000` leads to an empty one at `0x3000`, and the page at
`0x5000` is free. -/
def oneTableMachine : MemState :=
  writePte { MemState.boot Bytes.zero with freepages := [0x5000] } 0x1000
    (PTE_P ||| PTE_W ||| PTE_SET_ADDR 0x3000)

theorem tableEntry_zero (r : UInt64) (j : Nat) : tableEntry Bytes.zero r j = 0 := by
  rw [tableEntry, readPte, Bytes.getLE_zero]
  rfl

theorem attached_oneTableMachine : Attached Bytes.zero oneTableMachine.mem 0x1000 0 0x3000 := by
  have hother : ∀ r : UInt64, r.toNat % 4096 = 0 → ∀ j < 512, ¬ (r = 0x1000 ∧ j = 0) →
      tableEntry oneTableMachine.mem r j = tableEntry Bytes.zero r j := fun r hr j hj hslot =>
    tableEntry_writePte_of_ne { MemState.boot Bytes.zero with freepages := [0x5000] } _
      (t := 0x1000) (i := 0) (by decide) hr (by omega) hj hslot
  have hentry : tableEntry oneTableMachine.mem 0x1000 0 =
      PTE_P ||| PTE_W ||| PTE_SET_ADDR 0x3000 := by
    rw [tableEntry]
    exact readPte_writePte_self _ _ _
  constructor
  · rw [tableEntry_zero]
    decide
  · rw [hentry]
    decide
  · rw [hentry]
    decide
  · intro j hj
    rw [hother 0x3000 (by decide) j hj (by simp), tableEntry_zero]
  · intro r hr _
    exact hother r hr

theorem stock_oneTableMachine : stock oneTableMachine = [0x5000] := by rfl

theorem copyReady_oneTableMachine : CopyReady 3 oneTableMachine 0x2000 0x1000 := by
  have hno : ∀ l u, TableOf Bytes.zero 3 0x1000 l u → u = 0x1000 := fun l u hu =>
    (tableOf_empty (fun j _ => tableEntry_zero 0x1000 j) hu).2
  refine ⟨⟨by rfl, ?_, ?_, ?_⟩, by decide, ?_, by decide, ?_⟩
  · exact fun r hr => absurd hr List.not_mem_nil
  · rw [stock_oneTableMachine]
    simp
  · rw [stock_oneTableMachine]
    simp
  · rw [stock_oneTableMachine]
    simp
  · intro l u hu
    -- The tables are the root and the one table behind it.
    have hcases : u = 0x1000 ∨ u = 0x3000 :=
      ((attached_oneTableMachine.tableOf_iff (by decide) (by decide)
        fun l u hu => by rw [hno l u hu]; decide).mp hu).imp (hno l u) And.left
    rw [stock_oneTableMachine]
    rcases hcases with rfl | rfl <;> simp

theorem innerTables_oneTableMachine : innerTables (treeAt oneTableMachine.mem 3 0x1000) = 1 := by
  have hattached := attached_oneTableMachine
  have hrest : tablesFrom oneTableMachine.mem 2 0x1000 1 511 = 0 := by
    apply tablesFrom_zero
    intro j hj hend
    rw [hattached.other 0x1000 (by decide) (by decide) j (by omega) (by omega),
      tableEntry_zero]
    decide
  have hbelow : innerTables (treeAt oneTableMachine.mem 2 0x3000) = 0 := by
    rw [innerTables_succ]
    apply tablesFrom_zero
    intro j _ hend
    rw [hattached.empty j (by omega)]
    decide
  have hsplit := tablesFrom_succ oneTableMachine.mem 2 0x1000 0 511
  rw [hattached.branch, if_pos rfl, hattached.follow, hbelow] at hsplit
  rw [innerTables_succ]
  exact hsplit.trans (by rw [hrest])

/-- The copy of this table takes the free page. -/
theorem copyPagetable_oneTable :
    innerTables (treeAt oneTableMachine.mem 3 0x1000) = 1 ∧
      ∃ s', MemState.copyPagetable 3 oneTableMachine 0x2000 0x1000 = .ok (0, s') ∧
        Independent s' 0x2000 0x1000 := by
  have hmemory : innerTables (treeAt oneTableMachine.mem 3 0x1000) ≤
      (stock oneTableMachine).length := by
    rw [innerTables_oneTableMachine, stock_oneTableMachine]
    simp
  obtain ⟨s', hrun, -, -, -, -, hindependent⟩ :=
    copyPagetable_independent copyReady_oneTableMachine hmemory
  exact ⟨innerTables_oneTableMachine, s', hrun, hindependent⟩

end DzOS.Proofs.Mem
