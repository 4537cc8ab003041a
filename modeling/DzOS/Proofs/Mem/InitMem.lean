import DzOS.Mem.Mem

/-!
# `DzOS.Proofs.Mem.InitMem`: what `init_mem` registers

`init_mem` rounds the base of each usable entry up and its end down to page boundaries, and
appends the range to `regions`. `initMem_regions` gives the regions list after the loop:
one region for each usable entry that survives the rounding, in order.

The rounding masks are 32 bits wide (`DzOS.Mem.Page`). An entry below 4 GiB is registered
exactly (`regionOf_hasPage`). An entry that reaches 4 GiB or more is registered at its low
32 bits, or dropped. No registered region reaches the last page below 4 GiB
(`regionOf_physEnd`), so the last page of such an entry is always missing.
`initMem_exact_iff` puts the two together: the intake is exact if and only if every usable
entry that holds a whole page ends below 4 GiB.
-/

set_option autoImplicit false

namespace DzOS.Proofs.Mem

open DzOS.Lib DzOS.Mem

variable {r : MemRegion} {e : MemmapEntry} {s : MemState} {memoryMap : List (Option MemmapEntry)}

/-- The usable entries of a memory map, in order. -/
def usable (memoryMap : List (Option MemmapEntry)) : List MemmapEntry :=
  (memoryMap.filterMap id).filter (·.type = LIMINE_MEMMAP_USABLE)

/-- The page at the physical address `p` lies wholly inside the entry. -/
def HoldsPage (e : MemmapEntry) (p : Nat) : Prop :=
  p % 4096 = 0 ∧ e.base.toNat ≤ p ∧ p + 4096 ≤ e.base.toNat + e.length.toNat

/-- The page at the physical address `p` lies in the part of the region that is not carved
yet. -/
def HasPage (r : MemRegion) (p : Nat) : Prop :=
  p % 4096 = 0 ∧ r.physCur.toNat ≤ p ∧ p < r.physEnd.toNat

/-- The byte at the physical address `x` belongs to the entry. -/
def HoldsByte (e : MemmapEntry) (x : Nat) : Prop :=
  e.base.toNat ≤ x ∧ x < e.base.toNat + e.length.toNat

/-- A memory map that the static pool can take: at most `STATIC_REGION_POOL_SIZE` usable
entries, pairwise disjoint, none of which wraps around the 64-bit address space. -/
structure MapOk (memoryMap : List (Option MemmapEntry)) : Prop where
  count : (usable memoryMap).length ≤ STATIC_REGION_POOL_SIZE
  disjoint : (usable memoryMap).Pairwise fun e e' => ∀ x, ¬ (HoldsByte e x ∧ HoldsByte e' x)
  noWrap : ∀ e ∈ usable memoryMap, e.base.toNat + e.length.toNat < 2 ^ 64

/-- The regions hold exactly the pages inside usable entries, and no page twice. -/
structure IntakeExact (memoryMap : List (Option MemmapEntry)) (s : MemState) : Prop where
  pages : ∀ p, (∃ r ∈ s.regions, HasPage r p) ↔ ∃ e ∈ usable memoryMap, HoldsPage e p
  disjoint : s.regions.Pairwise fun r r' => ∀ p, ¬ (HasPage r p ∧ HasPage r' p)

/-! ### One entry -/

/-- The region that `init_mem` registers for a usable entry, if any. -/
def regionOf (e : MemmapEntry) : Option MemRegion :=
  if e.length < PAGE_SIZE.toUInt64 then none
  else if PAGE_ROUND_UP e.base ≥ PAGE_ROUND_DOWN (e.base + e.length) then none
  else some { physCur := PAGE_ROUND_UP e.base, physEnd := PAGE_ROUND_DOWN (e.base + e.length) }

/-- The exact shape of `regionOf`, on natural numbers: both bounds are cut to 32 bits. -/
theorem regionOf_eq_some (hwrap : e.base.toNat + e.length.toNat < 2 ^ 64)
    (hr : regionOf e = some r) :
    4096 ≤ e.length.toNat ∧
    r.physCur.toNat = (e.base.toNat + 4095) % 2 ^ 32 / 4096 * 4096 ∧
    r.physEnd.toNat = (e.base.toNat + e.length.toNat) % 2 ^ 32 / 4096 * 4096 := by
  unfold regionOf at hr
  split at hr
  · exact absurd hr (by simp)
  · rename_i hlen
    split at hr
    · exact absurd hr (by simp)
    · cases hr
      have hlen' : 4096 ≤ e.length.toNat := by
        rw [UInt64.lt_iff_toNat_lt, toNat_PAGE_SIZE_toUInt64] at hlen
        omega
      refine ⟨hlen', toNat_PAGE_ROUND_UP _ (by omega), ?_⟩
      rw [toNat_PAGE_ROUND_DOWN, UInt64.toNat_add, Nat.mod_eq_of_lt hwrap]

/-- A registered region is not empty. -/
theorem regionOf_lt (hr : regionOf e = some r) : r.physCur.toNat < r.physEnd.toNat := by
  unfold regionOf at hr
  split at hr
  · exact absurd hr (by simp)
  · split at hr
    · exact absurd hr (by simp)
    · rename_i hlt
      cases hr
      exact Nat.lt_of_not_le fun h => hlt (UInt64.le_iff_toNat_le.mpr h)

section

variable (hwrap : e.base.toNat + e.length.toNat < 2 ^ 64)

include hwrap

/-- When an entry is dropped, either it is shorter than a page or the cut bounds are in the
wrong order. -/
theorem regionOf_eq_none (hr : regionOf e = none) :
    e.length.toNat < 4096 ∨
    (e.base.toNat + e.length.toNat) % 2 ^ 32 / 4096 * 4096
      ≤ (e.base.toNat + 4095) % 2 ^ 32 / 4096 * 4096 := by
  by_cases hlen : e.length.toNat < 4096
  · exact Or.inl hlen
  · right
    have hlen' : ¬ e.length < PAGE_SIZE.toUInt64 := by
      rw [UInt64.lt_iff_toNat_lt, toNat_PAGE_SIZE_toUInt64]
      omega
    simp only [regionOf, hlen', if_false, ite_eq_left_iff, reduceCtorEq, imp_false,
      Decidable.not_not, ge_iff_le, UInt64.le_iff_toNat_le] at hr
    rw [toNat_PAGE_ROUND_DOWN, UInt64.toNat_add, Nat.mod_eq_of_lt hwrap,
      toNat_PAGE_ROUND_UP _ (by omega)] at hr
    exact hr

/-- An entry that ends below 4 GiB, or that holds no page, is registered exactly. -/
theorem regionOf_hasPage (hlow : (∃ p, HoldsPage e p) → e.base.toNat + e.length.toNat < 2 ^ 32)
    (p : Nat) : (∃ r, regionOf e = some r ∧ HasPage r p) ↔ HoldsPage e p := by
  constructor
  · rintro ⟨r, hr, hp⟩
    obtain ⟨hlen, hcur, hend⟩ := regionOf_eq_some hwrap hr
    obtain ⟨hal, hlo, hhi⟩ := hp
    -- An entry of at least a page that holds none has equal bounds, also after the cut.
    have hholds : ∃ p, HoldsPage e p := by
      by_contra hno
      have hq := not_exists.mp hno ((e.base.toNat + 4095) / 4096 * 4096)
      unfold HoldsPage at hq
      omega
    have h32 := hlow hholds
    unfold HoldsPage
    omega
  · intro hp
    have h32 := hlow ⟨p, hp⟩
    obtain ⟨hal, hlo, hhi⟩ := hp
    cases hr : regionOf e with
    | none =>
      have := regionOf_eq_none hwrap hr
      omega
    | some r =>
      obtain ⟨hlen, hcur, hend⟩ := regionOf_eq_some hwrap hr
      refine ⟨r, rfl, hal, ?_, ?_⟩
      · omega
      · omega

/-- No registered region reaches the last page below 4 GiB. -/
theorem regionOf_physEnd (hr : regionOf e = some r) : r.physEnd.toNat ≤ 2 ^ 32 - 4096 := by
  obtain ⟨-, -, hend⟩ := regionOf_eq_some hwrap hr
  omega

end

/-! ### The loop -/

/-- Before the allocator runs, `append_region` takes a node of the static pool. -/
theorem appendRegion_boot {a b : UInt64} (hinit : s.memInitialized = false)
    (hidx : s.staticRegionPoolIdx < STATIC_REGION_POOL_SIZE) (hab : ¬ a ≥ b) :
    appendRegion s a b = some { s with
      staticRegionPoolIdx := s.staticRegionPoolIdx + 1
      regions := s.regions ++ [{ physCur := a, physEnd := b }] } := by
  have hidx' : ¬ s.staticRegionPoolIdx ≥ STATIC_REGION_POOL_SIZE := by omega
  simp only [appendRegion, if_neg hab, hinit, Bool.false_and, Bool.false_eq_true, if_false,
    if_neg hidx']

/-- One round of the loop: the regions gain `regionOf` of a usable entry. The pool index
grows by at most one, and only at a usable entry. -/
theorem initMemEntry_spec (entry : Option MemmapEntry) (hinit : s.memInitialized = false)
    (hidx : s.staticRegionPoolIdx + (usable [entry]).length ≤ STATIC_REGION_POOL_SIZE) :
    ∃ s', initMemEntry s entry = .ok s' ∧ s'.memInitialized = false ∧
      s'.staticRegionPoolIdx ≤ s.staticRegionPoolIdx + (usable [entry]).length ∧
      s'.regions = s.regions ++ (usable [entry]).filterMap regionOf := by
  cases entry with
  | none => exact ⟨s, rfl, hinit, by simp [usable], by simp [usable]⟩
  | some e =>
    simp only [initMemEntry]
    -- The update of `phys_max_end` touches neither the pool nor the regions.
    generalize hs₁ : (if e.base + e.length > s.physMaxEnd then
      { s with physMaxEnd := e.base + e.length } else s) = s₁
    have hs : s₁.memInitialized = s.memInitialized ∧
        s₁.staticRegionPoolIdx = s.staticRegionPoolIdx ∧ s₁.regions = s.regions := by
      rw [← hs₁]
      split <;> exact ⟨rfl, rfl, rfl⟩
    obtain ⟨h1, h2, h3⟩ := hs
    by_cases htype : e.type = LIMINE_MEMMAP_USABLE
    · have husable : usable [some e] = [e] := by simp [usable, htype]
      rw [husable] at hidx ⊢
      simp only [htype, ne_eq, not_true_eq_false, if_false, List.length_singleton] at hidx ⊢
      by_cases hlen : e.length < PAGE_SIZE.toUInt64
      · exact ⟨s₁, by rw [if_pos hlen], by rw [h1, hinit], by omega,
          by simp [regionOf, hlen, h3]⟩
      · by_cases hab : PAGE_ROUND_UP e.base ≥ PAGE_ROUND_DOWN (e.base + e.length)
        · exact ⟨s₁, by rw [if_neg hlen, if_pos hab], by rw [h1, hinit], by omega,
            by simp [regionOf, hlen, hab, h3]⟩
        · rw [if_neg hlen, if_neg hab, appendRegion_boot (h1.trans hinit) (by omega) hab]
          exact ⟨_, rfl, h1.trans hinit, by simp [h2], by simp [regionOf, hlen, hab, h3]⟩
    · have husable : usable [some e] = [] := by simp [usable, htype]
      rw [husable]
      exact ⟨s₁, by rw [if_pos htype], h1.trans hinit, by omega, by simp [h3]⟩

/-- The usable entries of a map, one entry at a time. -/
theorem usable_cons (entry : Option MemmapEntry) (rest : List (Option MemmapEntry)) :
    usable (entry :: rest) = usable [entry] ++ usable rest := by
  cases entry with
  | none => simp [usable]
  | some e => by_cases h : e.type = LIMINE_MEMMAP_USABLE <;> simp [usable, h]

/-- The whole loop: one region for each usable entry that survives the rounding. -/
theorem initMem_loop (entries : List (Option MemmapEntry)) (s : MemState)
    (hinit : s.memInitialized = false)
    (hidx : s.staticRegionPoolIdx + (usable entries).length ≤ STATIC_REGION_POOL_SIZE) :
    ∃ s', entries.foldlM initMemEntry s = .ok s' ∧
      s'.regions = s.regions ++ (usable entries).filterMap regionOf := by
  induction entries generalizing s with
  | nil => exact ⟨s, rfl, by simp [usable]⟩
  | cons entry rest ih =>
    rw [usable_cons, List.length_append] at hidx
    obtain ⟨s₁, hstep, hinit₁, hidx₁, hreg₁⟩ :=
      initMemEntry_spec entry hinit (by omega)
    obtain ⟨s', hrest, hreg⟩ := ih s₁ hinit₁ (by omega)
    refine ⟨s', ?_, ?_⟩
    · rw [List.foldlM_cons, hstep]
      exact hrest
    · rw [hreg, hreg₁, usable_cons entry rest, List.filterMap_append, List.append_assoc]

/-- `init_mem` on a fresh kernel: the regions of the usable entries, in order. -/
theorem initMem_regions (mem : Bytes) (hhdm : UInt64)
    (hcount : (usable memoryMap).length ≤ STATIC_REGION_POOL_SIZE) :
    ∃ s, initMem (MemState.boot mem) hhdm (some memoryMap) = .ok s ∧
      s.regions = (usable memoryMap).filterMap regionOf := by
  obtain ⟨s', hrun, hreg⟩ := initMem_loop memoryMap
    { MemState.boot mem with hhdmOffset := hhdm } rfl
    (by simpa [MemState.boot] using hcount)
  refine ⟨{ s' with memInitialized := true }, ?_, by simpa [MemState.boot] using hreg⟩
  simp [initMem, MemState.boot] at hrun ⊢
  rw [hrun]

/-! ### The intake -/

/-- A page of a registered region belongs to its entry, when the entry is registered
exactly. -/
theorem intakeExact_of_low (hmap : MapOk memoryMap)
    (hreg : s.regions = (usable memoryMap).filterMap regionOf)
    (hlow : ∀ e ∈ usable memoryMap, (∃ p, HoldsPage e p) →
      e.base.toNat + e.length.toNat < 2 ^ 32) : IntakeExact memoryMap s := by
  have hone : ∀ e ∈ usable memoryMap, ∀ p,
      (∃ r, regionOf e = some r ∧ HasPage r p) ↔ HoldsPage e p := fun e he p =>
    regionOf_hasPage (hmap.noWrap e he) (hlow e he) p
  constructor
  · intro p
    simp only [hreg, List.mem_filterMap]
    constructor
    · rintro ⟨r, ⟨e, he, hr⟩, hp⟩
      exact ⟨e, he, (hone e he p).mp ⟨r, hr, hp⟩⟩
    · rintro ⟨e, he, hp⟩
      obtain ⟨r, hr, hp'⟩ := (hone e he p).mpr hp
      exact ⟨r, ⟨e, he, hr⟩, hp'⟩
  · rw [hreg, List.pairwise_filterMap]
    refine hmap.disjoint.imp_of_mem fun {e e'} he he' hdis r hr r' hr' p ⟨hp, hp'⟩ => ?_
    obtain ⟨-, h1, h2⟩ := (hone e he p).mp ⟨r, hr, hp⟩
    obtain ⟨-, h1', h2'⟩ := (hone e' he' p).mp ⟨r', hr', hp'⟩
    exact hdis p ⟨⟨h1, by omega⟩, ⟨h1', by omega⟩⟩

/-- The last page of a usable entry that reaches 4 GiB is never registered. -/
theorem low_of_intakeExact (hmap : MapOk memoryMap)
    (hreg : s.regions = (usable memoryMap).filterMap regionOf) (hexact : IntakeExact memoryMap s)
    (e : MemmapEntry) (he : e ∈ usable memoryMap) (hpage : ∃ p, HoldsPage e p) :
    e.base.toNat + e.length.toNat < 2 ^ 32 := by
  by_contra hhigh
  obtain ⟨p, hal, hlo, hhi⟩ := hpage
  have hlast : HoldsPage e ((e.base.toNat + e.length.toNat) / 4096 * 4096 - 4096) := by
    unfold HoldsPage
    omega
  obtain ⟨r, hr, -, -, hlt⟩ := (hexact.pages _).mpr ⟨e, he, hlast⟩
  rw [hreg, List.mem_filterMap] at hr
  obtain ⟨e', he', hr'⟩ := hr
  have hend := regionOf_physEnd (hmap.noWrap e' he') hr'
  omega

/-- The memory-map intake is exact if and only if every usable entry that holds a whole page
ends below 4 GiB. -/
theorem initMem_exact_iff (mem : Bytes) (hhdm : UInt64) (memoryMap : List (Option MemmapEntry))
    (hmap : MapOk memoryMap) :
    (∃ s, initMem (MemState.boot mem) hhdm (some memoryMap) = .ok s ∧ IntakeExact memoryMap s) ↔
      ∀ e ∈ usable memoryMap, (∃ p, HoldsPage e p) →
        e.base.toNat + e.length.toNat < 2 ^ 32 := by
  obtain ⟨s, hrun, hreg⟩ := initMem_regions mem hhdm hmap.count
  constructor
  · rintro ⟨s', hrun', hexact⟩
    rw [hrun] at hrun'
    cases hrun'
    exact low_of_intakeExact hmap hreg hexact
  · intro hlow
    exact ⟨s, hrun, intakeExact_of_low hmap hreg hlow⟩

/-- A map with one usable page at 1 MiB. -/
theorem initMem_exact_iff_lowPage :
    MapOk [some { base := 0x100000, length := 4096, type := LIMINE_MEMMAP_USABLE }] ∧
    ((∃ s, initMem (MemState.boot Bytes.zero) 0xffff800000000000
        (some [some { base := 0x100000, length := 4096, type := LIMINE_MEMMAP_USABLE }]) = .ok s ∧
      IntakeExact [some { base := 0x100000, length := 4096, type := LIMINE_MEMMAP_USABLE }] s) ↔
      ∀ e ∈ usable [some { base := 0x100000, length := 4096, type := LIMINE_MEMMAP_USABLE }],
        (∃ p, HoldsPage e p) → e.base.toNat + e.length.toNat < 2 ^ 32) := by
  have hmap : MapOk [some { base := 0x100000, length := 4096, type := LIMINE_MEMMAP_USABLE }] :=
    { count := by decide
      disjoint := by simp [usable]
      noWrap := by decide }
  exact ⟨hmap, initMem_exact_iff _ _ _ hmap⟩

/-- The map with one usable page at 4 GiB. -/
def highMap : List (Option MemmapEntry) :=
  [some { base := 0x100000000, length := 4096, type := LIMINE_MEMMAP_USABLE }]

/-- A usable page at 4 GiB is lost: `init_mem` accepts the map, and the intake is not exact. -/
theorem initMem_highMap_lost :
    MapOk highMap ∧ ¬ ∃ s, initMem (MemState.boot Bytes.zero) 0xffff800000000000 (some highMap)
      = .ok s ∧ IntakeExact highMap s := by
  have hmap : MapOk highMap :=
    { count := by decide
      disjoint := by simp [usable, highMap]
      noWrap := by decide }
  refine ⟨hmap, fun ⟨s, hrun, hexact⟩ => ?_⟩
  obtain ⟨s', hrun', hreg⟩ := initMem_regions Bytes.zero 0xffff800000000000 hmap.count
  rw [hrun] at hrun'
  cases hrun'
  have hlow := low_of_intakeExact hmap hreg hexact
    { base := 0x100000000, length := 4096, type := LIMINE_MEMMAP_USABLE } (by decide)
    ⟨0x100000000, by decide, by decide, by decide⟩
  exact absurd hlow (by decide)

end DzOS.Proofs.Mem
