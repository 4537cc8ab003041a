import DzOS.Mem.Slab
import DzOS.Proofs.Mem.Kmalloc

/-!
# `DzOS.Proofs.Mem.SlabPage`: the page of a slab

`slabView` has the fields of a slab that its list and its objects depend on. There is one lemma for
each assignment to a field, and from them one for each part of `km_alloc_from_bin_locked` and
`km_free_to_bin_locked`: a new slab (`kmNewSlab_spec`), an object that is taken (`takeObject_spec`),
and one that is put back (`putObject_spec`).

Each of these writes to one page, and what is on the other pages stays as it was (`WritesPage`).
-/

set_option autoImplicit false

namespace DzOS.Proofs.Mem

open DzOS.Lib DzOS.Mem

/-! ### Fields -/

/-- `h` is the start of a page of the direct map. -/
structure OnPage (s : KmState) (h : UInt64) : Prop where
  hhdm : s.mem.hhdmOffset.toNat % 4096 = 0
  page : h.toNat % 4096 = 0

/-- The fields of a slab. The stack has at most 2036 entries behind the header. -/
@[ext]
structure SlabView where
  next : UInt64
  objSize : ℕ
  capacity : ℕ
  freeCount : ℕ
  top : ℕ
  stk : ℕ → ℕ

/-- The fields from the words of a page. -/
def viewOf (word : ℕ → ℕ → ℕ) : SlabView where
  next := UInt64.ofNat (word 8 0)
  objSize := word 2 8
  capacity := word 2 10
  freeCount := word 2 12
  top := word 2 20
  stk i := if i < 2036 then word 2 (24 + i * 2) else 0

/-- The fields of the slab at `h`. -/
def slabView (s : KmState) (h : UInt64) : SlabView := viewOf (field s h)

variable {s s' : KmState} {h g : UInt64} {w a v i idx : ℕ}

theorem add_ofNat_zero (h : UInt64) : h + UInt64.ofNat 0 = h := UInt64.add_zero h

section

variable (s : KmState) (h : UInt64)

theorem next_eq : Slab.next s h = (slabView s h).next := by
  unfold slabView viewOf field
  rw [add_ofNat_zero]
  rfl

theorem objSize_eq : Slab.objSize s h = (slabView s h).objSize := rfl

theorem capacity_eq : Slab.capacity s h = (slabView s h).capacity := rfl

theorem freeCount_eq :
    Slab.freeCount s h = (slabView s h).freeCount := rfl

theorem top_eq : Slab.top s h = (slabView s h).top := rfl

end

/-- The address of an entry of the stack. -/
theorem stk_address (h : UInt64) (i : ℕ) :
    h + 24 + UInt64.ofNat (i * 2) = h + UInt64.ofNat (24 + i * 2) := by
  rw [UInt64.ofNat_add, UInt64.add_assoc]
  rfl

theorem stk_field (s : KmState) (h : UInt64) (i : ℕ) :
    Slab.stk s h i = field s h 2 (24 + i * 2) := by
  unfold field Slab.stk
  rw [stk_address]

theorem stk_eq (hi : i < 2036) : Slab.stk s h i = (slabView s h).stk i :=
  (stk_field s h i).trans (if_pos hi).symm

/-- A word keeps its value when a store to the same page goes elsewhere. -/
theorem field_kept {w' b : ℕ} (hp : OnPage s h)
    (hfit : 0 < w ∧ 0 < w' ∧ a + w ≤ 4096 ∧ b + w' ≤ 4096 ∧ (b + w' ≤ a ∨ a + w ≤ b)) :
    field (s.store w (h + UInt64.ofNat a) v) h w' b = field s h w' b := by
  obtain ⟨hw, hw', ha, hb, hapart⟩ := hfit
  exact field_store_of_apart hp.hhdm hp.page hp.page (by omega) ha (by omega) hb (.inr hapart)

/-- A store behind the link keeps it. -/
theorem next_kept (hp : OnPage s h) (hw : 0 < w) (hlow : 8 ≤ a) (ha : a + w ≤ 4096) :
    (slabView (s.store w (h + UInt64.ofNat a) v) h).next = (slabView s h).next :=
  congrArg UInt64.ofNat (field_kept hp (by omega))

/-- A store to the header keeps the stack. -/
theorem stk_kept (hp : OnPage s h) (hw : 0 < w) (ha : a + w ≤ 24) :
    (slabView (s.store w (h + UInt64.ofNat a) v) h).stk = (slabView s h).stk := by
  funext i
  unfold slabView viewOf
  dsimp only
  split
  · exact field_kept hp (by omega)
  · rfl

/-! ### Assignments -/

theorem setNext_eq (s : KmState) (h n : UInt64) :
    Slab.setNext s h n = s.store 8 (h + UInt64.ofNat 0) n.toNat := by
  rw [add_ofNat_zero]
  rfl

theorem setStk_eq (s : KmState) (h : UInt64) (i v : ℕ) :
    Slab.setStk s h i v = s.store 2 (h + UInt64.ofNat (24 + i * 2)) v := by
  rw [← stk_address]
  rfl

section

variable (hp : OnPage s h)

include hp

theorem view_setNext (n : UInt64) :
    slabView (Slab.setNext s h n) h = { slabView s h with next := n } := by
  rw [setNext_eq]
  refine SlabView.ext ?_ ?_ ?_ ?_ ?_ (stk_kept hp (by omega) (by omega))
  · have hself : field (s.store 8 (h + UInt64.ofNat 0) n.toNat) h 8 0 = n.toNat := by
      rw [field_store_self]
      exact Nat.mod_eq_of_lt n.toNat_lt
    exact (congrArg UInt64.ofNat hself).trans UInt64.ofNat_toNat
  · exact field_kept hp (by omega)
  · exact field_kept hp (by omega)
  · exact field_kept hp (by omega)
  · exact field_kept hp (by omega)

/-- A store of a half word to the header, from the size of the objects on. It is a field of the view
at four addresses. -/
theorem view_half (hlow : 8 ≤ a) (ha : a + 2 ≤ 24) (heven : a % 2 = 0) (v : ℕ) :
    slabView (s.store 2 (h + UInt64.ofNat a) v) h = { slabView s h with
      objSize := if a = 8 then v % 2 ^ 16 else (slabView s h).objSize
      capacity := if a = 10 then v % 2 ^ 16 else (slabView s h).capacity
      freeCount := if a = 12 then v % 2 ^ 16 else (slabView s h).freeCount
      top := if a = 20 then v % 2 ^ 16 else (slabView s h).top } := by
  have hword : ∀ b, b % 2 = 0 → b + 2 ≤ 24 → field (s.store 2 (h + UInt64.ofNat a) v) h 2 b
      = if a = b then v % 2 ^ 16 else field s h 2 b := by
    intro b heven' hb
    split
    · rename_i hab
      rw [← hab]
      exact field_store_self s h 2 a v
    · exact field_kept hp (by omega)
  refine SlabView.ext (next_kept hp (by omega) hlow (by omega)) ?_ ?_ ?_ ?_
    (stk_kept hp (by omega) ha)
  · exact hword 8 (by decide) (by decide)
  · exact hword 10 (by decide) (by decide)
  · exact hword 12 (by decide) (by decide)
  · exact hword 20 (by decide) (by decide)

theorem view_setObjSize (v : ℕ) :
    slabView (s.store 2 (h + 8) v) h = { slabView s h with objSize := v % 2 ^ 16 } :=
  view_half (a := 8) hp (by decide) (by decide) (by decide) v

theorem view_setCapacity (v : ℕ) :
    slabView (Slab.setCapacity s h v) h = { slabView s h with capacity := v % 2 ^ 16 } :=
  view_half (a := 10) hp (by decide) (by decide) (by decide) v

theorem view_setFreeCount (v : ℕ) :
    slabView (Slab.setFreeCount s h v) h = { slabView s h with freeCount := v % 2 ^ 16 } :=
  view_half (a := 12) hp (by decide) (by decide) (by decide) v

theorem view_setTop (v : ℕ) :
    slabView (Slab.setTop s h v) h = { slabView s h with top := v % 2 ^ 16 } :=
  view_half (a := 20) hp (by decide) (by decide) (by decide) v

/-- The other words of the header are not fields of the view. -/
theorem view_classIdx (v : ℕ) : slabView (s.store 2 (h + 14) v) h = slabView s h :=
  view_half (a := 14) hp (by decide) (by decide) (by decide) v

theorem view_magic (v : ℕ) : slabView (s.store 4 (h + 16) v) h = slabView s h := by
  change slabView (s.store 4 (h + UInt64.ofNat 16) v) h = _
  refine SlabView.ext (next_kept hp (by omega) (by omega) (by omega)) ?_ ?_ ?_ ?_
    (stk_kept hp (by omega) (by omega))
  · exact field_kept hp (by omega)
  · exact field_kept hp (by omega)
  · exact field_kept hp (by omega)
  · exact field_kept hp (by omega)

theorem view_setStk (hi : i < 2036) (v : ℕ) :
    slabView (Slab.setStk s h i v) h =
      { slabView s h with stk := Function.update (slabView s h).stk i (v % 2 ^ 16) } := by
  rw [setStk_eq]
  refine SlabView.ext (next_kept hp (by omega) (by omega) (by omega)) ?_ ?_ ?_ ?_ ?_
  · exact field_kept hp (by omega)
  · exact field_kept hp (by omega)
  · exact field_kept hp (by omega)
  · exact field_kept hp (by omega)
  · funext j
    change _ = Function.update (slabView s h).stk i (v % 2 ^ 16) j
    by_cases hij : j = i
    · rw [hij, Function.update_self]
      exact (if_pos hi).trans (field_store_self s h 2 (24 + i * 2) v)
    · rw [Function.update_of_ne hij]
      unfold slabView viewOf
      dsimp only
      split
      · exact field_kept hp (by omega)
      · rfl

end

/-! ### Writes to one slab -/

/-- The fields of the slab at `h` become `view`. No other page and no bin is written. -/
structure Sets (s s' : KmState) (h : UInt64) (view : SlabView) : Prop where
  writes : WritesPage s s' h
  bins : s'.bins = s.bins
  view : slabView s' h = view

theorem WritesPage.onPage {P : UInt64} (hw : WritesPage s s' P) (hp : OnPage s h) : OnPage s' h :=
  ⟨hw.aligned hp.hhdm, hp.page⟩

theorem Sets.trans {s'' : KmState} {v v' : SlabView} (hfirst : Sets s s' h v)
    (hsecond : Sets s' s'' h v') : Sets s s'' h v' :=
  ⟨hfirst.writes.trans hsecond.writes, hsecond.bins.trans hfirst.bins, hsecond.view⟩

section

variable (hp : OnPage s h)

include hp

theorem writesPage_half (a : ℕ) (ha : a + 2 ≤ 4096) (v : ℕ) :
    WritesPage s (s.store 2 (h + UInt64.ofNat a) v) h :=
  writesPage_store hp.hhdm hp.page v (by omega) ha

theorem sets_setNext (n : UInt64) :
    Sets s (Slab.setNext s h n) h { slabView s h with next := n } := by
  refine ⟨?_, rfl, view_setNext hp n⟩
  rw [setNext_eq]
  exact writesPage_store hp.hhdm hp.page _ (by omega) (by omega)

theorem sets_setObjSize (v : ℕ) :
    Sets s (s.store 2 (h + 8) v) h { slabView s h with objSize := v % 2 ^ 16 } :=
  ⟨writesPage_half hp 8 (by decide) v, rfl, view_setObjSize hp v⟩

theorem sets_classIdx (v : ℕ) : Sets s (s.store 2 (h + 14) v) h (slabView s h) :=
  ⟨writesPage_half hp 14 (by decide) v, rfl, view_classIdx hp v⟩

theorem sets_magic (v : ℕ) : Sets s (s.store 4 (h + 16) v) h (slabView s h) := by
  have hw : WritesPage s (s.store 4 (h + UInt64.ofNat 16) v) h :=
    writesPage_store hp.hhdm hp.page v (by decide) (by decide)
  exact ⟨hw, rfl, view_magic hp v⟩

theorem sets_setCapacity (v : ℕ) :
    Sets s (Slab.setCapacity s h v) h { slabView s h with capacity := v % 2 ^ 16 } :=
  ⟨writesPage_half hp 10 (by decide) v, rfl,
    view_setCapacity hp v⟩

theorem sets_setFreeCount (v : ℕ) :
    Sets s (Slab.setFreeCount s h v) h { slabView s h with freeCount := v % 2 ^ 16 } :=
  ⟨writesPage_half hp 12 (by decide) v, rfl,
    view_setFreeCount hp v⟩

theorem sets_setTop (v : ℕ) :
    Sets s (Slab.setTop s h v) h { slabView s h with top := v % 2 ^ 16 } :=
  ⟨writesPage_half hp 20 (by decide) v, rfl, view_setTop hp v⟩

theorem sets_setStk (hi : i < 2036) (v : ℕ) :
    Sets s (Slab.setStk s h i v) h
      { slabView s h with stk := Function.update (slabView s h).stk i (v % 2 ^ 16) } := by
  refine ⟨?_, rfl, view_setStk hp hi v⟩
  rw [setStk_eq]
  exact writesPage_half hp _ (by omega) v

end

theorem writesPage_setHead (s : KmState) (idx : ℕ) (h n : UInt64) :
    WritesPage s (s.setHead idx n) h := by
  have hrefl := WritesPage.refl s h
  exact ⟨hrefl.hhdm, hrefl.freepages, hrefl.regions, hrefl.head, hrefl.mixedPages, hrefl.stores,
    hrefl.field⟩

/-! ### Objects -/

/-- The address of an object depends on the sizes in the header. -/
theorem slabObjAt_congr (hcap : (slabView s' h).capacity = (slabView s h).capacity)
    (hsize : (slabView s' h).objSize = (slabView s h).objSize) (i : ℕ) :
    slabObjAt s' h i = slabObjAt s h i := by
  unfold slabObjAt slabObjsBase
  rw [objSize_eq, objSize_eq, hsize]
  have hcap' : s'.load 2 (h + 10) = s.load 2 (h + 10) := hcap
  rw [hcap']

/-- An object is taken: the entry on top of the stack is removed. When it was the last one, the slab
leaves the list, unless it is the only one. -/
theorem takeObject_spec (idx : ℕ) (hp : OnPage s h) (htop : 0 < (slabView s h).top)
    (hmax : (slabView s h).top ≤ 2036) (hcount : (slabView s h).freeCount = (slabView s h).top) :
    ∃ s', takeObject s idx h =
        (slabObjAt s h ((slabView s h).stk ((slabView s h).top - 1)), s') ∧ WritesPage s s' h ∧
      slabView s' h = { slabView s h with
        top := (slabView s h).top - 1
        freeCount := (slabView s h).top - 1
        next := if (slabView s h).top = 1 then 0 else (slabView s h).next } ∧
      s'.bins idx = if (slabView s h).top = 1 then
        if (slabView s h).next = 0 then h else (slabView s h).next
        else s.bins idx := by
  obtain ⟨v, hv⟩ : ∃ v, v = slabView s h := ⟨_, rfl⟩
  rw [← hv] at htop hmax hcount ⊢
  obtain ⟨s₁, hs₁⟩ : ∃ s₁, s₁ = Slab.setTop s h (Slab.top s h + (2 ^ 16 - 1)) := ⟨_, rfl⟩
  obtain ⟨s₂, hs₂⟩ : ∃ s₂, s₂ = Slab.setFreeCount s₁ h (Slab.freeCount s₁ h + (2 ^ 16 - 1)) :=
    ⟨_, rfl⟩
  have h₁ : Sets s s₁ h { v with top := v.top - 1 } := by
    have hset := sets_setTop hp (Slab.top s h + (2 ^ 16 - 1))
    have hsum : (Slab.top s h + (2 ^ 16 - 1)) % 2 ^ 16 = v.top - 1 := by
      rw [top_eq, ← hv]
      omega
    rw [hsum, ← hv, ← hs₁] at hset
    exact hset
  have hp₁ := h₁.writes.onPage hp
  have h₂ : Sets s s₂ h { v with top := v.top - 1, freeCount := v.top - 1 } := by
    have hset := sets_setFreeCount hp₁ (Slab.freeCount s₁ h + (2 ^ 16 - 1))
    have hsum : (Slab.freeCount s₁ h + (2 ^ 16 - 1)) % 2 ^ 16 = v.top - 1 := by
      rw [freeCount_eq, h₁.view]
      dsimp only
      omega
    rw [hsum, h₁.view, ← hs₂] at hset
    exact h₁.trans hset
  have hp₂ := h₂.writes.onPage hp
  -- The entry is read behind the first assignment.
  have hentry : Slab.stk s₁ h (Slab.top s₁ h) = v.stk (v.top - 1) := by
    rw [top_eq, h₁.view]
    dsimp only
    rw [stk_eq (by omega), h₁.view]
  have hrun : takeObject s idx h =
      if Slab.top s₂ h = 0 then
        if Slab.next s₂ h = 0 then
          (slabObjAt (s₂.setHead idx h) h (v.stk (v.top - 1)), s₂.setHead idx h)
        else
          (slabObjAt (Slab.setNext (s₂.setHead idx (Slab.next s₂ h)) h 0) h (v.stk (v.top - 1)),
            Slab.setNext (s₂.setHead idx (Slab.next s₂ h)) h 0)
      else (slabObjAt s₂ h (v.stk (v.top - 1)), s₂) := by
    rw [← hentry, hs₂, hs₁]
    rfl
  have hobj : ∀ s', (slabView s' h).capacity = v.capacity → (slabView s' h).objSize = v.objSize →
      ∀ i, slabObjAt s' h i = slabObjAt s h i := by
    intro s' hcap hsize
    rw [hv] at hcap hsize
    exact slabObjAt_congr hcap hsize
  rw [hrun, top_eq, next_eq, h₂.view]
  dsimp only
  by_cases hlast : v.top = 1
  · rw [if_pos (by omega), if_pos hlast, if_pos hlast]
    by_cases halone : v.next = 0
    · rw [if_pos halone, if_pos halone]
      have hview : slabView (s₂.setHead idx h) h = _ := h₂.view
      refine ⟨_, Prod.ext (hobj _ ?_ ?_ _) rfl, h₂.writes.trans (writesPage_setHead s₂ idx h h), ?_,
        if_pos rfl⟩
      · rw [hview]
      · rw [hview]
      · rw [hview, halone]
    · rw [if_neg halone, if_neg halone]
      have hset := sets_setNext (s := s₂.setHead idx v.next) ⟨hp₂.hhdm, hp₂.page⟩ 0
      have hview : slabView (s₂.setHead idx v.next) h = _ := h₂.view
      rw [hview] at hset
      refine ⟨_, Prod.ext (hobj _ ?_ ?_ _) rfl,
        (h₂.writes.trans (writesPage_setHead s₂ idx h v.next)).trans hset.writes, hset.view, ?_⟩
      · rw [hset.view]
      · rw [hset.view]
      · rw [hset.bins]
        exact if_pos rfl
  · rw [if_neg (by omega), if_neg hlast, if_neg hlast]
    refine ⟨s₂, Prod.ext (hobj _ ?_ ?_ _) rfl, h₂.writes, h₂.view, ?_⟩
    · rw [h₂.view]
    · rw [h₂.view]
    · rw [h₂.bins]

/-- The first part of `km_free_to_bin_locked`: the index is put on the stack, and a slab that had no
free object becomes the head of the bin. -/
def putObject (s : KmState) (idx : ℕ) (h : UInt64) (i : ℕ) : KmState :=
  let top := Slab.top s h
  let s := Slab.setStk (Slab.setTop s h (top + 1)) h top i
  let s := Slab.setFreeCount s h (Slab.freeCount s h + 1)
  if Slab.freeCount s h = 1 then (Slab.setNext s h (s.bins idx)).setHead idx h else s

/-- The second part, for a slab whose objects are all free. -/
def releaseSlab (s : KmState) (idx : ℕ) (h : UInt64) : Except String KmState :=
  let s := if s.bins idx = h then s.setHead idx (Slab.next s h) else s
  match kfree s.mem (some h) with
  | .error e => .error e
  | .ok mem => .ok { s with mem := mem }

theorem kmFreeToBinLocked_eq (s : KmState) (idx : ℕ) (h p : UInt64) :
    kmFreeToBinLocked s idx h p =
      if Slab.freeCount (putObject s idx h (slabIndexOf s h p)) h =
          Slab.capacity (putObject s idx h (slabIndexOf s h p)) h then
        releaseSlab (putObject s idx h (slabIndexOf s h p)) idx h
      else .ok (putObject s idx h (slabIndexOf s h p)) := by
  unfold kmFreeToBinLocked releaseSlab putObject Slab.setNext Slab.setFreeCount Slab.setStk
    Slab.setTop Slab.next Slab.capacity Slab.freeCount Slab.top KmState.setHead
  rfl

/-- An object that is put back is on top of the stack. -/
theorem putObject_spec (idx : ℕ) (hp : OnPage s h) (hmax : (slabView s h).top < 2036)
    (hi : i < 2 ^ 16) (hcount : (slabView s h).freeCount = (slabView s h).top) :
    WritesPage s (putObject s idx h i) h ∧
    slabView (putObject s idx h i) h = { slabView s h with
      top := (slabView s h).top + 1
      freeCount := (slabView s h).top + 1
      stk := Function.update (slabView s h).stk (slabView s h).top i
      next := if (slabView s h).top = 0 then s.bins idx else (slabView s h).next } ∧
    (putObject s idx h i).bins idx = if (slabView s h).top = 0 then h else s.bins idx := by
  obtain ⟨v, hv⟩ : ∃ v, v = slabView s h := ⟨_, rfl⟩
  rw [← hv] at hmax hcount ⊢
  obtain ⟨s₁, hs₁⟩ : ∃ s₁, s₁ = Slab.setTop s h (Slab.top s h + 1) := ⟨_, rfl⟩
  obtain ⟨s₂, hs₂⟩ : ∃ s₂, s₂ = Slab.setStk s₁ h (Slab.top s h) i := ⟨_, rfl⟩
  obtain ⟨s₃, hs₃⟩ : ∃ s₃, s₃ = Slab.setFreeCount s₂ h (Slab.freeCount s₂ h + 1) := ⟨_, rfl⟩
  have htop : Slab.top s h = v.top := by rw [top_eq, ← hv]
  have h₁ : Sets s s₁ h { v with top := v.top + 1 } := by
    have hset := sets_setTop hp (Slab.top s h + 1)
    rw [← hs₁, htop, Nat.mod_eq_of_lt (by omega), ← hv] at hset
    exact hset
  have h₂ : Sets s s₂ h
      { v with top := v.top + 1, stk := Function.update v.stk v.top i } := by
    have hset := sets_setStk (h₁.writes.onPage hp) (htop ▸ hmax) i
    rw [← hs₂, htop, Nat.mod_eq_of_lt hi, h₁.view] at hset
    exact h₁.trans hset
  have h₃ : Sets s s₃ h { v with
      top := v.top + 1
      freeCount := v.top + 1
      stk := Function.update v.stk v.top i } := by
    have hset := sets_setFreeCount (h₂.writes.onPage hp) (Slab.freeCount s₂ h + 1)
    have hsum : (Slab.freeCount s₂ h + 1) % 2 ^ 16 = v.top + 1 := by
      rw [freeCount_eq, h₂.view]
      dsimp only
      omega
    rw [← hs₃, hsum, h₂.view] at hset
    exact h₂.trans hset
  have hrun : putObject s idx h i =
      if Slab.freeCount s₃ h = 1 then (Slab.setNext s₃ h (s₃.bins idx)).setHead idx h else s₃ := by
    rw [hs₃, hs₂, hs₁]
    rfl
  rw [hrun, freeCount_eq, h₃.view, h₃.bins]
  dsimp only
  by_cases hempty : v.top = 0
  · rw [if_pos (by omega), if_pos hempty, if_pos hempty]
    have hset := sets_setNext (h₃.writes.onPage hp) (s.bins idx)
    rw [h₃.view] at hset
    have hw := (h₃.writes.trans hset.writes).trans (writesPage_setHead _ idx h h)
    exact ⟨hw, hset.view, if_pos rfl⟩
  · rw [if_neg (by omega), if_neg hempty, if_neg hempty]
    exact ⟨h₃.writes, h₃.view, by rw [h₃.bins]⟩

/-! ### New slabs -/

/-- The objects of a class fit into a page behind the header and the stack. -/
theorem class_fits (hidx : idx < KM_NUM_BINS) :
    16 ≤ kmClassIdxToSize idx ∧ 0 < slabCap (kmClassIdxToSize idx) ∧
      24 + slabCap (kmClassIdxToSize idx) * 2 +
        slabCap (kmClassIdxToSize idx) * kmClassIdxToSize idx ≤ 4096 := by
  unfold KM_NUM_BINS at hidx
  interval_cases idx <;> decide

/-- A bound for the sizes of a class. -/
theorem class_lt (hidx : idx < KM_NUM_BINS) :
    kmClassIdxToSize idx < 2 ^ 16 ∧ slabCap (kmClassIdxToSize idx) < 2036 := by
  obtain ⟨hsize, hcap, hfits⟩ := class_fits hidx
  constructor
  · nlinarith
  · nlinarith

/-- The loop fills the stack from its start. -/
theorem fillStack_sets (hp : OnPage s h) (cap : ℕ) {n : ℕ} (hn : n ≤ 2036) (hcap : cap ≤ 2036) :
    Sets s (fillStack h cap n s) h { slabView s h with
      stk := fun j => if j < n then cap - 1 - j else (slabView s h).stk j } := by
  induction n with
  | zero => exact ⟨WritesPage.refl s h, rfl, rfl⟩
  | succ n ih =>
    have hprev := ih (by omega)
    have hset := sets_setStk (hprev.writes.onPage hp) (i := n) (by omega) (cap - 1 - n)
    rw [hprev.view, Nat.mod_eq_of_lt (show cap - 1 - n < 2 ^ 16 by omega)] at hset
    have hview : Function.update (fun j => if j < n then cap - 1 - j else (slabView s h).stk j) n
        (cap - 1 - n) = fun j => if j < n + 1 then cap - 1 - j else (slabView s h).stk j := by
      funext j
      by_cases hj : j = n
      · rw [hj, Function.update_self, if_pos (Nat.lt_succ_self n)]
      · have hiff : j < n ↔ j < n + 1 := by omega
        rw [Function.update_of_ne hj]
        simp only [hiff]
    dsimp only at hset
    rw [hview] at hset
    exact hprev.trans hset

/-- A new slab: its page was in stock, and all of its objects are free. -/
structure NewSlab (s s' : KmState) (idx : ℕ) (h : UInt64) : Prop where
  obtains : Obtains s s'.mem h
  next : (slabView s' h).next = 0
  objSize : (slabView s' h).objSize = kmClassIdxToSize idx
  capacity : (slabView s' h).capacity = slabCap (kmClassIdxToSize idx)
  freeCount : (slabView s' h).freeCount = slabCap (kmClassIdxToSize idx)
  top : (slabView s' h).top = slabCap (kmClassIdxToSize idx)
  stk : ∀ j < slabCap (kmClassIdxToSize idx),
    (slabView s' h).stk j = slabCap (kmClassIdxToSize idx) - 1 - j

/-- Writes to the new page. -/
theorem Obtains.writes {s₁ : KmState} (hobt : Obtains s s₁.mem h) (hw : WritesPage s₁ s' h) :
    Obtains s s'.mem h where
  pages := PagesOk.writesPage hobt.pages hw
  hhdm := hw.hhdm.trans hobt.hhdm
  aligned := hobt.aligned
  nonNull := hobt.nonNull
  inStock := hobt.inStock
  taken := by
    rw [hw.stock, Ledger.V2P_congr hw.hhdm]
    exact hobt.taken
  sub := by
    rw [hw.stock]
    exact hobt.sub
  field Q w b hQ hne hbw hb :=
    (hw.field Q w b hQ hne hbw hb).trans (hobt.field Q w b hQ hne hbw hb)

theorem initSlabHdr_sets (hp : OnPage s h) (idx : ℕ) {size : ℕ} (hsize : size < 2 ^ 16) :
    Sets s (initSlabHdr s h size idx) h { slabView s h with
      next := 0, objSize := size, capacity := 0, freeCount := 0, top := 0 } := by
  have h₁ := sets_setNext hp 0
  generalize hs₁ : Slab.setNext s h 0 = s₁ at h₁
  have h₂ := h₁.trans (sets_setObjSize (h₁.writes.onPage hp) size)
  rw [h₁.view, Nat.mod_eq_of_lt hsize] at h₂
  generalize hs₂ : s₁.store 2 (h + 8) size = s₂ at h₂
  have h₃ := h₂.trans (sets_setCapacity (h₂.writes.onPage hp) 0)
  rw [h₂.view] at h₃
  generalize hs₃ : Slab.setCapacity s₂ h 0 = s₃ at h₃
  have h₄ := h₃.trans (sets_setFreeCount (h₃.writes.onPage hp) 0)
  rw [h₃.view] at h₄
  generalize hs₄ : Slab.setFreeCount s₃ h 0 = s₄ at h₄
  have h₅ := h₄.trans (sets_classIdx (h₄.writes.onPage hp) idx)
  rw [h₄.view] at h₅
  generalize hs₅ : s₄.store 2 (h + 14) idx = s₅ at h₅
  have h₆ := h₅.trans (sets_magic (h₅.writes.onPage hp) KM_MAGIC_SMALL.toNat)
  rw [h₅.view] at h₆
  generalize hs₆ : s₅.store 4 (h + 16) KM_MAGIC_SMALL.toNat = s₆ at h₆
  have h₇ := h₆.trans (sets_setTop (h₆.writes.onPage hp) 0)
  rw [h₆.view, ← hs₆, ← hs₅, ← hs₄, ← hs₃, ← hs₂, ← hs₁] at h₇
  exact h₇

/-- `km_new_slab` adds a slab, or it fails and changes nothing. -/
theorem kmNewSlab_spec (hpages : PagesOk s.mem) (hidx : idx < KM_NUM_BINS) :
    kmNewSlab s idx = (none, s) ∨
    ∃ h s', kmNewSlab s idx = (some h, s') ∧ NewSlab s s' idx h ∧ s'.bins = s.bins := by
  obtain ⟨hsize, hcap⟩ := class_lt hidx
  unfold kmNewSlab
  split
  · rename_i mem hkalloc
    rw [kallocFill_none hkalloc]
    exact .inl rfl
  · rename_i h mem hkalloc
    have hobt := kalloc_obtains hpages hkalloc
    have hp : OnPage { s with mem := mem } h := ⟨hobt.pages.hhdm, hobt.aligned⟩
    refine .inr ⟨h, _, rfl, ?_⟩
    generalize hsizeEq : kmClassIdxToSize idx = size at hsize hcap ⊢
    generalize hcapEq : slabCap size = cap at hcap ⊢
    have h₁ := initSlabHdr_sets hp idx hsize
    generalize initSlabHdr { s with mem := mem } h size idx = s₁ at h₁ ⊢
    have h₂ := h₁.trans (sets_setCapacity (h₁.writes.onPage hp) cap)
    rw [h₁.view, Nat.mod_eq_of_lt (by omega)] at h₂
    generalize Slab.setCapacity s₁ h cap = s₂ at h₂ ⊢
    have h₃ := h₂.trans (sets_setFreeCount (h₂.writes.onPage hp) cap)
    rw [h₂.view, Nat.mod_eq_of_lt (by omega)] at h₃
    generalize Slab.setFreeCount s₂ h cap = s₃ at h₃ ⊢
    have h₄ := h₃.trans (sets_setTop (h₃.writes.onPage hp) cap)
    rw [h₃.view, Nat.mod_eq_of_lt (by omega)] at h₄
    generalize Slab.setTop s₃ h cap = s₄ at h₄ ⊢
    have h₅ := h₄.trans (fillStack_sets (h₄.writes.onPage hp) cap (n := cap) (by omega)
      (by omega))
    rw [h₄.view] at h₅
    generalize fillStack h cap cap s₄ = s₅ at h₅ ⊢
    refine ⟨⟨hobt.writes h₅.writes, ?_, ?_, ?_, ?_, ?_, fun j hj => ?_⟩, h₅.bins⟩
    · rw [h₅.view]
    · rw [h₅.view, hsizeEq]
    · rw [h₅.view, hsizeEq, hcapEq]
    · rw [h₅.view, hsizeEq, hcapEq]
    · rw [h₅.view, hsizeEq, hcapEq]
    · rw [hsizeEq, hcapEq] at hj ⊢
      rw [h₅.view]
      exact if_pos hj

/-- A new slab becomes the head of the bin. -/
theorem addSlab_spec (hpages : PagesOk s.mem) (hidx : idx < KM_NUM_BINS) :
    addSlab s idx = (none, s) ∨
    ∃ h s', addSlab s idx = (some h, s') ∧ NewSlab s s' idx h ∧ s'.bins idx = h := by
  unfold addSlab
  rcases kmNewSlab_spec hpages hidx with hnone | ⟨h, s₁, hsome, hnew, -⟩
  · rw [hnone]
    exact .inl rfl
  · rw [hsome]
    have hp : OnPage s₁ h := ⟨hnew.obtains.pages.hhdm, hnew.obtains.aligned⟩
    have hset := sets_setNext hp 0
    generalize hs₂ : Slab.setNext s₁ h 0 = s₂ at hset
    have hview : slabView (s₂.setHead idx h) h = _ := hset.view
    have hw := hset.writes.trans (writesPage_setHead s₂ idx h h)
    refine .inr ⟨h, s₂.setHead idx h, ?_, ⟨hnew.obtains.writes hw, ?_, ?_, ?_, ?_, ?_, ?_⟩,
      if_pos rfl⟩
    · rw [← hs₂]
    · rw [hview]
    · rw [hview]
      exact hnew.objSize
    · rw [hview]
      exact hnew.capacity
    · rw [hview]
      exact hnew.freeCount
    · rw [hview]
      exact hnew.top
    · rw [hview]
      exact hnew.stk

end DzOS.Proofs.Mem
