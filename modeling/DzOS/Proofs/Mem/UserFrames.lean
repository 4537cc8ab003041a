import DzOS.Lib.PagedView
import DzOS.Proofs.Mem.UserSpace

/-!
# `DzOS.Proofs.Mem.UserFrames`: the frames of the pages that are loaded

`Frames s S` is the invariant of an address space that is filled: the pages of `S` have frames of
their own, and the supply hands out none of them again. `view 4096 (frameOf s.pagetable) s.mem` is
then a memory of its own.

`vmmAllocate_new` says what `vmm_allocate` does to it: it adds pages, and the bytes of the pages
that were there stay. The new frames are filled, but they belong to no other page.

`HandedOut.supply` says that the pages of the page allocator are such a supply, if the usable memory
ends below 4 GiB.
-/

set_option autoImplicit false

namespace DzOS.Proofs.Mem

open DzOS.Lib DzOS.Lib.PagedView DzOS.Mem

variable {clear : Bool} {k base i page : Nat} {frame va : UInt64} {r : Int}
  {rest pages : List UInt64} {t₁ t : PageTree 3} {perm : PtePermissions} {s s' : UserSpace}
  {S : Set Nat}

/-- The address of a page. -/
def pageVa (page : Nat) : UInt64 := UInt64.ofNat (page * 4096)

/-- The frame of a page. -/
def frameOf (t : PageTree 3) (page : Nat) : Nat :=
  ((pageEntry t (pageVa page)).map fun pte => (pteFollow pte).toNat).getD 0

/-- A page-aligned physical address below 4 GiB. The allocator has no others. -/
def FrameOk (f : UInt64) : Prop := f.toNat % 4096 = 0 ∧ f.toNat < 2 ^ 32

/-- The supply hands out frames, and none of them twice. -/
structure Supply (pages : List UInt64) : Prop where
  nodup : pages.Nodup
  frame : ∀ f ∈ pages, FrameOk f

theorem Supply.suffix (h : Supply pages) (hrest : rest <:+ pages) :
    Supply rest where
  nodup := h.nodup.sublist hrest.sublist
  frame f hf := h.frame f (hrest.mem hf)

/-! ### The pages of the allocator -/

/-- The addresses of blocks that the page allocator hands out at the same time. The memory ends
below 4 GiB, and other blocks may be handed out too. -/
inductive HandedOut : List UInt64 → Prop
  | intro {s₀ : MemState} {l : Ledger} {blocks : List (UInt64 × Nat)} (hfree : s₀.freepages = [])
      (hregions : RegionsOk s₀.regions) (hbelow : ∀ r ∈ s₀.regions, r.physEnd.toNat ≤ 2 ^ 32)
      (hreach : Ledger.Reachable s₀ l) (hblocks : blocks.Subperm l.out)
      (hpos : ∀ b ∈ blocks, 0 < b.2) : HandedOut (blocks.map fun b => l.state.V2P b.1)

/-- The first pages of blocks are among the pages of the blocks. -/
theorem firstPages_sublist (f : UInt64 → UInt64) {blocks : List (UInt64 × Nat)}
    (h : ∀ b ∈ blocks, 0 < b.2) :
    (blocks.map fun b => f b.1).Sublist (blocks.flatMap fun b => blockPages (f b.1) b.2) := by
  induction blocks with
  | nil => exact List.Sublist.slnil
  | cons b blocks ih =>
    obtain ⟨n, hn⟩ : ∃ n, b.2 = n + 1 := Nat.exists_eq_succ_of_ne_zero
      (Nat.ne_of_gt (h b List.mem_cons_self))
    rw [List.map_cons, List.flatMap_cons, hn, blockPages_cons, List.cons_append]
    have hrest := ih fun b' hb' => h b' (List.mem_cons_of_mem b hb')
    exact (hrest.trans (List.sublist_append_right _ _)).cons_cons (f b.1)

/-- Such pages are a supply. -/
theorem HandedOut.supply (h : HandedOut pages) : Supply pages := by
  cases h with
  | @intro s₀ l blocks hfree hregions hbelow hreach hblocks hpos =>
    have hinv := Ledger.Reachable.inv hfree hregions hreach
    have hout : l.outPages ∈ [l.freePages, l.uncarvedPages, l.outPages] := by simp
    obtain ⟨lent, hperm, hsub⟩ := hblocks
    have hfirst : (lent.map fun b => l.state.V2P b.1).Sublist l.outPages :=
      (firstPages_sublist l.state.V2P fun b hb => hpos b (hperm.mem_iff.mp hb)).trans
        (hsub.flatMap _)
    have hmap := hperm.map fun b => l.state.V2P b.1
    constructor
    · exact hmap.nodup_iff.mp ((hinv.conserves.nodup (nodup_regionsPages hregions) hout).sublist
        hfirst)
    · intro f hf
      have hmem : f ∈ l.outPages := hfirst.subset (hmap.mem_iff.mpr hf)
      obtain ⟨r, hr, hpage⟩ := List.mem_flatMap.mp
        ((hinv.conserves.mem_iff f).mpr ⟨l.outPages, hout, hmem⟩)
      obtain ⟨hal, -, hend⟩ := (mem_regionPages (hregions.aligned r hr) f).mp hpage
      exact ⟨hal, hend.trans_le (hbelow r hr)⟩

/-! ### The frames -/

/-- The entry of an address is that of its page. -/
theorem pageEntry_pageVa (t : PageTree 3) (va : UInt64) :
    pageEntry t (pageVa (va.toNat / 4096)) = pageEntry t va := by
  apply pageEntry_congr
  have hlt := va.toNat_lt
  rw [samePage_iff, pageVa, UInt64.toNat_ofNat']
  omega

/-- The frame of the page of an address. -/
theorem frameOf_eq {pte : UInt64} (h : pageEntry t va = some pte) :
    frameOf t (va.toNat / 4096) = (pteFollow pte).toNat := by
  rw [frameOf, pageEntry_pageVa, h]
  rfl

/-- The frame of a page that `vmm_allocate` mapped. -/
theorem frameOf_buildPte {f : UInt64} (hf : FrameOk f)
    (h : pageEntry t (pageVa page) = some (buildPte f perm)) : frameOf t page = f.toNat := by
  rw [frameOf, h]
  show (pteFollow (buildPte f perm)).toNat = f.toNat
  have hlt := hf.2
  rw [pteFollow_buildPte perm hf.1 (by omega)]

/-- The pages of `S` have frames of their own, which the supply does not hand out again. -/
structure Frames (s : UserSpace) (S : Set Nat) : Prop where
  supply : Supply s.pages
  frame : ∀ page ∈ S, ∃ f perm, pageEntry s.pagetable (pageVa page) = some (buildPte f perm) ∧
    FrameOk f ∧ f ∉ s.pages
  inj : ∀ p ∈ S, ∀ q ∈ S, frameOf s.pagetable p = frameOf s.pagetable q → p = q

/-- The frames do not overlap. -/
theorem Frames.apart (h : Frames s S) : Apart 4096 (frameOf s.pagetable) S := by
  intro p hp q hq hne
  obtain ⟨f, perm, hentry, hf, -⟩ := h.frame p hp
  obtain ⟨g, perm', hentry', hg, -⟩ := h.frame q hq
  have hdiff : frameOf s.pagetable p ≠ frameOf s.pagetable q := fun heq => hne (h.inj p hp q hq heq)
  rw [frameOf_buildPte hf hentry, frameOf_buildPte hg hentry'] at hdiff ⊢
  have hfal := hf.1
  have hgal := hg.1
  omega

/-- An address space with other bytes in its frames. -/
theorem Frames.withMem (h : Frames s S) (mem : Bytes) : Frames { s with mem := mem } S :=
  ⟨h.supply, h.frame, h.inj⟩

/-- What `vmm_allocate` does to the pages of `S` when it maps the pages from `first` to `last`. -/
structure NewPages (s s' : UserSpace) (S : Set Nat) (first last : Nat) (perm : PtePermissions) :
    Prop where
  frames : Frames s' (S ∪ Set.Ico first last)
  fresh : ∀ page ∈ S, ¬ (first ≤ page ∧ page < last)
  keeps : Keeps s.pagetable s'.pagetable
  entry : ∀ page, first ≤ page → page < last →
    ∃ f, FrameOk f ∧ pageEntry s'.pagetable (pageVa page) = some (buildPte f perm)
  view : ∀ x, x / 4096 ∈ S → view 4096 (frameOf s'.pagetable) s'.mem x
    = view 4096 (frameOf s.pagetable) s.mem x

/-- No pages. -/
theorem NewPages.none (h : Frames s S) (first : Nat) (perm : PtePermissions) :
    NewPages s s S first first perm where
  frames := by
    rw [Set.Ico_self, Set.union_empty]
    exact h
  fresh page _ hin := absurd hin (by omega)
  keeps := Keeps.refl _
  entry page h1 h2 := absurd h1 (by omega)
  view _ _ := rfl

/-- Pages that follow each other. -/
theorem NewPages.trans {s'' : UserSpace} {first mid last : Nat} (h : NewPages s s' S first mid perm)
    (h' : NewPages s' s'' (S ∪ Set.Ico first mid) mid last perm) (h1 : first ≤ mid)
    (h2 : mid ≤ last) : NewPages s s'' S first last perm where
  frames := by
    have hall := h'.frames
    rw [Set.union_assoc, Set.Ico_union_Ico_eq_Ico h1 h2] at hall
    exact hall
  fresh page hpage hin := by
    have hfirst := h.fresh page hpage
    have hsecond := h'.fresh page (Or.inl hpage)
    omega
  keeps := h.keeps.trans h'.keeps
  entry page hfirst hlast := by
    by_cases hmid : page < mid
    · obtain ⟨f, hf, hentry⟩ := h.entry page hfirst hmid
      exact ⟨f, hf, h'.keeps _ _ hentry⟩
    · exact h'.entry page (by omega) hlast
  view x hx := (h'.view x (Or.inl hx)).trans (h.view x hx)

/-- The frame of a page stays when its entry does. -/
theorem Frames.frameOf_keeps (h : Frames s S) (hkeeps : Keeps s.pagetable t₁) (hpage : page ∈ S) :
    frameOf t₁ page = frameOf s.pagetable page := by
  obtain ⟨f, perm, hentry, hf, -⟩ := h.frame page hpage
  rw [frameOf_buildPte hf hentry, frameOf_buildPte hf (hkeeps _ _ hentry)]

/-- The next frame of the supply is not the frame of a page. -/
theorem Frames.ne_frameOf (h : Frames s S) (hframe : frame ∈ s.pages) (hpage : page ∈ S) :
    frameOf s.pagetable page + 4096 ≤ frame.toNat ∨
      frame.toNat + 4096 ≤ frameOf s.pagetable page := by
  obtain ⟨f, perm, hentry, hf, hused⟩ := h.frame page hpage
  have hne : f.toNat ≠ frame.toNat := fun heq => hused (UInt64.toNat.inj heq ▸ hframe)
  have hfal := hf.1
  have hal := (h.supply.frame frame hframe).1
  rw [frameOf_buildPte hf hentry]
  omega

/-- One page: its frame is the next one of the supply. -/
theorem newPages_one (perm : PtePermissions) (c : UInt8) (h : Frames s S)
    (hpages : s.pages = frame :: pages) (hva : va.toNat = page * 4096) (hlt : page < 2 ^ 34)
    (hwalk : Walked s.pagetable t₁ va true pages rest) (hfree : ¬ leafPresent t₁ va = true) :
    NewPages s ⟨writeLeaf t₁ va (buildPte frame perm), s.mem.fill frame.toNat 4096 c, rest, s.freed,
      s.recycled⟩ S page (page + 1) perm := by
  obtain ⟨hkeeps, hnew⟩ := keeps_map_one (buildPte_flags frame perm).1 hwalk hfree
  have hpageVa : pageVa page = va := by rw [pageVa, ← hva, UInt64.ofNat_toNat]
  have hframe : frame ∈ s.pages := by
    rw [hpages]
    exact List.mem_cons_self
  have hok : FrameOk frame := h.supply.frame frame hframe
  have hnodup : frame ∉ pages ∧ pages.Nodup := by
    have hall := h.supply.nodup
    rw [hpages] at hall
    exact List.nodup_cons.mp hall
  have hentry : pageEntry (writeLeaf t₁ va (buildPte frame perm)) (pageVa page)
      = some (buildPte frame perm) := by
    rw [hpageVa]
    exact hnew
  have hnewFrame : frameOf (writeLeaf t₁ va (buildPte frame perm)) page = frame.toNat :=
    frameOf_buildPte hok hentry
  have hrest : rest <:+ s.pages := by
    rw [hpages]
    exact hwalk.supply.trans (List.suffix_cons frame pages)
  have hapart : ∀ p ∈ S,
      frameOf (writeLeaf t₁ va (buildPte frame perm)) p ≠ frame.toNat := by
    intro p hp
    rw [h.frameOf_keeps hkeeps hp]
    have hne := h.ne_frameOf hframe hp
    omega
  have hpage : ∀ p, p ∈ S ∪ Set.Ico page (page + 1) → p ∈ S ∨ p = page := by
    rintro p (hp | ⟨h1, h2⟩)
    · exact Or.inl hp
    · exact Or.inr (by omega)
  constructor
  · constructor
    · exact h.supply.suffix hrest
    · intro p hp
      rcases hpage p hp with hold | rfl
      · obtain ⟨f, perm', hold, hf, hused⟩ := h.frame p hold
        exact ⟨f, perm', hkeeps _ _ hold, hf, fun hin => hused (hrest.mem hin)⟩
      · exact ⟨frame, perm, hentry, hok, fun hin => hnodup.1 (hwalk.supply.mem hin)⟩
    · intro p hp q hq heq
      rcases hpage p hp with hpold | rfl
      · rcases hpage q hq with hqold | rfl
        · rw [h.frameOf_keeps hkeeps hpold, h.frameOf_keeps hkeeps hqold] at heq
          exact h.inj p hpold q hqold heq
        · exact absurd (heq.trans hnewFrame) (hapart p hpold)
      · rcases hpage q hq with hqold | rfl
        · exact absurd (heq.symm.trans hnewFrame) (hapart q hqold)
        · rfl
  · intro p hp hin
    -- A page that is there would have been a remap.
    obtain ⟨f, perm', hold, -, -⟩ := h.frame p hp
    have hsame : p = page := by omega
    rw [hsame, hpageVa, ← hwalk.entry, pageEntry_eq_none.mpr hfree] at hold
    cases hold
  · exact hkeeps
  · intro p h1 h2
    obtain rfl : p = page := by omega
    exact ⟨frame, hok, hentry⟩
  · intro x hx
    have hne := h.ne_frameOf hframe hx
    have hmod := Nat.mod_lt x (show 0 < 4096 by decide)
    show Bytes.fill s.mem frame.toNat 4096 c _ = _
    rw [h.frameOf_keeps hkeeps hx, Bytes.fill_of_apart (by omega)]
    rfl

/-- The loop of `vmm_allocate`, when it maps all pages. -/
theorem allocateFrom_new (h : Frames s S) (hva : va.toNat = base * 4096)
    (hlt : base + i + k ≤ 2 ^ 34) (hrun : allocateFrom va perm clear k i s = .ok (0, s')) :
    NewPages s s' S (base + i) (base + i + k) perm := by
  induction k generalizing i s S with
  | zero =>
    cases hrun
    exact NewPages.none h (base + i) perm
  | succ k ih =>
    have hcurrent : (va + UInt64.ofNat i * PAGE_SIZE.toUInt64).toNat = (base + i) * 4096 := by
      rw [toNat_block_page (by omega), hva, Nat.add_mul]
    unfold allocateFrom at hrun
    dsimp only at hrun
    split at hrun
    · cases hrun
    rename_i frame pages hpages
    split at hrun
    · cases hrun
    · cases hrun
    rename_i t₁ rest hwalk
    split at hrun
    · cases hrun
    rename_i hfree
    have hone := newPages_one perm (if clear || s.recycled frame then 0 else 2) h hpages hcurrent
      (by omega) (walkUser_walked hwalk) hfree
    have hmore := ih hone.frames (by omega) hrun
    have hlast : base + (i + 1) + k = base + i + (k + 1) := by omega
    rw [hlast] at hmore
    exact hone.trans hmore (by omega) (by omega)

/-- The loop of `vmm_allocate` returns 0 or -1. -/
theorem allocateFrom_result (hrun : allocateFrom va perm clear k i s = .ok (r, s')) :
    r = 0 ∨ r = -1 := by
  induction k generalizing i s with
  | zero =>
    cases hrun
    exact Or.inl rfl
  | succ k ih =>
    unfold allocateFrom at hrun
    dsimp only at hrun
    split at hrun
    · cases hrun
      exact Or.inr rfl
    split at hrun
    · cases hrun
    · cases hrun
      exact Or.inr rfl
    split at hrun
    · cases hrun
    · exact ih hrun

/-- `vmm_allocate`, when it does not return -1. -/
theorem vmmAllocate_new {size : UInt64} (h : Frames s S) (hva : va.toNat = base * 4096)
    (hsize : size.toNat = k * 4096) (hlt : base + k ≤ 2 ^ 34)
    (hrun : s.vmmAllocate va size perm clear = .ok (r, s')) (hr : r ≠ -1) :
    NewPages s s' S base (base + k) perm := by
  unfold UserSpace.vmmAllocate at hrun
  split_ifs at hrun
  have hcount : (size / PAGE_SIZE.toUInt64).toNat = k := by
    rw [UInt64.toNat_div, hsize, toNat_PAGE_SIZE_toUInt64]
    omega
  rw [hcount] at hrun
  have hzero : r = 0 := (allocateFrom_result hrun).resolve_right hr
  rw [hzero] at hrun
  exact allocateFrom_new h hva (by omega) hrun

end DzOS.Proofs.Mem
