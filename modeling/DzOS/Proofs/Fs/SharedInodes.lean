import DzOS.Lib.Run
import DzOS.Proofs.Fs.CachedSize
import DzOS.Proofs.Fs.FileTree

/-!
# `DzOS.Proofs.Fs.SharedInodes`: the sharing of the inodes

`fs_open` and `fs_dup` hand out references to the inodes, and `fs_close` takes one back. Here the
references that are held are listed with the dnodes that they were opened for, and the calls of
each kind are counted for each inode (`SharedState`). `Shared` is what the inode list promises
about them, and `NullOnly` is what it promises about an open without a result.

`reference_count` has 32 bits, so the list keeps `Shared` exactly as long as no inode has `2 ^ 32`
references (`shared_inodes_iff`). This holds for any disk.
-/

set_option autoImplicit false

namespace DzOS.Proofs.Fs

open DzOS.Lib DzOS.Fs

variable {dups : InodePtr → Nat}

/-! ### The references -/

/-- A reference that `fs_open` or `fs_dup` handed out: the inode, and the dnode that was opened. -/
structure InodeRef where
  inode : InodePtr
  dnode : Nat
  deriving DecidableEq, Repr

variable {r : InodeRef} {opens : InodePtr → Nat}

/-- The inodes with the references that are held, and the numbers of the calls on each inode. -/
structure SharedState where
  vars : FsVars
  held : List InodeRef
  opens : InodePtr → Nat
  dups : InodePtr → Nat
  closes : InodePtr → Nat

/-- The calls for references. -/
inductive RefCall where
  | open (path : List UInt8) (relativeTo : Option InodePtr) (flags : UInt32) (date : UInt64)
  | dup (r : InodeRef)
  | close (r : InodeRef)

/-- One more call on the inode `i`. -/
def countCall (calls : InodePtr → Nat) (i : InodePtr) : InodePtr → Nat :=
  Function.update calls i (calls i + 1)

/-- What the open on the disk returns to `fs_open`. -/
def openOut (s : FsVars) (path : List UInt8) (relativeTo : Option InodePtr) (flags : UInt32)
    (date : UInt64) : OpenOut :=
  (dzfsOpenRelative s.fs flags date path (relativeDnode s relativeTo)).1

/-- One call, or `none` when it panics. -/
def refStep (u : SharedState) : RefCall → Option SharedState
  | .open path relativeTo flags date =>
    match fsOpen u.vars path relativeTo flags date with
    | .error _ => none
    | .ok (none, s) => some { u with vars := s }
    | .ok (some i, s) =>
      let dnode := (openOut u.vars path relativeTo flags date).dnode.getD 0
      some { u with vars := s, held := ⟨i, dnode⟩ :: u.held, opens := countCall u.opens i }
  | .dup r =>
    some { u with
      vars := fsDup u.vars r.inode
      held := r :: u.held
      dups := countCall u.dups r.inode }
  | .close r =>
    some { u with
      vars := fsClose u.vars r.inode
      held := u.held.erase r
      closes := countCall u.closes r.inode }

/-- The start: no inode is in use. -/
def SharedState.boot (fs : Dzfs) : SharedState :=
  ⟨FsVars.boot fs, [], fun _ => 0, fun _ => 0, fun _ => 0⟩

/-- `fs_dup` and `fs_close` are called with a reference that is held. -/
def RefHeld (u : SharedState) : RefCall → Prop
  | .open _ _ _ _ => True
  | .dup r => r ∈ u.held
  | .close r => r ∈ u.held

instance (u : SharedState) : (c : RefCall) → Decidable (RefHeld u c)
  | .open _ _ _ _ => inferInstanceAs (Decidable True)
  | .dup r => inferInstanceAs (Decidable (r ∈ u.held))
  | .close r => inferInstanceAs (Decidable (r ∈ u.held))

/-- What the inode list promises about the references. -/
structure Shared (u : SharedState) : Prop where
  /-- No dnode has two inodes. -/
  inj : ∀ i j, (u.vars.inodes i).type ≠ .EMPTY → (u.vars.inodes j).type ≠ .EMPTY →
    (u.vars.inodes i).dnode = (u.vars.inodes j).dnode → i = j
  /-- A reference leads to the dnode that it was opened for. -/
  held : ∀ r ∈ u.held, (u.vars.inodes r.inode).type ≠ .EMPTY ∧
    (u.vars.inodes r.inode).dnode = r.dnode
  /-- The references for one dnode share its inode. -/
  same : ∀ r ∈ u.held, ∀ r' ∈ u.held, r.dnode = r'.dnode → r.inode = r'.inode
  /-- The count is that of the opens and dups without the closes. -/
  count : ∀ i, (u.vars.inodes i).referenceCount.toNat + u.closes i = u.opens i + u.dups i
  /-- An inode is empty exactly when no reference is left. -/
  empty : ∀ i, (u.vars.inodes i).type = .EMPTY ↔ u.opens i + u.dups i = u.closes i

/-- An open returns `NULL` only if the path does not lead to an entity, or all inodes are those of
other dnodes. -/
def NullOnly (u : SharedState) : RefCall → Prop
  | .open path relativeTo flags date =>
    ∀ s, fsOpen u.vars path relativeTo flags date = .ok (none, s) →
      (openOut u.vars path relativeTo flags date).result ≠ .OK ∨
        ∃ d, (openOut u.vars path relativeTo flags date).dnode = some d ∧
          ∀ i, (u.vars.inodes i).type ≠ .EMPTY ∧ (u.vars.inodes i).dnode ≠ d
  | .dup _ => True
  | .close _ => True

/-- No inode has `2 ^ 32` references. -/
def FewRefs (u : SharedState) : Prop := ∀ i, u.opens i + u.dups i < u.closes i + 2 ^ 32

/-! ### The result of an open on the disk -/

/-- A successful open on the disk has both results. -/
def HasBoth (out : OpenOut) : Prop := out.result = .OK → ∃ d p, out = ⟨.OK, some d, some p⟩

theorem hasBoth_ok (d p : Nat) : HasBoth ⟨.OK, some d, some p⟩ := fun _ => ⟨d, p, rfl⟩

theorem hasBoth_of_ne {out : OpenOut} (h : out.result ≠ .OK) : HasBoth out :=
  fun hok => absurd hok h

theorem createEntity_hasBoth (fs : Dzfs) (cur : Nat) (b : Bytes) (name : List UInt8)
    (flags : UInt32) (date : UInt64) (parent : Nat) :
    HasBoth (createEntity fs cur b name flags date parent).1 := by
  unfold createEntity
  simp only
  split
  · exact hasBoth_of_ne DzfsResult.noConfusion
  · split
    · exact hasBoth_of_ne DzfsResult.noConfusion
    · exact hasBoth_ok _ _

theorem traverse_hasBoth (fs : Dzfs) (flags : UInt32) (date : UInt64) (parent fuel cur : Nat)
    (path : List UInt8) : HasBoth (Fs.traverse flags date fs parent fuel cur path).1 := by
  induction fuel generalizing cur path with
  | zero => exact hasBoth_of_ne DzfsResult.noConfusion
  | succ fuel ih =>
    unfold Fs.traverse
    simp only
    split
    · split
      · exact createEntity_hasBoth _ _ _ _ _ _ _
      · exact hasBoth_of_ne DzfsResult.noConfusion
    · split
      · exact hasBoth_ok _ _
      · split
        · exact hasBoth_of_ne DzfsResult.noConfusion
        · exact ih _ _

theorem openFrom_hasBoth (fs : Dzfs) (path : List UInt8) (relativeTo : Nat) (flags : UInt32)
    (date : UInt64) : HasBoth (openFrom fs path relativeTo flags date).1 := by
  unfold openFrom
  simp only
  split
  · exact hasBoth_of_ne DzfsResult.noConfusion
  · split
    · exact hasBoth_ok _ _
    · exact traverse_hasBoth _ _ _ _ _ _ _

theorem dzfsOpenRelative_hasBoth (fs : Dzfs) (flags : UInt32) (date : UInt64) (path : List UInt8)
    (relativeTo : Nat) : HasBoth (dzfsOpenRelative fs flags date path relativeTo).1 := by
  induction path generalizing relativeTo with
  | nil => exact openFrom_hasBoth fs [] relativeTo flags date
  | cons c path ih =>
    unfold dzfsOpenRelative
    split
    · split
      · exact hasBoth_ok _ _
      · exact ih _
    · exact openFrom_hasBoth _ _ _ _ _

/-! ### One call -/

section
variable {u u' : SharedState} {c : RefCall} {path : List UInt8} {relativeTo : Option InodePtr}
  {flags : UInt32} {date : UInt64}

/-- An open without a result: the disk has none, or the inodes are those of other dnodes. -/
theorem nullOnly (u : SharedState) (c : RefCall) : NullOnly u c := by
  cases c with
  | «open» path relativeTo flags date =>
    intro s hopen
    by_cases hok : (openOut u.vars path relativeTo flags date).result = .OK
    · obtain ⟨d, p, hout⟩ := dzfsOpenRelative_hasBoth _ _ _ _ _ hok
      refine Or.inr ⟨d, congrArg OpenOut.dnode hout, ?_⟩
      rw [fsOpen_found (Prod.ext hout rfl)] at hopen
      cases openInode_cases hopen with
      | full used absent => exact fun i => ⟨used i, absent i (used i)⟩
    · exact Or.inl hok
  | dup r => trivial
  | close r => trivial

/-- The invariant behind `Shared`. All references are pending ones, in the words of
`Lib/RefCount.lean`. -/
structure RefInv (u : SharedState) : Prop where
  counts : Counts u.vars (∅ : Finset Unit) (fun _ => none) (u.held.map InodeRef.inode)
  calls : ∀ i, (u.held.map InodeRef.inode).count i + u.closes i = u.opens i + u.dups i
  inj : ∀ i j, (u.vars.inodes i).type ≠ .EMPTY → (u.vars.inodes j).type ≠ .EMPTY →
    (u.vars.inodes i).dnode = (u.vars.inodes j).dnode → i = j
  dnode : ∀ r ∈ u.held, (u.vars.inodes r.inode).dnode = r.dnode

section

variable {s : FsVars} {rs : List InodeRef}
  (h : Counts s (∅ : Finset Unit) (fun _ => none) (rs.map InodeRef.inode))

include h

/-- The references that are held are all that the counts are about. -/
theorem Counts.held (i : InodePtr) : refCounts s i = (rs.map InodeRef.inode).count i := by
  have hcount := h.counted i
  rw [refs, Finset.filter_empty, Finset.card_empty, Nat.zero_add] at hcount
  exact hcount

/-- An inode is empty exactly when no reference to it is held. -/
theorem Counts.held_empty (i : InodePtr) :
    (s.inodes i).type = .EMPTY ↔ (rs.map InodeRef.inode).count i = 0 := by
  rw [h.empty i, ← h.held i]
  constructor
  · intro hzero
    rw [refCounts, hzero]
    rfl
  · intro hzero
    exact UInt32.toNat_inj.mp hzero

theorem Counts.held_used (hr : r ∈ rs) : (s.inodes r.inode).type ≠ .EMPTY := by
  rw [ne_eq, h.held_empty]
  exact (List.count_pos_iff.mpr (List.mem_map_of_mem hr)).ne'

end

theorem RefInv.shared (h : RefInv u) : Shared u where
  inj := h.inj
  held r hr := ⟨h.counts.held_used hr, h.dnode r hr⟩
  same r hr r' hr' heq := by
    refine h.inj _ _ (h.counts.held_used hr) (h.counts.held_used hr') ?_
    rw [h.dnode r hr, h.dnode r' hr', heq]
  count i := by
    have hcalls := h.calls i
    rw [← h.counts.held i] at hcalls
    exact hcalls
  empty i := by
    have hcalls := h.calls i
    rw [h.counts.held_empty i]
    omega

theorem refInv_boot (fs : Dzfs) : RefInv (SharedState.boot fs) where
  counts := ⟨fun _ => rfl, fun _ => iff_of_true rfl rfl⟩
  calls _ := rfl
  inj _ _ hi := absurd rfl hi
  dnode _ hr := absurd hr List.not_mem_nil

/-- The disk does not matter. -/
theorem RefInv.setDisk (h : RefInv u) (fs : Dzfs) :
    RefInv { u with vars := { u.vars with fs := fs } } :=
  ⟨h.counts.congr fun _ => ⟨rfl, rfl⟩, h.calls, h.inj, h.dnode⟩

theorem countCall_apply (calls : InodePtr → Nat) (i j : InodePtr) :
    countCall calls i j = calls j + if i = j then 1 else 0 := by
  by_cases hij : j = i
  · rw [hij, countCall, Function.update_self, if_pos rfl]
  · rw [countCall, Function.update_of_ne hij, if_neg (Ne.symm hij)]
    rfl

/-- A new reference is one more call. -/
theorem RefInv.calls_cons (h : RefInv u)
    (hcalls : ∀ i, opens i + dups i = u.opens i + u.dups i + if r.inode = i then 1 else 0)
    (i : InodePtr) :
    ((r :: u.held).map InodeRef.inode).count i + u.closes i = opens i + dups i := by
  have hi := h.calls i
  rw [hcalls i, List.map_cons, List.count_cons]
  simp only [beq_iff_eq]
  omega

/-- One more reference to an inode that is in use. -/
theorem RefInv.share (h : RefInv u) (hused : (u.vars.inodes r.inode).type ≠ .EMPTY)
    (hdnode : (u.vars.inodes r.inode).dnode = r.dnode)
    (hcalls : ∀ i, opens i + dups i = u.opens i + u.dups i + if r.inode = i then 1 else 0)
    (hfew : ∀ i, opens i + dups i < u.closes i + 2 ^ 32) :
    RefInv ⟨u.vars.setInode r.inode { u.vars.inodes r.inode with
      referenceCount := (u.vars.inodes r.inode).referenceCount + 1 },
      r :: u.held, opens, dups, u.closes⟩ := by
  have hfits : refCounts u.vars r.inode + 1 < 2 ^ 32 := by
    have hr := h.calls r.inode
    have hnew := hcalls r.inode
    have hlt := hfew r.inode
    rw [if_pos rfl] at hnew
    rw [h.counts.held]
    omega
  -- The type and the dnode of each inode stay.
  have hsame : ∀ i, ((u.vars.setInode r.inode { u.vars.inodes r.inode with
      referenceCount := (u.vars.inodes r.inode).referenceCount + 1 }).inodes i).type
        = (u.vars.inodes i).type ∧
      ((u.vars.setInode r.inode { u.vars.inodes r.inode with
        referenceCount := (u.vars.inodes r.inode).referenceCount + 1 }).inodes i).dnode
        = (u.vars.inodes i).dnode := by
    intro i
    by_cases hi : i = r.inode
    · rw [hi, setInode_self]
      exact ⟨rfl, rfl⟩
    · rw [setInode_of_ne _ hi]
      exact ⟨rfl, rfl⟩
  refine ⟨h.counts.share_of_lt hfits hused, h.calls_cons hcalls, ?_, ?_⟩
  · intro i j hi hj heq
    rw [(hsame i).1] at hi
    rw [(hsame j).1] at hj
    rw [(hsame i).2, (hsame j).2] at heq
    exact h.inj i j hi hj heq
  · intro r' hr'
    rw [(hsame r'.inode).2]
    rcases List.mem_cons.mp hr' with rfl | hr'
    · exact hdnode
    · exact h.dnode r' hr'

/-- The first reference to an empty inode, for a dnode that has no inode. -/
theorem RefInv.take (h : RefInv u) {inode : FsInode}
    (hempty : (u.vars.inodes r.inode).type = .EMPTY)
    (habsent : ∀ j, (u.vars.inodes j).type ≠ .EMPTY → (u.vars.inodes j).dnode ≠ r.dnode)
    (htype : inode.type ≠ .EMPTY) (hdnode : inode.dnode = r.dnode)
    (hcount : inode.referenceCount = 1)
    (hcalls : ∀ i, opens i + u.dups i = u.opens i + u.dups i + if r.inode = i then 1 else 0) :
    RefInv ⟨u.vars.setInode r.inode inode, r :: u.held, opens, u.dups, u.closes⟩ := by
  refine ⟨h.counts.take hempty htype hcount, h.calls_cons hcalls, ?_, ?_⟩
  · intro i j hi hj heq
    by_cases hir : i = r.inode
    · by_cases hjr : j = r.inode
      · rw [hir, hjr]
      · rw [setInode_of_ne _ hjr] at hj heq
        rw [hir, setInode_self, hdnode] at heq
        exact absurd heq.symm (habsent j hj)
    · rw [setInode_of_ne _ hir] at hi heq
      by_cases hjr : j = r.inode
      · rw [hjr, setInode_self, hdnode] at heq
        exact absurd heq (habsent i hi)
      · rw [setInode_of_ne _ hjr] at hj heq
        exact h.inj i j hi hj heq
  · intro r' hr'
    rcases List.mem_cons.mp hr' with rfl | hr'
    · rw [setInode_self]
      exact hdnode
    · have hne : r'.inode ≠ r.inode := fun heq => h.counts.held_used hr' (heq ▸ hempty)
      rw [setInode_of_ne _ hne]
      exact h.dnode r' hr'

/-- A reference is given up. -/
theorem RefInv.close (h : RefInv u) (hr : r ∈ u.held) :
    RefInv { u with
      vars := fsClose u.vars r.inode
      held := u.held.erase r
      closes := countCall u.closes r.inode } := by
  have hperm := (List.perm_cons_erase hr).map InodeRef.inode
  have hcounts : Counts (fsClose u.vars r.inode) (∅ : Finset Unit) (fun _ => none)
      ((u.held.erase r).map InodeRef.inode) := (h.counts.perm hperm).fsClose
  have hcount : ∀ i, (u.held.map InodeRef.inode).count i
      = ((u.held.erase r).map InodeRef.inode).count i + if r.inode = i then 1 else 0 := by
    intro i
    rw [hperm.count_eq i, List.map_cons, List.count_cons]
    simp only [beq_iff_eq]
  have hused : ∀ i, ((fsClose u.vars r.inode).inodes i).type ≠ .EMPTY →
      (u.vars.inodes i).type ≠ .EMPTY := by
    intro i hi
    rw [ne_eq, hcounts.held_empty] at hi
    rw [ne_eq, h.counts.held_empty, hcount]
    omega
  have hkeeps := keeps_fsClose u.vars r.inode
  refine ⟨hcounts, ?_, ?_, ?_⟩
  · intro i
    have hi := h.calls i
    rw [hcount i] at hi
    show ((u.held.erase r).map InodeRef.inode).count i + countCall u.closes r.inode i
      = u.opens i + u.dups i
    rw [countCall_apply]
    omega
  · intro i j hi hj heq
    rw [(hkeeps i (hused i hi) hi).2, (hkeeps j (hused j hj) hj).2] at heq
    exact h.inj i j (hused i hi) (hused j hj) heq
  · intro r' hr'
    have hafter := hcounts.held_used hr'
    show ((fsClose u.vars r.inode).inodes r'.inode).dnode = r'.dnode
    rw [(hkeeps r'.inode (hused _ hafter) hafter).2]
    exact h.dnode r' (List.mem_of_mem_erase hr')

/-- One call keeps the invariant, as long as no inode gets `2 ^ 32` references. -/
theorem RefInv.step (h : RefInv u) (hheld : RefHeld u c) (hcall : refStep u c = some u')
    (hfew : FewRefs u') : RefInv u' := by
  cases c with
  | «open» path relativeTo flags date =>
    rw [refStep] at hcall
    split at hcall
    · cases hcall
    · rename_i s hopen
      cases hcall
      rw [fsOpen_none hopen]
      exact h.setDisk _
    · rename_i i s hopen
      cases hcall
      rcases fsOpen_cases rfl hopen with ⟨hnone, -⟩ | ⟨d, p, hout, hopened⟩
      · cases hnone
      · have hd : (openOut u.vars path relativeTo flags date).dnode.getD 0 = d := by
          rw [openOut, hout]
          rfl
        rw [hd] at hfew ⊢
        have hcalls : ∀ j, countCall u.opens i j + u.dups j
            = u.opens j + u.dups j + if i = j then 1 else 0 := by
          intro j
          rw [countCall_apply]
          omega
        have hdisk := h.setDisk
          (dzfsOpenRelative u.vars.fs flags date path (relativeDnode u.vars relativeTo)).2
        cases hopened with
        | shared used dnode => exact hdisk.share (r := ⟨i, d⟩) used dnode hcalls hfew
        | taken empty absent htype =>
          exact hdisk.take (r := ⟨i, d⟩) empty absent (inodeType_ne_empty htype) rfl rfl hcalls
  | dup r =>
    cases hcall
    have hcalls : ∀ j, u.opens j + countCall u.dups r.inode j
        = u.opens j + u.dups j + if r.inode = j then 1 else 0 := by
      intro j
      rw [countCall_apply]
      omega
    exact h.share (h.counts.held_used hheld) (h.dnode r hheld) hcalls hfew
  | close r =>
    cases hcall
    exact h.close hheld

end

/-! ### Runs -/

/-- From an empty list, in a run of opens, and of dups and closes of references that are held:
the inode list keeps its promises exactly as long as no inode has `2 ^ 32` references. -/
theorem shared_inodes_iff (fs : Dzfs) (calls : List RefCall)
    (hheld : EachCall refStep (SharedState.boot fs) calls RefHeld) :
    (Throughout refStep (SharedState.boot fs) calls Shared ∧
        EachCall refStep (SharedState.boot fs) calls NullOnly) ↔
      Throughout refStep (SharedState.boot fs) calls FewRefs := by
  constructor
  · rintro ⟨hshared, -⟩
    refine hshared.mono fun u hu i => ?_
    have hcount := hu.count i
    have hlt := (u.vars.inodes i).referenceCount.toNat_lt
    omega
  · intro hfew
    have hinv := throughout_of_invariant
      (fun u c u' hu hc hcall hfew => RefInv.step hu hc hcall hfew) (refInv_boot fs) hheld hfew
    exact ⟨hinv.mono fun u hu => hu.shared, fun _ c u _ _ => nullOnly u c⟩

/-- The root folder is opened and dupped, and both references are closed. -/
def rootOnceCalls : List RefCall :=
  [.open [SLASH] none 0 0, .dup ⟨lastInode, 3⟩, .close ⟨lastInode, 3⟩, .close ⟨lastInode, 3⟩]

theorem shared_inodes_root :
    (Throughout refStep (SharedState.boot formattedDisk) rootOnceCalls Shared ∧
        EachCall refStep (SharedState.boot formattedDisk) rootOnceCalls NullOnly) ↔
      Throughout refStep (SharedState.boot formattedDisk) rootOnceCalls FewRefs :=
  shared_inodes_iff formattedDisk rootOnceCalls (by decide +kernel)

/-! ### The limit of the counts -/

section
variable {u u' : SharedState} {r : InodeRef}

/-- A reference that is dupped over and over. -/
theorem runSteps_dups (hr : r ∈ u.held) (n : Nat) :
    EachCall refStep u (List.replicate n (.dup r)) RefHeld ∧
      ∃ u', runSteps refStep u (List.replicate n (.dup r)) = some u' ∧ u'.opens = u.opens ∧
        u'.closes = u.closes ∧ u'.dups r.inode = u.dups r.inode + n := by
  induction n generalizing u with
  | zero => exact ⟨eachCall_nil, u, rfl, rfl, rfl, rfl⟩
  | succ n ih =>
    obtain ⟨t, hcall⟩ : ∃ t, refStep u (.dup r) = some t := ⟨_, rfl⟩
    have hmem : r ∈ t.held := by
      cases hcall
      exact List.mem_cons_self
    obtain ⟨heach, u', hrun, hopens, hcloses, hdups⟩ := ih hmem
    rw [List.replicate_succ, eachCall_cons hcall, runSteps_cons hcall]
    refine ⟨⟨hr, heach⟩, u', hrun, ?_, ?_, ?_⟩
    · cases hcall
      exact hopens
    · cases hcall
      exact hcloses
    · cases hcall
      rw [hdups]
      show countCall u.dups r.inode r.inode + n = _
      rw [countCall_apply, if_pos rfl]
      omega

end

/-- The root folder is opened, and dupped until its inode has `2 ^ 32` references. -/
def wrapCalls : List RefCall :=
  .open [SLASH] none 0 0 :: List.replicate (2 ^ 32 - 1) (.dup ⟨lastInode, 3⟩)

/-- Then the count is not that of the references. -/
theorem dups_wrap :
    EachCall refStep (SharedState.boot formattedDisk) wrapCalls RefHeld ∧
      ¬ Throughout refStep (SharedState.boot formattedDisk) wrapCalls Shared := by
  have hopen : (refStep (SharedState.boot formattedDisk) (.open [SLASH] none 0 0)).isSome := by
    decide +kernel
  have hfirst : ∀ u ∈ refStep (SharedState.boot formattedDisk) (.open [SLASH] none 0 0),
      ⟨lastInode, 3⟩ ∈ u.held ∧ u.opens lastInode = 1 ∧ u.closes lastInode = 0 ∧
        u.dups lastInode = 0 := by decide +kernel
  obtain ⟨u, hcall⟩ := Option.isSome_iff_exists.mp hopen
  obtain ⟨hmem, hopens, hcloses, hdups⟩ := hfirst u hcall
  obtain ⟨heach, u', hrun, hopens', hcloses', hdups'⟩ := runSteps_dups hmem (2 ^ 32 - 1)
  constructor
  · exact (eachCall_cons hcall).mpr ⟨trivial, heach⟩
  · intro hall
    have hshared := hall wrapCalls u' List.prefix_rfl
      ((runSteps_cons hcall _).trans hrun)
    have hcount := hshared.count lastInode
    have hlt := (u'.vars.inodes lastInode).referenceCount.toNat_lt
    rw [hopens', hcloses', hdups', hopens, hcloses, hdups] at hcount
    omega

end DzOS.Proofs.Fs
