import DzOS.Proofs.Fs.Runs

/-!
# `DzOS.Proofs.Fs.Ownership`: every block has one owner

`Refers` lists the references on the disk: an entry of a folder, a direct block of a file, its
indirect block, and an entry of that block. `Owned` states that every block with a reference
lies behind the root folder, is not free, and has no other reference.

`blocks_owned` proves it for every state of a run of valid and safe calls from a formatted
disk. `staleParent_not_owned` shows what happens when `..` leads to a dnode that is no longer
a folder.
-/

set_option autoImplicit false

namespace DzOS.Proofs.Fs

open DzOS.Lib DzOS.Fs

/-- The places on the disk that refer to a block. -/
inductive Ref where
  | content (f i : Nat)
  | direct (d i : Nat)
  | indirect (d : Nat)
  | entry (d i : Nat)
  deriving DecidableEq

/-- The file that is at the dnode `d`. -/
def IsFile (s : FsState) (d : Nat) : Prop :=
  d ∈ s.entities ∧ entityType (s.fs.disk d) = DZFS_ENTITY_FILE

instance (s : FsState) (d : Nat) : Decidable (IsFile s d) :=
  inferInstanceAs (Decidable (_ ∧ _))

/-- The block number that a place has. -/
def Ref.block (s : FsState) : Ref → Nat
  | .content f i => contentDnode (s.fs.disk f) i
  | .direct d i => fileDirect (s.fs.disk d) i
  | .indirect d => fileIndirect (s.fs.disk d)
  | .entry d i => indirectEntry (s.fs.disk (fileIndirect (s.fs.disk d))) i

/-- The place is one of a folder or a file of the file system. -/
def Ref.Present (s : FsState) : Ref → Prop
  | .content f i => IsFolder s f ∧ i < DZFS_MAX_DIR_CONTENTS
  | .direct d i => IsFile s d ∧ i < DZFS_DIRECT_BLOCKS
  | .indirect d => IsFile s d
  | .entry d i => IsFile s d ∧ fileIndirect (s.fs.disk d) ≠ 0 ∧ i < DZFS_INDIRECT_BLOCK_COUNT

/-- The place `r` refers to the block `n`. -/
def Refers (s : FsState) (r : Ref) (n : Nat) : Prop :=
  r.Present s ∧ r.block s = n ∧ n ≠ 0

/-- Every block with a reference is behind the root folder, is not free, and has one
reference. -/
def Owned (s : FsState) : Prop :=
  ∀ r n, Refers s r n → s.fs.rootDnode < n ∧ bit s.fs n = false ∧ ∀ r', Refers s r' n → r' = r

section
variable {s : FsState} {ls : Nat → List Nat} {p : Place} {r : Ref} {n : Nat}

/-- The place of a file that a reference is, if it is one. -/
def Ref.place : Ref → Option Place
  | .content _ _ => none
  | .direct d i => some (.direct d i)
  | .indirect d => some (.indirect d)
  | .entry d i => some (.entry d i)

theorem Ref.place_inj {r' : Ref} (h : r.place = some p) (h' : r'.place = some p) : r' = r := by
  cases r <;> cases r' <;> cases h <;> cases h' <;> rfl

theorem Ref.place_ne_dnode (h : r.place = some p) (n : Nat) : p ≠ .dnode n := by
  rintro rfl
  cases r <;> simp [Ref.place] at h

/-- A reference of a file is a place that holds the block. -/
theorem Refers.holds (h : Refers s r n) (hp : r.place = some p) :
    Holds s.fs.disk s.entities p n := by
  obtain ⟨hpresent, hblock, hne⟩ := h
  cases r with
  | content f i => cases hp
  | direct d i =>
    obtain rfl := Option.some.inj hp
    exact ⟨hpresent.1.1, hpresent.1.2, hpresent.2, hblock.symm, hne⟩
  | indirect d =>
    obtain rfl := Option.some.inj hp
    exact ⟨hpresent.1, hpresent.2, hblock.symm, hne⟩
  | entry d i =>
    obtain rfl := Option.some.inj hp
    exact ⟨hpresent.1.1, hpresent.1.2, hpresent.2.1, hpresent.2.2, hblock.symm, hne⟩

/-- A reference of a folder is an element of its list. -/
theorem Refers.getElem (h : Inv s.fs s.entities ls) {f i : Nat} (hr : Refers s (.content f i) n) :
    (ls f)[i]? = some n := by
  obtain ⟨⟨hf, hi⟩, hblock, hne⟩ := hr
  have hword := (h.lists f hf.1 hf.2).word i hi
  change contentDnode (s.fs.disk f) i = n at hblock
  rw [hblock] at hword
  have hlt : i < (ls f).length := by
    by_contra hge
    rw [List.getD_eq_default _ _ (not_lt.mp hge)] at hword
    exact hne hword
  rw [List.getD_eq_getElem _ _ hlt] at hword
  rw [List.getElem?_eq_getElem hlt, hword]

/-- The invariant of the file system gives every block one owner. -/
theorem Inv.owned (h : Inv s.fs s.entities ls) : Owned s := by
  -- A block that a folder lists is a dnode, a block of a file is none.
  have hfolder : ∀ f i n, Refers s (.content f i) n → n ∈ s.entities ∧ n ≠ s.fs.rootDnode :=
    fun f i n hr => h.entity_of_listed (List.mem_of_getElem? (hr.getElem h))
  have hfile : ∀ r p n, Refers s r n → r.place = some p → n ∉ s.entities := fun r p n hr hp =>
    h.not_mem_of_holds (hr.holds hp) (Ref.place_ne_dnode hp n)
  intro r n hr
  cases hplace : r.place with
  | none =>
    obtain ⟨f, i, rfl⟩ : ∃ f i, r = .content f i := by
      cases r <;> simp [Ref.place] at hplace ⊢
    obtain ⟨hmem, hne⟩ := hfolder f i n hr
    have hused := h.mem_used hmem
    refine ⟨lt_of_le_of_ne hused.1 hne.symm, hused.2.2, fun r' hr' => ?_⟩
    cases hplace' : r'.place with
    | some p => exact absurd hmem (hfile r' p n hr' hplace')
    | none =>
      obtain ⟨f', i', rfl⟩ : ∃ f i, r' = .content f i := by
        cases r' <;> simp [Ref.place] at hplace' ⊢
      have hi := hr.getElem h
      have hi' := hr'.getElem h
      obtain rfl : f' = f := h.listing.owns.inj _ _ n (List.mem_of_getElem? hi')
        (List.mem_of_getElem? hi)
      obtain ⟨hlt, hget⟩ := List.getElem?_eq_some_iff.mp hi
      obtain ⟨hlt', hget'⟩ := List.getElem?_eq_some_iff.mp hi'
      have hidx := (h.listing.nodup f').getElem_inj_iff.mp (hget'.trans hget.symm)
      rw [hidx]
  | some p =>
    have hholds := hr.holds hplace
    have hused := h.blocks.used p n hholds
    have hnot := hfile r p n hr hplace
    have hne : s.fs.rootDnode ≠ n := by
      rintro rfl
      exact hnot h.root_mem
    refine ⟨lt_of_le_of_ne hused.1 hne, hused.2.2, fun r' hr' => ?_⟩
    cases hplace' : r'.place with
    | none =>
      obtain ⟨f', i', rfl⟩ : ∃ f i, r' = .content f i := by
        cases r' <;> simp [Ref.place] at hplace' ⊢
      exact absurd (hfolder f' i' n hr').1 hnot
    | some p' =>
      obtain rfl := h.blocks.inj p' p n (hr'.holds hplace') hholds
      exact Ref.place_inj hplace hplace'

end

/-- In every state of a run of valid and safe calls from a disk of at most 2^20 blocks that
`dzfsNew` formatted, every block with a reference has one owner. -/
theorem blocks_owned (disk : Nat → Bytes) (blocks : Nat) (date : UInt64) (fs : Dzfs)
    (hle : blocks ≤ 2 ^ 20) (hnew : dzfsNew disk blocks date = (.OK, fs)) (s : FsState)
    (hs : Reachable (fun s c => Valid s c ∧ Safe s c) (newState fs) s) : Owned s := by
  obtain ⟨ls, hinv⟩ := hs.inv (hle.trans (by decide)) hnew
  exact hinv.owned

theorem blocks_owned_mkdir :
    Owned (exec (newState formattedDisk) (.openRelative [97] 3 3 0)) :=
  blocks_owned (fun _ => Bytes.zero) 32768 0 formattedDisk (by decide)
    (Prod.ext (by decide +kernel) rfl) _
    (.call _ .start ⟨by decide +kernel, by unfold Safe; decide +kernel⟩)

/-- A run of valid calls after which the disk has a reference to a free block. -/
theorem staleParent_not_owned :
    ∃ fs s, dzfsNew (fun _ => Bytes.zero) 32768 0 = (.OK, fs) ∧
      Reachable Valid (newState fs) s ∧ ¬ Owned s := by
  have hrun : ValidRun (newState formattedDisk) staleParentCalls ∧
      IsFile staleParentState 4 ∧ fileIndirect (staleParentState.fs.disk 4) ≠ 0 ∧
      (Ref.entry 4 0).block staleParentState = 30721 ∧
      bit staleParentState.fs 30721 = true := by
    decide +kernel
  obtain ⟨hvalid, hfile, hind, hblock, hbit⟩ := hrun
  refine ⟨formattedDisk, staleParentState, Prod.ext (by decide +kernel) rfl,
    ValidRun.reachable .start hvalid, fun howned => ?_⟩
  have hclear := (howned (.entry 4 0) 30721 ⟨⟨hfile, hind, by decide⟩, hblock, by decide⟩).2.1
  rw [hbit] at hclear
  cases hclear

end DzOS.Proofs.Fs
