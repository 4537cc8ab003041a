import DzOS.Fs.Fs
import DzOS.Proofs.Fs.Variables

/-!
# `DzOS.Proofs.Fs.InodeTable`: the inode list

`fs_open` shares the inode of an entity that is open already, and takes an empty one for any
other entity (`openInode_cases`). `fsOpen_cases` adds what it did on the disk before that.
-/

set_option autoImplicit false

namespace DzOS.Proofs.Fs

open DzOS.Lib DzOS.Fs

variable {d parent : Nat} {fs' : Dzfs} {s s' : FsVars} {date : UInt64} {flags : UInt32}
  {path : List UInt8} {relativeTo r : Option InodePtr}

/-! ### Writing to an inode -/

@[simp] theorem setInode_fs (s : FsVars) (i : InodePtr) (inode : FsInode) :
    (s.setInode i inode).fs = s.fs := rfl

@[simp] theorem setInode_self (s : FsVars) (i : InodePtr) (inode : FsInode) :
    (s.setInode i inode).inodes i = inode := Function.update_self _ _ _

theorem setInode_of_ne (s : FsVars) {i j : InodePtr} (h : j ≠ i) (inode : FsInode) :
    (s.setInode i inode).inodes j = s.inodes j := Function.update_of_ne h _ _

/-! ### Looking for an inode -/

/-- What the loop of `fs_open` finds: the inode of the entity, else an empty inode, else
nothing. -/
inductive FoundInode (inodes : InodePtr → FsInode) (d : Nat) :
    Option InodePtr × Option InodePtr → Prop
  | found {i : InodePtr} {free : Option InodePtr} (used : (inodes i).type ≠ .EMPTY)
      (dnode : (inodes i).dnode = d) : FoundInode inodes d (some i, free)
  | free {i : InodePtr} (empty : (inodes i).type = .EMPTY)
      (absent : ∀ j, (inodes j).type ≠ .EMPTY → (inodes j).dnode ≠ d) :
      FoundInode inodes d (none, some i)
  | full (used : ∀ j, (inodes j).type ≠ .EMPTY)
      (absent : ∀ j, (inodes j).type ≠ .EMPTY → (inodes j).dnode ≠ d) :
      FoundInode inodes d (none, none)

/-- The loop over a part of the list, with an empty inode found before or not. -/
theorem findInode_spec (inodes : InodePtr → FsInode) (d : Nat) (l : List InodePtr)
    (before : Option InodePtr) (hbefore : ∀ i ∈ before, (inodes i).type = .EMPTY) :
    (∃ i free, findInode inodes d l before = (some i, free) ∧ (inodes i).type ≠ .EMPTY ∧
      (inodes i).dnode = d) ∨
    ∃ free, findInode inodes d l before = (none, free) ∧
      (∀ i ∈ free, (inodes i).type = .EMPTY) ∧
      (∀ i ∈ l, (inodes i).type ≠ .EMPTY → (inodes i).dnode ≠ d) ∧
      (free = none → ∀ i ∈ l, (inodes i).type ≠ .EMPTY) ∧ (free = none → before = none) := by
  induction l generalizing before with
  | nil =>
    refine Or.inr ⟨before, rfl, hbefore, ?_, ?_, id⟩
    · intro i hi
      cases hi
    · intro _ i hi
      cases hi
  | cons i l ih =>
    rw [findInode]
    split
    · rename_i hempty
      have hi : ∀ j ∈ some i, (inodes j).type = .EMPTY := by
        intro j hj
        rwa [← Option.some.inj hj]
      rcases ih (some i) hi with hfound | ⟨free, hrun, hfree, habsent, -, hsome⟩
      · exact Or.inl hfound
      · have hne : free ≠ none := fun hnone => nomatch hsome hnone
        refine Or.inr ⟨free, hrun, hfree, fun j hj hused => ?_, fun h => absurd h hne,
          fun h => absurd h hne⟩
        rcases List.mem_cons.mp hj with rfl | hj
        · exact absurd hempty hused
        · exact habsent j hj hused
    · rename_i hused
      split
      · rename_i hdnode
        exact Or.inl ⟨i, before, rfl, hused, hdnode⟩
      · rename_i hdnode
        rcases ih before hbefore with hfound | ⟨free, hrun, hfree, habsent, hfull, hnone⟩
        · exact Or.inl hfound
        · refine Or.inr ⟨free, hrun, hfree, fun j hj hused' => ?_, fun h j hj => ?_, hnone⟩
          · rcases List.mem_cons.mp hj with rfl | hj
            · exact hdnode
            · exact habsent j hj hused'
          · rcases List.mem_cons.mp hj with rfl | hj
            · exact hused
            · exact hfull h j hj

/-- The loop over the whole list. -/
theorem findInode_cases (inodes : InodePtr → FsInode) (d : Nat) :
    FoundInode inodes d (findInode inodes d (List.finRange MAX_INODES) none) := by
  have hnone : ∀ i ∈ (none : Option InodePtr), (inodes i).type = .EMPTY := by
    intro i hi
    cases hi
  rcases findInode_spec inodes d (List.finRange MAX_INODES) none hnone with
    ⟨i, free, hrun, hused, hdnode⟩ | ⟨free, hrun, hfree, habsent, hfull, -⟩
  · rw [hrun]
    exact .found hused hdnode
  · rw [hrun]
    have habsent' := fun j => habsent j (List.mem_finRange j)
    cases free with
    | none => exact .full (fun j => hfull rfl j (List.mem_finRange j)) habsent'
    | some i => exact .free (hfree i rfl) habsent'

/-! ### Opening -/

/-- What `fs_open` does in the list for the entity `d`: it shares the entity's inode, or takes
an empty one, or finds that none is empty. -/
inductive OpenedInode (s : FsVars) (d parent : Nat) : Option InodePtr → FsVars → Prop
  | shared {i : InodePtr} (used : (s.inodes i).type ≠ .EMPTY) (dnode : (s.inodes i).dnode = d) :
      OpenedInode s d parent (some i)
        (s.setInode i
          { s.inodes i with referenceCount := (s.inodes i).referenceCount + 1 })
  | taken {i : InodePtr} {type : InodeType} (empty : (s.inodes i).type = .EMPTY)
      (absent : ∀ j, (s.inodes j).type ≠ .EMPTY → (s.inodes j).dnode ≠ d)
      (htype : inodeType (entityType (s.fs.disk d)) = some type) :
      OpenedInode s d parent (some i)
        (s.setInode i ⟨type, d, parent, (dzfsStat s.fs d).2.size, 1⟩)
  | full (used : ∀ j, (s.inodes j).type ≠ .EMPTY)
      (absent : ∀ j, (s.inodes j).type ≠ .EMPTY → (s.inodes j).dnode ≠ d) :
      OpenedInode s d parent none s

/-- The type that `dzfs_stat` reports is that of the block. -/
theorem dzfsStat_type (fs : Dzfs) (d : Nat) : (dzfsStat fs d).2.type = entityType (fs.disk d) := by
  unfold dzfsStat
  simp only [Dzfs.readBlock]
  split
  · rfl
  · split <;> rfl

/-- The search shares an inode, takes an empty one or finds none. -/
theorem openInode_cases (h : openInode s d parent = .ok (r, s')) : OpenedInode s d parent r s' := by
  have hfound := findInode_cases s.inodes d
  unfold openInode at h
  split at h
  · rename_i i free hrun
    rw [hrun] at hfound
    cases hfound with
    | found used dnode =>
      cases h
      exact .shared used dnode
  · rename_i hrun
    rw [hrun] at hfound
    cases hfound with
    | full used absent =>
      cases h
      exact .full used absent
  · rename_i i hrun
    rw [hrun] at hfound
    cases hfound with
    | free empty absent =>
      simp only at h
      split at h
      · cases h
      · split at h
        · cases h
        · rename_i type htype
          cases h
          rw [dzfsStat_type] at htype
          exact .taken empty absent htype

/-- The type of a new inode is not `INODE_EMPTY`. -/
theorem inodeType_ne_empty {type : UInt8} {t : InodeType} (h : inodeType type = some t) :
    t ≠ .EMPTY := by
  unfold inodeType at h
  split at h
  · cases h
    exact nofun
  · split at h
    · cases h
      exact nofun
    · cases h

/-- What `fs_open` does: the open on the disk fails, or it finds or creates the entity `d`, which
gets an inode. -/
theorem fsOpen_cases {out : OpenOut}
    (ho : dzfsOpenRelative s.fs flags date path (relativeDnode s relativeTo) = (out, fs'))
    (h : fsOpen s path relativeTo flags date = .ok (r, s')) :
    (r = none ∧ s' = { s with fs := fs' }) ∨
      ∃ d parent, out = ⟨.OK, some d, some parent⟩ ∧
        OpenedInode { s with fs := fs' } d parent r s' := by
  unfold fsOpen at h
  rw [ho] at h
  obtain ⟨result, dnode, parentDnode⟩ := out
  simp only at h
  split at h
  · rename_i d parent
    exact Or.inr ⟨d, parent, rfl, openInode_cases h⟩
  · cases h
    exact Or.inl ⟨rfl, rfl⟩

/-- `fs_open` of an entity that the open on the disk finds. -/
theorem fsOpen_found (ho : dzfsOpenRelative s.fs flags date path (relativeDnode s relativeTo)
      = (⟨.OK, some d, some parent⟩, fs')) :
    fsOpen s path relativeTo flags date = openInode { s with fs := fs' } d parent := by
  rw [fsOpen, ho]

/-- `fs_open` without an inode changes the disk only. -/
theorem fsOpen_none (h : fsOpen s path relativeTo flags date = .ok (none, s')) :
    s' = { s with
      fs := (dzfsOpenRelative s.fs flags date path (relativeDnode s relativeTo)).2 } := by
  rcases fsOpen_cases rfl h with ⟨-, heq⟩ | ⟨d, parent, -, hopened⟩
  · exact heq
  · cases hopened with
    | full => rfl

/-- The disk after `fs_open`. -/
theorem fsOpen_fs (h : fsOpen s path relativeTo flags date = .ok (r, s')) :
    s'.fs = (dzfsOpenRelative s.fs flags date path (relativeDnode s relativeTo)).2 := by
  rcases fsOpen_cases rfl h with ⟨-, heq⟩ | ⟨d, parent, -, hopened⟩
  · rw [heq]
  · cases hopened <;> rfl

/-- `fs_close` does not touch the disk. -/
@[simp] theorem fsClose_fs (s : FsVars) (i : InodePtr) : (fsClose s i).fs = s.fs := by
  unfold fsClose
  simp only
  split <;> rfl

/-- `fs_dup` does not touch the disk. -/
@[simp] theorem fsDup_fs (s : FsVars) (i : InodePtr) : (fsDup s i).fs = s.fs := rfl

end DzOS.Proofs.Fs
