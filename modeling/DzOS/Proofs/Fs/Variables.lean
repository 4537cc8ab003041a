import DzOS.Proofs.Fs.Runs

/-!
# `DzOS.Proofs.Fs.Variables`: the variables of the file system

After `dzfsNew`, no function changes `freeBitmapBlocks` or `rootDnode`. Every one of them only
writes blocks. So these variables keep their values in every run of any calls
(`Reachable.sameVars`), also in a run that the invariant says nothing about.
-/

set_option autoImplicit false

namespace DzOS.Proofs.Fs

open DzOS.Lib DzOS.Fs

/-- `fs'` has the variables of `fs`. -/
structure SameVars (fs fs' : Dzfs) : Prop where
  freeBitmapBlocks : fs'.freeBitmapBlocks = fs.freeBitmapBlocks
  rootDnode : fs'.rootDnode = fs.rootDnode

theorem SameVars.refl (fs : Dzfs) : SameVars fs fs := ⟨rfl, rfl⟩

theorem SameVars.trans {fs fs' fs'' : Dzfs} (h : SameVars fs fs') (h' : SameVars fs' fs'') :
    SameVars fs fs'' :=
  ⟨h'.freeBitmapBlocks.trans h.freeBitmapBlocks, h'.rootDnode.trans h.rootDnode⟩

theorem SameVars.writeBlock {fs fs' : Dzfs} (h : SameVars fs fs') (m : Nat) (b : Bytes) :
    SameVars fs (fs'.writeBlock m b) := ⟨h.freeBitmapBlocks, h.rootDnode⟩

section
variable (fs : Dzfs)

theorem blockAlloc_vars : SameVars fs (blockAlloc fs).2 := by
  unfold blockAlloc
  simp only
  split
  · exact SameVars.refl fs
  · exact (SameVars.refl fs).writeBlock _ _

theorem freeAll_vars (l : List Nat) : SameVars fs (l.foldl blockFree fs) := by
  induction l generalizing fs with
  | nil => exact SameVars.refl fs
  | cons n l ih => exact ((SameVars.refl fs).writeBlock _ _).trans (ih (blockFree fs n))

theorem getOrAllocateBlock_vars (b : Bytes) (off : Nat) :
    SameVars fs (getOrAllocateBlock fs b off).2.1 := by
  have halloc := blockAlloc_vars fs
  unfold getOrAllocateBlock
  split
  · split
    · rename_i heq
      rwa [heq] at halloc
    · rename_i heq
      rwa [heq] at halloc
  · exact SameVars.refl fs

/-! ### Opens -/

theorem createEntity_vars (cur : Nat) (b : Bytes) (name : List UInt8) (flags : UInt32)
    (date : UInt64) (parent : Nat) :
    SameVars fs (createEntity fs cur b name flags date parent).2 := by
  have halloc := blockAlloc_vars fs
  unfold createEntity
  simp only
  split
  · exact SameVars.refl fs
  · split
    · rename_i heq
      rwa [heq] at halloc
    · rename_i heq
      rw [heq] at halloc
      exact (halloc.writeBlock _ _).writeBlock _ _

theorem traverse_vars (flags : UInt32) (date : UInt64) (parent fuel cur : Nat)
    (path : List UInt8) : SameVars fs (Fs.traverse flags date fs parent fuel cur path).2 := by
  induction fuel generalizing cur path with
  | zero => exact SameVars.refl fs
  | succ fuel ih =>
    unfold Fs.traverse
    simp only
    split
    · split
      · exact createEntity_vars fs _ _ _ _ _ _
      · exact SameVars.refl fs
    · split
      · exact SameVars.refl fs
      · split
        · exact SameVars.refl fs
        · exact ih _ _

theorem openFrom_vars (path : List UInt8) (relativeTo : Nat) (flags : UInt32) (date : UInt64) :
    SameVars fs (openFrom fs path relativeTo flags date).2 := by
  unfold openFrom
  split
  · exact SameVars.refl fs
  · simp only
    split
    · exact SameVars.refl fs
    · exact traverse_vars fs _ _ _ _ _ _

theorem dzfsOpenRelative_vars (flags : UInt32) (date : UInt64) (path : List UInt8)
    (relativeTo : Nat) : SameVars fs (dzfsOpenRelative fs flags date path relativeTo).2 := by
  induction path generalizing relativeTo with
  | nil => exact openFrom_vars fs _ _ _ _
  | cons c path ih =>
    unfold dzfsOpenRelative
    split
    · split
      · exact SameVars.refl fs
      · exact ih _
    · exact openFrom_vars fs _ _ _ _

theorem dzfsOpenAbsolute_vars (flags : UInt32) (date : UInt64) (path : List UInt8) :
    SameVars fs (dzfsOpenAbsolute fs flags date path).2 := by
  unfold dzfsOpenAbsolute
  split
  · exact SameVars.refl fs
  · split
    · exact SameVars.refl fs
    · exact dzfsOpenRelative_vars fs _ _ _ _

/-! ### Writes -/

theorem contentBlock_vars (st : WriteState) : SameVars st.fs (contentBlock st).2.fs := by
  unfold contentBlock
  simp only
  split
  · have hind := getOrAllocateBlock_vars st.fs st.dnodeBlock INDIRECT_OFFSET
    split
    · exact hind
    · exact hind.trans (getOrAllocateBlock_vars _ _ _)
  · exact getOrAllocateBlock_vars _ _ _

theorem copyToBlock_vars (st : WriteState) (n : Nat) :
    SameVars st.fs (copyToBlock st n).fs := ⟨rfl, rfl⟩

theorem writeLoop_vars (fuel : Nat) (st : WriteState) :
    SameVars st.fs (writeLoop fuel st).2.fs := by
  induction fuel generalizing st with
  | zero => exact SameVars.refl st.fs
  | succ fuel ih =>
    have hblock := contentBlock_vars st
    unfold writeLoop
    simp only
    split
    · exact SameVars.refl st.fs
    · split
      · exact hblock
      · exact (hblock.trans (copyToBlock_vars _ _)).trans (ih _)

/-- A write leaves the numbers of the disk alone. -/
theorem dzfsWrite_vars (dnode : Nat) (data : List UInt8) (offset : Nat) :
    SameVars fs (dzfsWrite fs dnode data offset).2 := by
  unfold dzfsWrite
  simp only
  split
  · exact SameVars.refl fs
  · split
    · exact SameVars.refl fs
    · split
      · exact SameVars.refl fs
      · generalize hst : (WriteState.mk fs _ _ _ _ _) = st
        have hloop := writeLoop_vars data.length st
        rw [← hst] at hloop ⊢
        split
        · rename_i heq
          rw [heq] at hloop
          unfold finishWrite
          simp only
          split
          · exact (hloop.writeBlock _ _).writeBlock _ _
          · exact hloop.writeBlock _ _
        · rename_i heq
          rw [heq] at hloop
          exact hloop

/-! ### Deletions and moves -/

theorem unlinkDnode_vars (dnode parent : Nat) : SameVars fs (unlinkDnode fs dnode parent).2 := by
  unfold unlinkDnode
  simp only
  split
  · exact SameVars.refl fs
  · split
    · exact SameVars.refl fs
    · exact ((SameVars.refl fs).writeBlock _ _).writeBlock _ _

theorem dzfsDelete_vars (dnode parent : Nat) : SameVars fs (dzfsDelete fs dnode parent).2 := by
  unfold dzfsDelete
  simp only
  split
  · exact SameVars.refl fs
  · split
    · rw [freeFileBlocks_eq]
      exact (freeAll_vars fs _).trans (unlinkDnode_vars _ dnode parent)
    · split
      · split
        · exact SameVars.refl fs
        · exact unlinkDnode_vars fs dnode parent
      · exact SameVars.refl fs

theorem leaveOldParent_vars (dnode old : Nat) (newName : Option (List UInt8)) (b : Bytes) :
    SameVars fs (leaveOldParent fs dnode old newName b).2 := by
  unfold leaveOldParent
  simp only
  split
  · exact SameVars.refl fs
  · split
    · exact SameVars.refl fs
    · simp only
      split
      · exact ((SameVars.refl fs).writeBlock _ _).writeBlock _ _
      · exact (SameVars.refl fs).writeBlock _ _

theorem enterNewParent_vars (dnode old new : Nat) (newName : Option (List UInt8)) (b : Bytes) :
    SameVars fs (enterNewParent fs dnode old new newName b).2 := by
  unfold enterNewParent
  simp only
  split
  · exact SameVars.refl fs
  · exact ((SameVars.refl fs).writeBlock _ _).trans (leaveOldParent_vars _ _ _ _ _)

theorem dzfsMove_vars (dnode old new : Nat) (newName : Option (List UInt8)) :
    SameVars fs (dzfsMove fs dnode old new newName).2 := by
  unfold dzfsMove
  simp only
  split
  · exact SameVars.refl fs
  · split
    · exact SameVars.refl fs
    · split
      · exact SameVars.refl fs
      · split
        · have hvars := dzfsDelete_vars fs (folderLookupName fs (fs.readBlock new)
            (headerName (renamed (fs.readBlock dnode) newName))) new
          generalize hdel : dzfsDelete fs _ new = o at hvars ⊢
          split
          · exact hvars.trans (enterNewParent_vars _ _ _ _ _ _)
          · exact hvars
        · exact enterNewParent_vars fs _ _ _ _ _

end

/-! ### Runs -/

/-- No call changes the variables. -/
theorem exec_vars (s : FsState) (c : Call) : SameVars s.fs (exec s c).fs := by
  cases c with
  | openRelative path relativeTo flags date =>
    exact dzfsOpenRelative_vars s.fs flags date path relativeTo
  | openAbsolute path flags date => exact dzfsOpenAbsolute_vars s.fs flags date path
  | write dnode data offset => exact dzfsWrite_vars s.fs dnode data offset
  | delete dnode parent => exact dzfsDelete_vars s.fs dnode parent
  | move dnode old new newName => exact dzfsMove_vars s.fs dnode old new newName

/-- No run changes the variables. -/
theorem Reachable.sameVars {ok : FsState → Call → Prop} {s₀ s : FsState}
    (h : Reachable ok s₀ s) : SameVars s₀.fs s.fs := by
  induction h with
  | start => exact SameVars.refl s₀.fs
  | call c _ _ ih => exact ih.trans (exec_vars _ c)

end DzOS.Proofs.Fs
