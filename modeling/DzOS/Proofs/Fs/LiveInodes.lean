import DzOS.Proofs.Fs.FileTree

/-!
# `DzOS.Proofs.Fs.LiveInodes`: when an open inode denotes a live file

The number of a block that is freed is used again, so the dnode in an inode does not tell which
entity was opened. `Tracked` adds what does: how often each block has been allocated, and the
number of the allocation when an inode was opened. `LiveInodes` says that an inode in use is that
of an entity of the disk, which is still the one that was opened, and that no other entity has
one of its blocks.

`fs_delete` does not look whether the entity is open. So `LiveInodes` holds throughout a run
exactly if no call of the run deletes an entity that is open (`live_inodes_iff`).
-/

set_option autoImplicit false

namespace DzOS.Proofs.Fs

open DzOS.Lib DzOS.Fs DzOS.Sched

/-! ### The run -/

/-- A state of the files with the number of allocations of each block, and what this was for the
dnode of an inode when the inode was opened. -/
structure Tracked where
  files : FileState
  allocs : Nat → Nat
  openedAs : InodePtr → Nat

/-- The allocations after a change on the disk. -/
def countAllocs (fs fs' : Dzfs) (allocs : Nat → Nat) (n : Nat) : Nat :=
  if bit fs n ∧ ¬ bit fs' n then allocs n + 1 else allocs n

/-- One call. An inode that was empty before the call is opened by it. -/
def trackedStep (t : Tracked) (c : FileCall) : Option Tracked :=
  match fileStep t.files c with
  | none => none
  | some files =>
    let allocs := countAllocs t.files.vars.fs files.vars.fs t.allocs
    some {
      files := files
      allocs := allocs
      openedAs := fun i =>
        if (t.files.vars.inodes i).type = .EMPTY then allocs (files.vars.inodes i).dnode
        else t.openedAs i }

/-- The state before the first process. -/
def Tracked.boot (fs : Dzfs) (procs : ProcPtr → FileProc) : Tracked where
  files := FileState.boot fs procs
  allocs := fun _ => 0
  openedAs := fun _ => 0

/-- An inode in use denotes an entity of the disk, the one that was opened, and the blocks of the
entity are those of no other one. -/
structure LiveInodes (t : Tracked) : Prop where
  clear : ∀ i, (t.files.vars.inodes i).type ≠ .EMPTY →
    bit t.files.vars.fs (t.files.vars.inodes i).dnode = false
  live : ∀ i, (t.files.vars.inodes i).type ≠ .EMPTY →
    InTree t.files.vars.fs (t.files.vars.inodes i).dnode
  same : ∀ i, (t.files.vars.inodes i).type ≠ .EMPTY →
    t.openedAs i = t.allocs (t.files.vars.inodes i).dnode
  own : ∀ i, (t.files.vars.inodes i).type ≠ .EMPTY → ∀ e, InTree t.files.vars.fs e →
    ∀ p q n, Holds t.files.vars.fs.disk {(t.files.vars.inodes i).dnode, e} p n →
      Holds t.files.vars.fs.disk {(t.files.vars.inodes i).dnode, e} q n → p = q

variable {t t' : Tracked} {c : FileCall} {E : Finset Nat} {ls : Nat → List Nat}

/-- A call that does not panic. -/
theorem trackedStep_files (h : trackedStep t c = some t') :
    fileStep t.files c = some t'.files ∧
      t'.allocs = countAllocs t.files.vars.fs t'.files.vars.fs t.allocs ∧
      ∀ i, t'.openedAs i = if (t.files.vars.inodes i).type = .EMPTY then
        t'.allocs (t'.files.vars.inodes i).dnode else t.openedAs i := by
  rw [trackedStep] at h
  split at h
  · cases h
  · rename_i files hcall
    cases h
    exact ⟨hcall, rfl, fun i => rfl⟩

/-- The inodes when the tree, the inodes and the counts agree. -/
theorem FileTree.liveInodes (h : FileTree t.files E ls)
    (hsame : ∀ i, (t.files.vars.inodes i).type ≠ .EMPTY →
      t.openedAs i = t.allocs (t.files.vars.inodes i).dnode) : LiveInodes t where
  clear i hi := (h.mem_used (h.mem i hi)).2.2
  live i hi := h.inTree_iff.mpr (h.mem i hi)
  same := hsame
  own i hi e he p q n hp hq := by
    have hmem : ∀ {p : Place} {n : Nat},
        Holds t.files.vars.fs.disk {(t.files.vars.inodes i).dnode, e} p n →
        Holds t.files.vars.fs.disk E p n := by
      intro p n hp
      refine hp.of_mem ?_
      rcases Finset.mem_insert.mp hp.mem with heq | heq
      · rw [heq]
        exact h.mem i hi
      · rw [Finset.mem_singleton.mp heq]
        exact h.inTree_iff.mp he
    exact h.blocks.inj p q n (hmem hp) (hmem hq)

/-- A call keeps the inodes those of the entities that were opened. -/
theorem FileTree.same (h : FileTree t.files E ls) (hc : FileCallOk t.files c)
    (hcall : trackedStep t c = some t')
    (hsame : ∀ i, (t.files.vars.inodes i).type ≠ .EMPTY →
      t.openedAs i = t.allocs (t.files.vars.inodes i).dnode) (i : InodePtr)
    (hi : (t'.files.vars.inodes i).type ≠ .EMPTY) :
    t'.openedAs i = t'.allocs (t'.files.vars.inodes i).dnode := by
  obtain ⟨hstep, hallocs, hopened⟩ := trackedStep_files hcall
  have hexit : ∀ p, c ≠ .exit p := by
    rintro p rfl
    cases hc.2.1
  rw [hopened i]
  split
  · rfl
  · -- The block of an entity is in use, so the call does not allocate it.
    rename_i hused
    have hkeep := (fileStep_cases hstep).keeps hexit h.toExact i hused hi
    have hbit := (h.mem_used (h.mem i hused)).2.2
    rw [hkeep.2, hallocs, countAllocs, if_neg (by rw [hbit]; simp)]
    exact hsame i hused

/-- A call that deletes an entity that is open leaves an inode for a free block. -/
theorem FileTree.unlink_not_live (h : FileTree t.files E ls) (hcall : trackedStep t c = some t')
    (hunlink : ¬ UnlinkOk t.files c) : ¬ LiveInodes t' := by
  obtain ⟨hstep, -⟩ := trackedStep_files hcall
  have hex : ∃ d, d ∈ unlinkEntity t.files c ∧ Deletable t.files.vars.fs d ∧
      ∃ i, (t.files.vars.inodes i).type ≠ .EMPTY ∧ (t.files.vars.inodes i).dnode = d := by
    by_contra hno
    refine hunlink fun d hd hdel i hi hdnode => hno ⟨d, hd, hdel, i, hi, hdnode⟩
  obtain ⟨d, hd, hdel, i, hi, hdnode⟩ := hex
  cases c with
  | unlink p path date =>
    intro hlive'
    have hclear := hlive'.clear i
    generalize t'.files = s' at hstep hclear
    cases fileStep_cases hstep with
    | idle hno => cases hno
    | unlink hlive =>
      obtain ⟨hbit, hinodes⟩ := h.fsDelete_frees (h.wd p hlive) date hd hdel
      change ((fsDelete t.files.vars path (t.files.wd p) date).2.inodes i).type ≠ _ →
        bit (fsDelete t.files.vars path (t.files.wd p) date).2.fs
          ((fsDelete t.files.vars path (t.files.wd p) date).2.inodes i).dnode = false at hclear
      rw [hinodes, hdnode, hbit] at hclear
      exact absurd (hclear hi) (by decide)
  | _ => cases hd

/-! ### Runs -/

/-- The inodes in use denote the entities that were opened throughout a run exactly if no call
deletes an entity that is open. -/
theorem live_inodes_iff {disk : Nat → Bytes} {blocks : Nat} {date : UInt64} {fs : Dzfs}
    (hle : blocks ≤ formatLimit) (hnew : dzfsNew disk blocks date = (.OK, fs)) {d : FsState}
    (hd : Reachable TreeOk (newState fs) d) (procs : ProcPtr → FileProc) {calls : List FileCall}
    {t' : Tracked} (hrun : runSteps trackedStep (Tracked.boot d.fs procs) calls = some t')
    (hcalls : EachCall trackedStep (Tracked.boot d.fs procs) calls fun t c =>
      FileCallOk t.files c ∧ ChdirOk t.files c) :
    Throughout trackedStep (Tracked.boot d.fs procs) calls LiveInodes ↔
      EachCall trackedStep (Tracked.boot d.fs procs) calls fun t c => UnlinkOk t.files c := by
  obtain ⟨ls, htree⟩ := hd.tree hle hnew
  refine throughout_iff (I := fun t => (∃ E ls, FileTree t.files E ls) ∧
      ∀ i, (t.files.vars.inodes i).type ≠ .EMPTY →
        t.openedAs i = t.allocs (t.files.vars.inodes i).dnode) ?_ ?_ ?_ ?_ hcalls hrun
  · rintro t ⟨⟨E, ls, ht⟩, hsame⟩
    exact ht.liveInodes hsame
  · rintro t c t' ⟨⟨E, ls, ht⟩, hsame⟩ ⟨hc, hchdir⟩ hcall hunlink
    have hstep := fileStep_cases (trackedStep_files hcall).1
    exact ⟨hstep.fileTree ht hc hchdir hunlink, ht.same hc hcall hsame⟩
  · rintro t c t' ⟨⟨E, ls, ht⟩, -⟩ - hcall hunlink
    exact ht.unlink_not_live hcall hunlink
  · exact ⟨⟨_, ls, fileTree_boot htree procs⟩, fun i hi => absurd rfl hi⟩

/-- The first process creates a file and deletes its executable. -/
def unlinkClosedCalls : List FileCall :=
  [.exec none 0 [47, 102] true 0 0, .open 0 [103] 0o100 0, .unlink 0 [102] 0]

theorem live_inodes_iff_closed :
    Throughout trackedStep (Tracked.boot oneFileState.fs noProcs) unlinkClosedCalls LiveInodes ↔
      EachCall trackedStep (Tracked.boot oneFileState.fs noProcs) unlinkClosedCalls
        fun t c => UnlinkOk t.files c :=
  live_inodes_iff (show 32768 ≤ formatLimit by decide) formattedDisk_new
    (OkRun.reachable .start (show OkRun TreeOk (newState formattedDisk)
      [.openRelative [102] 3 1 0] by decide +kernel))
    noProcs (runSteps_getD (by decide +kernel)) (by decide +kernel)

/-- The first process opens a file, deletes it and creates another one. -/
def unlinkOpenCalls : List FileCall :=
  [.exec none 0 [47, 102] true 0 0, .open 0 [102] 0 0, .unlink 0 [102] 0,
    .open 0 [103] 0o100 0]

/-- The new file gets the block of the deleted one, and the first descriptor is of the new file
now. -/
theorem unlink_open_not_live :
    EachCall trackedStep (Tracked.boot oneFileState.fs noProcs) unlinkOpenCalls
        (fun t c => FileCallOk t.files c ∧ ChdirOk t.files c) ∧
      ∃ t i, runSteps trackedStep (Tracked.boot oneFileState.fs noProcs) unlinkOpenCalls = some t ∧
        (t.files.file 0 ⟨3, by decide⟩).kind = .FD_INODE i ∧
        t.openedAs i = 0 ∧ t.allocs (t.files.vars.inodes i).dnode = 1 ∧ ¬ LiveInodes t := by
  refine ⟨by decide +kernel, _, ⟨62, by decide⟩, runSteps_getD (by decide +kernel),
    by decide +kernel, by decide +kernel, by decide +kernel, fun hlive => ?_⟩
  have hsame := hlive.same ⟨62, by decide⟩
  revert hsame
  decide +kernel

end DzOS.Proofs.Fs
