import DzOS.Lib.RefCount
import DzOS.Lib.Run
import DzOS.Proofs.Fs.FileCalls
import DzOS.Proofs.Fs.Runs

/-!
# `DzOS.Proofs.Fs.References`: when the reference counts of the inodes are exact

A reference to an inode is in a descriptor or is the working directory of a live process. These
are the slots of `Lib/RefCount.lean`, and a call holds an inode on its own between `fs_open` and
the write to a slot. `Counts` is the invariant, with the inodes that are pending.

Each call keeps it without a pending inode (`FileStep.exact`), except `proc_exit`: it closes the
files of the process and not its working directory, which stays pending for ever
(`Counts.exit`). So the counts are exact in every state of a run exactly if no process exits in
the run (`refs_exact_iff`). This holds for any disk. `Leaky` is the invariant of the runs with
exits.
-/

set_option autoImplicit false

namespace DzOS.Proofs.Fs

open DzOS.Lib DzOS.Fs DzOS.Sched

variable {c : FileCall} {file : ProcessFile} {live : Finset ProcPtr} {vars : FsVars}

/-! ### The inode table -/

/-- The reference counts. -/
def refCounts (s : FsVars) (i : InodePtr) : Nat := (s.inodes i).referenceCount.toNat

theorem refCounts_setInode (s : FsVars) (i : InodePtr) (inode : FsInode) :
    refCounts (s.setInode i inode) =
      Function.update (refCounts s) i inode.referenceCount.toNat := by
  funext j
  by_cases hj : j = i
  · rw [hj, refCounts, setInode_self, Function.update_self]
  · rw [refCounts, setInode_of_ne s hj, Function.update_of_ne hj]
    rfl

/-- The counts are those of the references in the slots and of the pending ones, and an inode is
empty when it has none. -/
structure Counts {S : Type} (s : FsVars) (slots : Finset S) (ref : S → Option InodePtr)
    (pending : List InodePtr) : Prop where
  counted : Counted (refCounts s) slots ref pending
  empty : ∀ i, (s.inodes i).type = .EMPTY ↔ (s.inodes i).referenceCount = 0

section
variable {S : Type} {s s' : FsVars} {slots : Finset S} {ref : S → Option InodePtr}
  {pending : List InodePtr} {i : InodePtr}

section

variable (h : Counts s slots ref pending)

include h

/-- The disk and the sizes do not matter. -/
theorem Counts.congr
    (hsame : ∀ i, (s'.inodes i).type = (s.inodes i).type ∧
      (s'.inodes i).referenceCount = (s.inodes i).referenceCount) :
    Counts s' slots ref pending := by
  have hcounts : refCounts s' = refCounts s := by
    funext i
    rw [refCounts, refCounts, (hsame i).2]
  refine ⟨?_, fun i => ?_⟩
  · rw [hcounts]
    exact h.counted
  · rw [(hsame i).1, (hsame i).2]
    exact h.empty i

/-- An inode with one more user, whose count fits the field. -/
theorem Counts.share_of_lt (hfits : refCounts s i + 1 < 2 ^ 32)
    (hused : (s.inodes i).type ≠ .EMPTY) :
    Counts (s.setInode i
        { s.inodes i with referenceCount := (s.inodes i).referenceCount + 1 })
      slots ref (i :: pending) := by
  have hadd : ((s.inodes i).referenceCount + 1).toNat = refCounts s i + 1 := by
    rw [UInt32.toNat_add]
    exact Nat.mod_eq_of_lt hfits
  constructor
  · rw [refCounts_setInode, hadd]
    exact h.counted.acquire i
  · intro j
    by_cases hj : j = i
    · rw [hj, setInode_self]
      refine iff_of_false hused fun hzero => ?_
      have hnat := congrArg UInt32.toNat hzero
      rw [hadd] at hnat
      exact absurd hnat (Nat.succ_ne_zero _)
    · rw [setInode_of_ne s hj]
      exact h.empty j

/-- An inode with one more user, when there are not too many references in all. -/
theorem Counts.share (hbound : slots.card + pending.length < 2 ^ 32 - 1)
    (hused : (s.inodes i).type ≠ .EMPTY) :
    Counts (s.setInode i
        { s.inodes i with referenceCount := (s.inodes i).referenceCount + 1 })
      slots ref (i :: pending) := by
  have hle : refCounts s i ≤ slots.card + pending.length := h.counted.le i
  exact h.share_of_lt (by omega) hused

/-- The order of the pending references does not matter. -/
theorem Counts.perm {pending' : List InodePtr} (hperm : pending.Perm pending') :
    Counts s slots ref pending' := by
  refine ⟨fun i => ?_, h.empty⟩
  rw [← hperm.count_eq i]
  exact h.counted i

/-- An empty inode that gets its first user. -/
theorem Counts.take {inode : FsInode} (hempty : (s.inodes i).type = .EMPTY)
    (htype : inode.type ≠ .EMPTY) (hcount : inode.referenceCount = 1) :
    Counts (s.setInode i inode) slots ref (i :: pending) := by
  have hzero : refCounts s i = 0 := by
    rw [refCounts, (h.empty i).mp hempty]
    rfl
  have hone : inode.referenceCount.toNat = refCounts s i + 1 := by
    rw [hcount, hzero]
    rfl
  constructor
  · rw [refCounts_setInode, hone]
    exact h.counted.acquire i
  · intro j
    by_cases hj : j = i
    · rw [hj, setInode_self, hcount]
      exact iff_of_false htype (by decide)
    · rw [setInode_of_ne s hj]
      exact h.empty j

/-- `fs_open` returns a pending inode. -/
theorem Counts.fsOpen (hbound : slots.card + pending.length < 2 ^ 32 - 1) {path : List UInt8}
    {relativeTo : Option InodePtr} {flags : UInt32} {date : UInt64} {r : Option InodePtr}
    (hopen : fsOpen s path relativeTo flags date = .ok (r, s')) :
    Counts s' slots ref (r.toList ++ pending) := by
  rcases ho : dzfsOpenRelative s.fs flags date path (relativeDnode s relativeTo) with ⟨out, fs'⟩
  have hfs : Counts { s with fs := fs' } slots ref pending := h.congr fun i => ⟨rfl, rfl⟩
  rcases fsOpen_cases ho hopen with ⟨rfl, rfl⟩ | ⟨d, parent, -, hopened⟩
  · exact hfs
  · cases hopened with
    | shared used => exact hfs.share hbound used
    | taken empty _ htype => exact hfs.take empty (inodeType_ne_empty htype) rfl
    | full => exact hfs

/-- `fs_dup`. -/
theorem Counts.fsDup (hbound : slots.card + pending.length < 2 ^ 32 - 1)
    (hused : 0 < refCounts s i) :
    Counts (fsDup s i) slots ref (i :: pending) := by
  refine h.share hbound fun hempty => ?_
  rw [refCounts, (h.empty i).mp hempty] at hused
  exact absurd hused (lt_irrefl 0)

end

/-- `fs_close` gives a pending inode up. -/
theorem Counts.fsClose (h : Counts s slots ref (i :: pending)) :
    Counts (fsClose s i) slots ref pending := by
  have hpos : 0 < refCounts s i := h.counted.pos
  have hsub : ((s.inodes i).referenceCount - 1).toNat = refCounts s i - 1 := by
    rw [UInt32.toNat_sub_of_le]
    · rfl
    · rw [UInt32.le_iff_toNat_le]
      exact hpos
  have hrelease := h.counted.release
  rw [← hsub] at hrelease
  unfold Fs.fsClose
  simp only
  split
  · rename_i hzero
    rw [hzero] at hrelease
    constructor
    · rw [refCounts_setInode]
      exact hrelease
    · intro j
      by_cases hj : j = i
      · rw [hj, setInode_self]
        exact iff_of_true rfl rfl
      · rw [setInode_of_ne s hj]
        exact h.empty j
  · rename_i hne
    constructor
    · rw [refCounts_setInode]
      exact hrelease
    · intro j
      by_cases hj : j = i
      · rw [hj, setInode_self]
        refine iff_of_false (fun hempty => ?_) hne
        rw [refCounts, (h.empty i).mp hempty] at hpos
        exact absurd hpos (lt_irrefl 0)
      · rw [setInode_of_ne s hj]
        exact h.empty j

end

/-! ### The slots of the processes -/

/-- A descriptor of a process, or its working directory. -/
abbrev Slot := ProcPtr × Option (Fin MAX_OPEN_FILES)

/-- The slots of the live processes. -/
def liveSlots (live : Finset ProcPtr) : Finset Slot := live ×ˢ Finset.univ

/-- The inode of a descriptor. -/
def fileInode (file : ProcessFile) : Option InodePtr :=
  match file.kind with
  | .FD_INODE i => some i
  | _ => none

/-- The inode that a slot refers to. -/
def slotInode (procs : ProcPtr → FileProc) : Slot → Option InodePtr
  | (p, some fd) => fileInode ((procs p).openFiles fd)
  | (p, none) => some (procs p).workingDirectory

theorem mem_liveSlots {p : ProcPtr} {o : Option (Fin MAX_OPEN_FILES)} :
    (p, o) ∈ liveSlots live ↔ p ∈ live := by
  simp [liveSlots]

theorem card_liveSlots (live : Finset ProcPtr) : (liveSlots live).card = live.card * 9 := by
  rw [liveSlots, Finset.card_product, Finset.card_univ, Fintype.card_option, Fintype.card_fin]
  rfl

theorem fileInode_of_kind {i : InodePtr} (h : file.kind = .FD_INODE i) :
    fileInode file = some i := by
  rw [fileInode, h]

theorem fileInode_congr {file' : ProcessFile} (h : file'.kind = file.kind) :
    fileInode file' = fileInode file := by
  rw [fileInode, fileInode, h]

variable {procs : ProcPtr → FileProc} {p : ProcPtr}

/-- A write to a descriptor. -/
theorem slotInode_setFile (fd : Fin MAX_OPEN_FILES) (file : ProcessFile) :
    slotInode (Function.update procs p ((procs p).setFile fd file))
      = Function.update (slotInode procs) (p, some fd) (fileInode file) := by
  funext ⟨q, o⟩
  by_cases hq : q = p
  · rw [hq]
    cases o with
    | none => simp [slotInode, FileProc.setFile]
    | some fd' =>
      by_cases hfd : fd' = fd
      · simp [slotInode, FileProc.setFile, hfd]
      · simp [slotInode, FileProc.setFile, hfd]
  · cases o with
    | none => simp [slotInode, hq]
    | some fd' => simp [slotInode, hq]

/-- A new working directory. -/
theorem slotInode_chdir (i : InodePtr) :
    slotInode (Function.update procs p { procs p with workingDirectory := i })
      = Function.update (slotInode procs) (p, none) (some i) := by
  funext ⟨q, o⟩
  by_cases hq : q = p
  · rw [hq]
    cases o with
    | none => simp [slotInode]
    | some fd => simp [slotInode]
  · cases o with
    | none => simp [slotInode, hq]
    | some fd => simp [slotInode, hq]

/-- The descriptors of a new process have no inode. -/
theorem fileInode_standard (serial : Nat) (fd : Fin MAX_OPEN_FILES) :
    fileInode (standardFiles serial fd) = none := by
  unfold standardFiles
  split
  · rfl
  · split
    · rfl
    · rfl

/-! ### The calls -/

/-- The counts are exact. -/
structure Exact (s : FileState) : Prop where
  counts : Counts s.vars (liveSlots s.live) (slotInode s.procs) []
  card : s.live.card ≤ MAX_PROCESSES

/-- The counts are exact up to the references in `lost`, which no slot has any more. -/
structure Leaky (s : FileState) (lost : List InodePtr) : Prop where
  counts : Counts s.vars (liveSlots s.live) (slotInode s.procs) lost
  card : s.live.card ≤ MAX_PROCESSES

variable {s s' : FileState} {pending lost : List InodePtr} {i : InodePtr}

theorem Exact.leaky (h : Exact s) : Leaky s [] := ⟨h.counts, h.card⟩

/-- So many references may be lost that a count still holds one more than all there are. -/
def FewLost (lost : List InodePtr) : Prop := lost.length + 1024 < 2 ^ 32

theorem fewLost_nil : FewLost [] := by
  unfold FewLost
  decide

/-- There are far fewer slots than a count can hold. -/
theorem Leaky.slots_lt (h : Leaky s lost) (hfew : FewLost lost) :
    (liveSlots s.live).card + lost.length < 2 ^ 32 - 1 := by
  have hcard : s.live.card ≤ 64 := h.card
  rw [card_liveSlots]
  unfold FewLost at hfew
  omega

/-- A new process in the folder of a pending inode. -/
theorem Counts.addProcess (h : Counts vars (liveSlots live) (slotInode procs) (i :: pending))
    (hfree : p ∉ live) (serial : Nat) :
    Counts vars (liveSlots (insert p live))
      (slotInode (Function.update procs p ⟨standardFiles serial, i⟩)) pending := by
  -- The slots of the process are empty at first.
  have hsub : liveSlots live ⊆ liveSlots (insert p live) := by
    rintro ⟨q, o⟩ hq
    rw [mem_liveSlots] at hq ⊢
    exact Finset.mem_insert_of_mem hq
  have hempty : Counted (refCounts vars) (liveSlots live)
      (Function.update (slotInode (Function.update procs p ⟨standardFiles serial, i⟩)) (p, none)
        none) (i :: pending) := by
    refine h.counted.congr ?_
    rintro ⟨q, o⟩ hq
    rw [mem_liveSlots] at hq
    have hqp : q ≠ p := fun heq => hfree (heq ▸ hq)
    have hslot : (q, o) ≠ (p, none) := fun heq => hqp (Prod.mk.inj heq).1
    rw [Function.update_of_ne hslot]
    cases o with
    | none => simp [slotInode, hqp]
    | some fd => simp [slotInode, hqp]
  have hnew := (hempty.extend hsub ?_).store (s := (p, none))
    (mem_liveSlots.mpr (Finset.mem_insert_self p live)) (Function.update_self _ _ _)
  · refine ⟨?_, h.empty⟩
    rw [Function.update_idem] at hnew
    refine hnew.congr fun k _ => ?_
    by_cases hk : k = (p, none)
    · rw [hk, Function.update_self, slotInode, Function.update_self]
    · rw [Function.update_of_ne hk]
  · rintro ⟨q, o⟩ hq hnot
    rw [mem_liveSlots] at hq hnot
    obtain rfl := (Finset.mem_insert.mp hq).resolve_right hnot
    cases o with
    | none => exact Function.update_self _ _ _
    | some fd =>
      rw [Function.update_of_ne (by simp)]
      show fileInode ((Function.update procs q _ q).openFiles fd) = none
      rw [Function.update_self]
      exact fileInode_standard serial fd

/-- A call other than `proc_exit` loses no reference. -/
theorem FileStep.leaky (h : FileStep s c s') (hexit : ∀ p, c ≠ .exit p) (hs : Leaky s lost)
    (hfew : FewLost lost) : Leaky s' lost := by
  have hlt := hs.slots_lt hfew
  cases h with
  | idle => exact hs
  | execFailed _ hopen => exact ⟨hs.counts.fsOpen hlt hopen, hs.card⟩
  | execRejected _ hopen => exact ⟨(hs.counts.fsOpen hlt hopen).fsClose, hs.card⟩
  | @execChild p child _ _ _ vars i hlive hfree hcard hopen =>
    have hclosed := (hs.counts.fsOpen hlt hopen).fsClose
    have hused : 0 < refCounts (fsClose vars i) (s.wd p) := by
      rw [hclosed.counted (s.wd p)]
      have hpos : 0 < refs (liveSlots s.live) (slotInode s.procs) (s.wd p) :=
        refs_pos (s := (p, none)) (mem_liveSlots.mpr hlive) rfl
      omega
    refine ⟨(hclosed.fsDup hlt hused).addProcess hfree _, ?_⟩
    show (insert child s.live).card ≤ MAX_PROCESSES
    rw [Finset.card_insert_of_notMem hfree]
    exact hcard
  | @execFirst child _ _ _ _ _ _ _ hfree hcard hopen hroot =>
    have hclosed := (hs.counts.fsOpen hlt hopen).fsClose
    refine ⟨(hclosed.fsOpen hlt hroot).addProcess hfree _, ?_⟩
    show (insert child s.live).card ≤ MAX_PROCESSES
    rw [Finset.card_insert_of_notMem hfree]
    exact hcard
  | exit => exact absurd rfl (hexit _)
  | openFailed _ _ hopen => exact ⟨hs.counts.fsOpen hlt hopen, hs.card⟩
  | @opened p _ _ _ vars i fd file hlive _ hempty hkind hopen =>
    have hpending := hs.counts.fsOpen hlt hopen
    have hnone : slotInode s.procs (p, some fd) = none := by
      show fileInode (s.file p fd) = none
      rw [fileInode, hempty]
    refine ⟨⟨?_, hpending.empty⟩, hs.card⟩
    show Counted _ (liveSlots s.live) (slotInode (Function.update s.procs p _)) lost
    rw [slotInode_setFile, fileInode_of_kind hkind]
    exact hpending.counted.store (mem_liveSlots.mpr hlive) hnone
  | @openedDevice p _ _ _ device fd file hlive hempty hkind =>
    refine ⟨⟨?_, hs.counts.empty⟩, hs.card⟩
    show Counted _ (liveSlots s.live) (slotInode (Function.update s.procs p _)) lost
    have hsame : fileInode file = slotInode s.procs (p, some fd) := by
      show _ = fileInode (s.file p fd)
      rw [fileInode, fileInode, hkind, hempty]
    rw [slotInode_setFile, hsame, Function.update_eq_self]
    exact hs.counts.counted
  | @closed p _ fd i hlive hkind =>
    have hloaded := hs.counts.counted.load (s := (p, some fd)) (mem_liveSlots.mpr hlive)
      (fileInode_of_kind hkind)
    have hclosed := Counts.fsClose ⟨hloaded, hs.counts.empty⟩
    refine ⟨⟨?_, hclosed.empty⟩, hs.card⟩
    show Counted _ (liveSlots s.live) (slotInode (Function.update s.procs p _)) lost
    rw [slotInode_setFile]
    exact hclosed.counted
  | chdirFailed _ hopen => exact ⟨hs.counts.fsOpen hlt hopen, hs.card⟩
  | @chdir p _ _ vars i hlive hopen =>
    have hpending := hs.counts.fsOpen hlt hopen
    have hswapped := hpending.counted.swap (s := (p, none)) (mem_liveSlots.mpr hlive) rfl
    have hclosed := Counts.fsClose ⟨hswapped, hpending.empty⟩
    refine ⟨⟨?_, hclosed.empty⟩, hs.card⟩
    show Counted _ (liveSlots s.live) (slotInode (Function.update s.procs p _)) lost
    rw [slotInode_chdir]
    exact hclosed.counted
  | mkdir => exact ⟨hs.counts.congr fun i => ⟨rfl, rfl⟩, hs.card⟩
  | @unlink p path date hlive =>
    refine ⟨hs.counts.congr fun i => ?_, hs.card⟩
    rcases fsDelete_snd s.vars path (s.wd p) date with heq | ⟨d, parent, -, heq⟩
    · rw [heq]
      exact ⟨rfl, rfl⟩
    · rw [heq]
      exact ⟨rfl, rfl⟩
  | @written p _ buffer _ fd file i offset hlive hkind _ hsame =>
    obtain ⟨size, heq⟩ := fsWrite_snd s.vars i buffer offset
    have hwritten : Counts (fsWrite s.vars i buffer offset).2 (liveSlots s.live)
        (slotInode s.procs) lost := by
      refine hs.counts.congr fun j => ?_
      rw [heq]
      by_cases hj : j = i
      · simp [hj]
      · simp [hj]
    refine ⟨⟨?_, hwritten.empty⟩, hs.card⟩
    show Counted _ (liveSlots s.live) (slotInode (Function.update s.procs p _)) lost
    have hfile : fileInode file = slotInode s.procs (p, some fd) := fileInode_congr hsame
    rw [slotInode_setFile, hfile, Function.update_eq_self]
    exact hwritten.counted
  | @read p _ _ _ fd file hlive hsame =>
    refine ⟨⟨?_, hs.counts.empty⟩, hs.card⟩
    show Counted _ (liveSlots s.live) (slotInode (Function.update s.procs p _)) lost
    have hfile : fileInode file = slotInode s.procs (p, some fd) := fileInode_congr hsame
    rw [slotInode_setFile, hfile, Function.update_eq_self]
    exact hs.counts.counted

/-- A call other than `proc_exit` keeps the counts exact. -/
theorem FileStep.exact (h : FileStep s c s') (hexit : ∀ p, c ≠ .exit p) (hs : Exact s) :
    Exact s' := by
  have hleaky := h.leaky hexit hs.leaky fewLost_nil
  exact ⟨hleaky.counts, hleaky.card⟩

/-! ### The exit of a process -/

/-- The slots of the descriptors `fds` of `p` are closed. -/
def closeSlots (ref : Slot → Option InodePtr) (p : ProcPtr) (fds : List (Fin MAX_OPEN_FILES)) :
    Slot → Option InodePtr
  | (q, some fd) => if q = p ∧ fd ∈ fds then none else ref (q, some fd)
  | (q, none) => ref (q, none)

/-- The loop of `proc_exit` gives up the inodes of the descriptors. -/
theorem Counts.closeFiles {slots : Finset Slot} {ref : Slot → Option InodePtr} {proc : FileProc}
    {fds : List (Fin MAX_OPEN_FILES)} (hnodup : fds.Nodup) (h : Counts vars slots ref pending)
    (hslots : ∀ fd ∈ fds, (p, some fd) ∈ slots)
    (href : ∀ fd ∈ fds, ref (p, some fd) = fileInode (proc.openFiles fd)) :
    Counts (closeFiles proc fds vars) slots (closeSlots ref p fds) pending := by
  induction fds generalizing vars ref with
  | nil =>
    refine ⟨h.counted.congr ?_, h.empty⟩
    rintro ⟨q, _ | fd⟩ _
    · rfl
    · simp [closeSlots]
  | cons fd fds ih =>
    obtain ⟨hfd, hnodup⟩ := List.nodup_cons.mp hnodup
    have hslots' : ∀ g ∈ fds, (p, some g) ∈ slots := fun g hg =>
      hslots g (List.mem_cons_of_mem fd hg)
    have hself := href fd List.mem_cons_self
    rw [Fs.closeFiles]
    split
    · rename_i i hkind
      rw [fileInode_of_kind hkind] at hself
      have hclosed := Counts.fsClose
        ⟨h.counted.load (hslots fd List.mem_cons_self) hself, h.empty⟩
      have hrest := ih hnodup hclosed hslots' fun g hg => by
        have hgf : g ≠ fd := fun heq => hfd (heq ▸ hg)
        rw [Function.update_of_ne (by simpa using hgf), href g (List.mem_cons_of_mem fd hg)]
      refine ⟨hrest.counted.congr ?_, hrest.empty⟩
      rintro ⟨q, _ | g⟩ _
      · simp [closeSlots]
      · by_cases hg : q = p ∧ g = fd
        · simp [closeSlots, hg]
        · have hne : (q, some g) ≠ (p, some fd) := by simpa using hg
          simp only [closeSlots, Function.update_of_ne hne, List.mem_cons]
          congr 1
          simp only [eq_iff_iff]
          tauto
    · rename_i hkind
      have hnone : ref (p, some fd) = none := by
        rw [hself, fileInode]
        split
        · rename_i i heq
          exact absurd heq (hkind i)
        · rfl
      have hrest := ih hnodup h hslots' fun g hg => href g (List.mem_cons_of_mem fd hg)
      refine ⟨hrest.counted.congr ?_, hrest.empty⟩
      rintro ⟨q, _ | g⟩ _
      · rfl
      · by_cases hg : q = p ∧ g = fd
        · simp [closeSlots, hg, hnone]
        · simp only [closeSlots, List.mem_cons]
          congr 1
          simp only [eq_iff_iff]
          tauto

/-- `proc_exit` leaves the working directory of the process pending. -/
theorem Counts.exit {vars : FsVars} {live : Finset ProcPtr}
    (h : Counts vars (liveSlots live) (slotInode procs) pending) (hlive : p ∈ live) :
    Counts (procExit vars (procs p)) (liveSlots (live.erase p)) (slotInode procs)
      ((procs p).workingDirectory :: pending) := by
  have hclosed : Counts (procExit vars (procs p)) (liveSlots live)
      (closeSlots (slotInode procs) p (List.finRange MAX_OPEN_FILES)) pending :=
    h.closeFiles (List.nodup_finRange MAX_OPEN_FILES) (fun fd _ => mem_liveSlots.mpr hlive)
      fun fd _ => rfl
  have hloaded := hclosed.counted.load (s := (p, none)) (mem_liveSlots.mpr hlive) rfl
  have hsub : liveSlots (live.erase p) ⊆ liveSlots live := by
    rintro ⟨q, o⟩ hq
    rw [mem_liveSlots] at hq ⊢
    exact Finset.mem_of_mem_erase hq
  refine ⟨?_, hclosed.empty⟩
  refine (hloaded.shrink hsub ?_).congr ?_
  · rintro ⟨q, o⟩ hq hnot
    rw [mem_liveSlots] at hq hnot
    have hqp : q = p := by
      by_contra hne
      exact hnot (Finset.mem_erase.mpr ⟨hne, hq⟩)
    rw [hqp]
    cases o with
    | none => exact Function.update_self _ _ _
    | some fd =>
      rw [Function.update_of_ne (by simp)]
      simp [closeSlots, List.mem_finRange]
  · rintro ⟨q, o⟩ hq
    rw [mem_liveSlots] at hq
    have hqp := Finset.ne_of_mem_erase hq
    have hne : (q, o) ≠ (p, none) := fun heq => hqp (Prod.mk.inj heq).1
    rw [Function.update_of_ne hne]
    cases o with
    | none => rfl
    | some fd => simp [closeSlots, hqp]

/-- `proc_exit` loses the working directory of the process. -/
theorem Leaky.exit (h : Leaky s lost) (hlive : p ∈ s.live) :
    Leaky { s with vars := procExit s.vars (s.procs p), live := s.live.erase p }
      (s.wd p :: lost) :=
  ⟨h.counts.exit hlive, (Finset.card_le_card (Finset.erase_subset p s.live)).trans h.card⟩

/-! ### Runs -/

/-- The number of the descriptors of live processes that lead to an inode. -/
def fdRefs (s : FileState) (i : InodePtr) : Nat :=
  ∑ p ∈ s.live, Finset.card {fd | (s.file p fd).kind = .FD_INODE i}

/-- The number of the live processes that work in an inode. -/
def wdRefs (s : FileState) (i : InodePtr) : Nat := {p ∈ s.live | s.wd p = i}.card

/-- Each inode counts the descriptors and the working directories that it is used for, and it is
empty when there are none. -/
structure ExactRefs (s : FileState) : Prop where
  count : ∀ i, (s.vars.inodes i).referenceCount.toNat = fdRefs s i + wdRefs s i
  empty : ∀ i, (s.vars.inodes i).type = .EMPTY ↔ fdRefs s i + wdRefs s i = 0

/-- The references in the slots are those in the descriptors and the working directories. -/
theorem refs_liveSlots (s : FileState) (i : InodePtr) :
    refs (liveSlots s.live) (slotInode s.procs) i = fdRefs s i + wdRefs s i := by
  have hfile : ∀ p fd, fileInode ((s.procs p).openFiles fd) = some i ↔
      (s.file p fd).kind = .FD_INODE i := by
    intro p fd
    unfold fileInode FileState.file
    cases ((s.procs p).openFiles fd).kind with
    | FD_EMPTY => simp
    | FD_INODE j => simp
    | FD_DEVICE device => simp
  rw [refs, Finset.card_filter, liveSlots, Finset.sum_product, fdRefs, wdRefs,
    Finset.card_filter, ← Finset.sum_add_distrib]
  refine Finset.sum_congr rfl fun p _ => ?_
  rw [Fintype.sum_option, Finset.card_filter, add_comm]
  congr 1
  · refine Finset.sum_congr rfl fun fd _ => ?_
    simp only [slotInode, hfile]
  · by_cases hwd : s.wd p = i
    · have hsome : slotInode s.procs (p, none) = some i := congrArg some hwd
      rw [if_pos hsome, if_pos hwd]
    · have hsome : slotInode s.procs (p, none) ≠ some i := fun heq => hwd (Option.some.inj heq)
      rw [if_neg hsome, if_neg hwd]

/-- Counts without a pending inode are exact. -/
theorem Exact.exactRefs (h : Exact s) : ExactRefs s := by
  have hcount : ∀ i, refCounts s.vars i = fdRefs s i + wdRefs s i := by
    intro i
    rw [h.counts.counted i, refs_liveSlots]
    rfl
  refine ⟨hcount, fun i => ?_⟩
  rw [h.counts.empty i, ← hcount i, refCounts, ← UInt32.toNat_inj]
  rfl

/-- The counts are not exact after an exit. -/
theorem Exact.exit_not_exactRefs (h : Exact s) (hlive : p ∈ s.live) :
    ¬ ExactRefs { s with vars := procExit s.vars (s.procs p), live := s.live.erase p } := by
  intro hexact
  have hcount := (h.counts.exit hlive).counted (s.wd p)
  have hexact' := hexact.count (s.wd p)
  have hrefs := refs_liveSlots { s with
    vars := procExit s.vars (s.procs p), live := s.live.erase p } (s.wd p)
  rw [← hrefs] at hexact'
  have hone : [(s.procs p).workingDirectory].count (s.wd p) = 1 := List.count_singleton_self
  rw [hone] at hcount
  change refCounts (procExit s.vars (s.procs p)) (s.wd p) = _ at hexact'
  change _ = refs (liveSlots (s.live.erase p)) (slotInode s.procs) (s.wd p) at hexact'
  omega

/-- The state before the first process. -/
theorem exact_boot (fs : Dzfs) (procs : ProcPtr → FileProc) : Exact (FileState.boot fs procs) := by
  refine ⟨⟨fun i => ?_, fun i => iff_of_true rfl rfl⟩, Nat.zero_le _⟩
  show 0 = refs ∅ _ i + 0
  rfl

/-- The reference counts are exact throughout a run exactly if no process exits in the run. -/
theorem refs_exact_iff (fs : Dzfs) (procs : ProcPtr → FileProc) {calls : List FileCall}
    {s' : FileState} (hrun : runSteps fileStep (FileState.boot fs procs) calls = some s') :
    Throughout fileStep (FileState.boot fs procs) calls ExactRefs ↔
      ∀ c ∈ calls, ∀ p, c ≠ .exit p := by
  rw [← eachCall_const hrun]
  refine throughout_iff (I := Exact) (fun s => Exact.exactRefs) ?_ ?_ (exact_boot fs procs)
    (fun _ _ _ _ _ => trivial) hrun
  · intro s c s' hs _ hcall hno
    exact (fileStep_cases hcall).exact hno hs
  · intro s c s' hs _ hcall hexit
    obtain ⟨p, hp⟩ := not_forall.mp hexit
    obtain rfl := not_not.mp hp
    obtain ⟨hlive, rfl⟩ := fileStep_exit hcall
    exact hs.exit_not_exactRefs hlive

/-- The calls of a first process that opens its executable. -/
def openCalls : List FileCall := [.exec none 0 [47, 102] true 0 0, .open 0 [102] 0 0]

theorem refs_exact_iff_open :
    Throughout fileStep (FileState.boot oneFileState.fs noProcs) openCalls ExactRefs ↔
      ∀ c ∈ openCalls, ∀ p, c ≠ .exit p :=
  refs_exact_iff oneFileState.fs noProcs (runSteps_getD (by decide +kernel))

/-- The calls of a first process that exits. -/
def exitCalls : List FileCall := [.exec none 0 [47, 102] true 0 0, .exit 0]

/-- The first process exits, and the root folder has an inode for ever. -/
theorem exit_leaks_reference :
    ∃ s i, runSteps fileStep (FileState.boot oneFileState.fs noProcs) exitCalls = some s ∧
      s.live = ∅ ∧
      (s.vars.inodes i).type = .DIRECTORY ∧ (s.vars.inodes i).referenceCount = 1 ∧
      ¬ ExactRefs s := by
  refine ⟨_, ⟨63, by decide⟩, runSteps_getD (by decide +kernel), by decide +kernel,
    by decide +kernel, by decide +kernel, fun hexact => ?_⟩
  have hempty := hexact.empty ⟨63, by decide⟩
  revert hempty
  decide +kernel

end DzOS.Proofs.Fs
