import DzOS.Proofs.Fs.OpenFiles

/-!
# `DzOS.Proofs.Fs.Desks`: the processes are the desks

`Implements` relates the processes to the desks of `OpenFiles.lean`. A call keeps it
(`FileWorld.implements_step`): the desk of a process changes as `deskStep` says. All the other
descriptors and folders stay, since an inode that is in use before and after the call is that of the
same entity (`SlotsKept`).

`Answers` says what a call returns to its process, from nothing but the desks and the store.
`processes_refine_desks` is the result for the runs: the desks and the store show what the processes
have open and what the disk holds, and they say what the next call returns. Exits are part of these
runs, although each of them leaves a reference behind.
-/

set_option autoImplicit false

namespace DzOS.Proofs.Fs

open DzOS.Lib DzOS.Fs DzOS.Sched

variable {date : UInt64} {len serial : Nat} {accepted : Bool} {path buffer : List UInt8}
  {vars' vars : FsVars} {number deviceResult : Int} {proc : FileProc} {ls' : Nat → List Nat}

/-! ### The slots -/

/-- A slot of a process that is live before and after refers to the same entity, unless it refers
to another inode. -/
def SlotsKept (s s' : FileState) : Prop :=
  ∀ p ∈ s.live, p ∈ s'.live → ∀ o i, slotInode s.procs (p, o) = some i →
    slotInode s'.procs (p, o) = some i → dnodeAt s' i = dnodeAt s i

section
variable {s s' : FileState} {c : FileCall} {E : Finset Nat} {ls : Nat → List Nat} {p q : ProcPtr}
  {lost lost' : List InodePtr} {a : Desks} {fd : Fin MAX_OPEN_FILES} {i : InodePtr}

theorem FileStep.slotsKept (h : FileStep s c s') (hs : Leaky s lost) (hs' : Leaky s' lost') :
    SlotsKept s s' := by
  intro p hp hp' o i hi hi'
  exact (h.keeps_inodes hs i (hs.used hp hi) (hs'.used hp' hi')).2

section

variable (h : SlotsKept s s') (hp : p ∈ s.live) (hp' : p ∈ s'.live)

include h hp hp'

theorem SlotsKept.file (hfile : s'.file p fd = s.file p fd) :
    fileOf s'.vars (s'.file p fd) = fileOf s.vars (s.file p fd) := by
  rw [hfile]
  unfold fileOf
  cases hkind : (s.file p fd).kind with
  | FD_EMPTY => rfl
  | FD_DEVICE device => rfl
  | FD_INODE i =>
    have hkind' : (s'.file p fd).kind = .FD_INODE i := by rw [hfile, hkind]
    have hsame := h p hp hp' (some fd) i (fileInode_of_kind hkind) (fileInode_of_kind hkind')
    simp only [dnodeAt] at hsame
    simp only [hsame]

theorem SlotsKept.folder (hwd : s'.wd p = s.wd p) : dnodeAt s' (s'.wd p) = dnodeAt s (s.wd p) := by
  rw [hwd]
  exact h p hp hp' none (s.wd p) rfl (congrArg some hwd)

/-- A process that a call leaves alone. -/
theorem SlotsKept.desk (hproc : s'.procs p = s.procs p) :
    deskOf s'.vars (s'.procs p) = deskOf s.vars (s.procs p) := by
  unfold deskOf
  rw [Desk.mk.injEq]
  constructor
  · funext fd
    exact h.file hp hp' (congrArg (fun proc => proc.openFiles fd) hproc)
  · exact h.folder hp hp' (congrArg FileProc.workingDirectory hproc)

/-- A process with another file at one descriptor. -/
theorem SlotsKept.setFile {file : ProcessFile} (hproc : s'.procs p = (s.procs p).setFile fd file) :
    deskOf s'.vars (s'.procs p) =
      (deskOf s.vars (s.procs p)).setFile fd (fileOf s'.vars file) := by
  unfold deskOf Desk.setFile
  rw [Desk.mk.injEq]
  constructor
  · funext g
    by_cases hg : g = fd
    · rw [hg, Function.update_self, hproc]
      simp only [FileProc.setFile, Function.update_self]
    · rw [Function.update_of_ne hg]
      refine h.file hp hp' ?_
      show (s'.procs p).openFiles g = _
      rw [hproc]
      exact Function.update_of_ne hg _ _
  · refine h.folder hp hp' ?_
    show (s'.procs p).workingDirectory = _
    rw [hproc]
    rfl

end

/-- A process that works in another folder. -/
theorem SlotsKept.chdir (h : SlotsKept s s') (hp : p ∈ s.live) (hp' : p ∈ s'.live)
    (hproc : s'.procs p = { s.procs p with workingDirectory := i }) :
    deskOf s'.vars (s'.procs p) =
      { deskOf s.vars (s.procs p) with folder := dnodeAt s' i } := by
  unfold deskOf
  rw [Desk.mk.injEq]
  constructor
  · funext g
    exact h.file hp hp' (congrArg (fun proc => proc.openFiles g) hproc)
  · rw [hproc]
    rfl

/-! ### The desks -/

/-- A call that changes no process. -/
theorem Implements.same (ha : Implements a s) (hk : SlotsKept s s') (hlive : s'.live = s.live)
    (hprocs : s'.procs = s.procs) : Implements a s' := by
  refine ⟨ha.live.trans hlive.symm, fun p hp => ?_⟩
  have hp' : p ∈ s.live := hlive ▸ hp
  rw [hk.desk hp' hp (congrFun hprocs p)]
  exact ha.desk p hp'

/-- A call that changes the process `p`. -/
theorem Implements.setDesk (ha : Implements a s) (hk : SlotsKept s s') (hlive : s'.live = s.live)
    (hother : ∀ q, q ≠ p → s'.procs q = s.procs q) {k : Desk}
    (hdesk : p ∈ s.live → deskOf s'.vars (s'.procs p) = k) : Implements (a.setDesk p k) s' := by
  refine ⟨ha.live.trans hlive.symm, fun q hq => ?_⟩
  have hq' : q ∈ s.live := hlive ▸ hq
  show Function.update a.desk p k q = _
  by_cases hqp : q = p
  · rw [hqp] at hq' ⊢
    rw [Function.update_self]
    exact (hdesk hq').symm
  · rw [Function.update_of_ne hqp, hk.desk hq' hq (hother q hqp)]
    exact ha.desk q hq'

/-- The store is no part of the relation. -/
theorem Implements.setStore (ha : Implements a s) (t : FsStore) :
    Implements { a with store := t } s := ⟨ha.live, ha.desk⟩

/-- A call that opens, closes or advances one descriptor. -/
theorem Implements.setFile (ha : Implements a s) (hp : p ∈ s.live) {file : ProcessFile}
    (hproc : proc = (s.procs p).setFile fd file) (hk : SlotsKept s (s.afterCall p vars proc))
    {g : OpenFile} (hfile : fileOf vars file = g) :
    Implements (a.setDesk p ((a.desk p).setFile fd g)) (s.afterCall p vars proc) := by
  subst hproc hfile
  have hself : (s.afterCall p vars ((s.procs p).setFile fd file)).procs p =
      (s.procs p).setFile fd file := Function.update_self _ _ _
  refine ha.setDesk hk rfl (fun q hq => Function.update_of_ne hq _ _) fun _ => ?_
  rw [hk.setFile hp hp hself, ha.desk p hp]
  rfl

/-- A call that changes no process, although it writes to the process again. -/
theorem Implements.idle (ha : Implements a s) (hproc : proc = s.procs p)
    (hk : SlotsKept s (s.afterCall p vars proc)) : Implements a (s.afterCall p vars proc) := by
  refine ha.same hk rfl ?_
  subst hproc
  exact Function.update_eq_self _ _

/-- The number of a descriptor. -/
@[simp] theorem openFd_val (fd : Fin MAX_OPEN_FILES) : openFd (fd.val : Int) = some fd := by
  have hfd := fd.isLt
  have hin : 0 ≤ (fd.val : Int) ∧ (fd.val : Int) < MAX_OPEN_FILES := by omega
  simp [openFd, hin]

@[simp] theorem openFd_failed : openFd (-1) = none := by decide

/-! ### The calls -/

/-- A process that `proc_exec` starts. -/
theorem procExecFiles_some {wd : Option InodePtr}
    (h : procExecFiles vars path wd accepted serial date = .ok (some proc, vars')) :
    accepted = true ∧ ∃ i, proc = ⟨standardFiles serial, i⟩ ∧ (wd = some i ∨ wd = none ∧
      ∃ vars₀, fsOpen vars₀ [SLASH] none DZFS_O_DIR date = .ok (some i, vars')) := by
  unfold procExecFiles at h
  split at h
  · cases h
  · cases h
  · simp only at h
    split at h
    · cases h
    · rename_i haccepted
      refine ⟨by simpa using haccepted, ?_⟩
      split at h
      · rename_i i hopen
        cases h
        exact ⟨i, rfl, Or.inl rfl⟩
      · split at h
        · cases h
        · cases h
        · rename_i i vars'' hopen
          cases h
          exact ⟨i, rfl, Or.inr ⟨rfl, _, hopen⟩⟩

/-- The inode of the root folder. -/
theorem fsOpen_root_dnode (h : fsOpen vars [SLASH] none DZFS_O_DIR date = .ok (some i, vars')) :
    (vars'.inodes i).dnode = vars'.fs.rootDnode := by
  obtain ⟨d, parent, hout, -, hdnode, -⟩ := fsOpen_inode h
  have hroot : (dzfsOpenRelative vars.fs DZFS_O_DIR date [SLASH] (relativeDnode vars none)).1
      = ⟨.OK, some vars.fs.rootDnode, some vars.fs.rootDnode⟩ := rfl
  rw [hroot] at hout
  obtain ⟨-, hd, -⟩ := OpenOut.mk.inj hout
  rw [hdnode, ← Option.some.inj hd]
  exact (fsOpen_vars h).rootDnode.symm

/-- The descriptors of a new process. -/
theorem deskOf_new (vars : FsVars) (serial : Nat) (i : InodePtr) :
    deskOf vars ⟨standardFiles serial, i⟩ = newDesk serial (vars.inodes i).dnode := by
  unfold deskOf newDesk
  rw [Desk.mk.injEq]
  refine ⟨funext fun fd => ?_, rfl⟩
  show fileOf vars (standardFiles serial fd) = _
  unfold standardFiles
  split
  · rfl
  · split
    · rfl
    · rfl

/-- A new process has the working directory of its parent, or the root. -/
theorem implements_exec (ha : Implements a s) {parent : Option ProcPtr} {child : ProcPtr}
    (h : fileStep s (.exec parent child path accepted serial date) = some s')
    (hk : SlotsKept s s') :
    Implements (deskStep s'.vars.fs.rootDnode a
      (reply s (.exec parent child path accepted serial date))
      (.exec parent child path accepted serial date)) s' := by
  have hlive : ∀ p ∈ parent, p ∈ s.live := fileStep_caller h
  simp only [fileStep, if_neg (fileStep_called h)] at h
  split at h
  · cases h
  rename_i hfree
  show Implements (deskExec a (reply s _) _ parent child serial) s'
  cases hexec : procExecFiles s.vars path (parent.map s.wd) accepted serial date with
  | error e =>
    change procExecFiles s.vars path (parent.map fun p => (s.procs p).workingDirectory) accepted
      serial date = _ at hexec
    rw [hexec] at h
    cases h
  | ok out =>
    have hexec' := hexec
    change procExecFiles s.vars path (parent.map fun p => (s.procs p).workingDirectory) accepted
      serial date = _ at hexec'
    rw [hexec'] at h
    obtain ⟨_ | proc, vars⟩ := out
    · have hreply : (reply s (.exec parent child path accepted serial date)).result ≠ 0 := by
        simp [reply, hexec]
      cases h
      rw [deskExec, if_neg hreply]
      exact ha.same hk rfl rfl
    · have hreply : (reply s (.exec parent child path accepted serial date)).result = 0 := by
        simp [reply, hexec]
      cases h
      obtain ⟨haccepted, i, rfl, hwd⟩ := procExecFiles_some hexec
      have hchild : child ∉ s.live := fun hin => hfree ⟨haccepted, Or.inl hin⟩
      rw [deskExec, if_pos hreply]
      refine ⟨congrArg (insert child) ha.live, fun q hq => ?_⟩
      show Function.update a.desk child _ q =
        deskOf vars (Function.update s.procs child ⟨standardFiles serial, i⟩ q)
      by_cases hqc : q = child
      · rw [hqc, Function.update_self, Function.update_self, deskOf_new]
        congr 1
        -- The folder is that of the parent, or the root folder.
        rcases hwd with hwd | ⟨hwd, vars₀, hroot⟩
        · obtain ⟨p, rfl, rfl⟩ := Option.map_eq_some_iff.mp hwd
          have hp := hlive p rfl
          have hpc : p ≠ child := fun heq => hchild (heq ▸ hp)
          have hkept := hk p hp (Finset.mem_insert_of_mem hp) none (s.wd p) rfl (by
            show some (Function.update s.procs child _ p).workingDirectory = _
            rw [Function.update_of_ne hpc]
            rfl)
          show (a.desk p).folder = _
          rw [ha.desk p hp]
          exact hkept.symm
        · rw [Option.map_eq_none_iff.mp hwd]
          exact (fsOpen_root_dnode hroot).symm
      · have hq' : q ∈ s.live := (Finset.mem_insert.mp hq).resolve_left hqc
        have hdesk := hk.desk hq' hq (Function.update_of_ne hqc _ _)
        rw [Function.update_of_ne hqc]
        exact (ha.desk q hq').trans hdesk.symm

theorem implements_exit (ha : Implements a s) (h : fileStep s (.exit p) = some s')
    (hk : SlotsKept s s') (root : Nat) :
    Implements (deskStep root a (reply s (.exit p)) (.exit p)) s' := by
  obtain ⟨hlive, rfl⟩ := fileStep_exit h
  refine ⟨congrArg (fun live => Finset.erase live p) ha.live, fun q hq => ?_⟩
  have hq' : q ∈ s.live := Finset.mem_of_mem_erase hq
  exact (ha.desk q hq').trans (hk.desk hq' hq rfl).symm

section
variable {path : List UInt8} {flags : UInt32} {date : UInt64} {vars : FsVars}

theorem sysOpen_refused (h : OpenRefused (s.procs p) flags) :
    sysOpen s.vars (s.procs p) path flags date = .ok (-1, s.vars, s.procs p) := by
  unfold sysOpen
  split
  · rfl
  · rename_i hflags
    have hnone := h.resolve_left hflags
    simp only [fileOpen, hnone]

/-- A tried open allocates the first unused descriptor. -/
theorem sysOpen_tried (path : List UInt8) (date : UInt64)
    (h : ¬ OpenRefused (s.procs p) flags) :
    ∃ fd, procAllocateFd (s.procs p) = some fd ∧
      sysOpen s.vars (s.procs p) path flags date =
        match fsOpen s.vars path (some (s.wd p)) (fsFlags flags) date with
        | .error e => .error e
        | .ok (none, vars) => .ok (-1, vars, s.procs p)
        | .ok (some inode, vars) =>
          .ok (fd, vars, (s.procs p).setFile fd {
            kind := .FD_INODE inode
            offset := 0
            readble := flags &&& O_WRONLY = 0
            writable := flags &&& O_WRONLY ≠ 0 ∨ flags &&& O_RDWR ≠ 0 }) := by
  obtain ⟨hflags, hfd⟩ := not_or.mp h
  obtain ⟨fd, hfd⟩ := Option.ne_none_iff_exists'.mp hfd
  refine ⟨fd, hfd, ?_⟩
  rw [sysOpen, if_neg hflags, fileOpen, hfd]
  rfl

section

variable (ha : Implements a s)

include ha

theorem implements_open (h : fileStep s (.open p path flags date) = some s') (hk : SlotsKept s s')
    (root : Nat) :
    Implements (deskStep root a (reply s (.open p path flags date)) (.open p path flags date))
      s' := by
  have hlive := fileStep_caller h p rfl
  simp only [fileStep, if_neg (fileStep_called h)] at h
  show Implements (deskOpen a p (reply s _) path flags) s'
  by_cases hrefused : OpenRefused (s.procs p) flags
  · rw [sysOpen_refused hrefused] at h
    cases h
    have hreply : (reply s (.open p path flags date)).result = -1 := by
      simp only [reply, sysOpen_refused hrefused, okResult]
    simp only [deskOpen, hreply, openFd_failed]
    exact (ha.setStore _).idle rfl hk
  · obtain ⟨fd, hfd, hsys⟩ := sysOpen_tried path date hrefused
    rcases hopen : fsOpen s.vars path (some (s.wd p)) (fsFlags flags) date with e | ⟨_ | i, vars⟩
    · rw [hsys, hopen] at h
      cases h
    · rw [hopen] at hsys
      rw [hsys] at h
      cases h
      have hreply : (reply s (.open p path flags date)).result = -1 := by
        simp only [reply, hsys, okResult]
      simp only [deskOpen, hreply, openFd_failed]
      exact (ha.setStore _).idle rfl hk
    · rw [hopen] at hsys
      rw [hsys] at h
      cases h
      obtain ⟨d, parent, hout, -, hdnode, -⟩ := fsOpen_inode hopen
      have hreply : (reply s (.open p path flags date)).result = fd := by
        simp only [reply, hsys, okResult]
      have hdnode' : (reply s (.open p path flags date)).out.dnode = some d := by
        simp only [reply, if_neg hrefused]
        exact congrArg OpenOut.dnode hout
      simp only [deskOpen, hreply, openFd_val, hdnode']
      refine (ha.setStore _).setFile hlive rfl hk ?_
      simp only [fileOf, hdnode]

theorem implements_openDevice {device : Option Nat} {readble writable : Bool}
    (h : fileStep s (.openDevice p device readble writable) = some s') (hk : SlotsKept s s')
    (root : Nat) :
    Implements (deskStep root a (reply s (.openDevice p device readble writable))
      (.openDevice p device readble writable)) s' := by
  have hlive := fileStep_caller h p rfl
  simp only [fileStep, if_neg (fileStep_called h), Option.some.injEq] at h
  subst h
  show Implements (deskOpenDevice a p (reply s _) device readble writable) _
  cases device with
  | none => exact ha.idle rfl hk
  | some device =>
    cases hfd : procAllocateFd (s.procs p) with
    | none =>
      simp only [deskOpenDevice, reply, deviceOpen, hfd, openFd_failed] at hk ⊢
      exact ha.idle rfl hk
    | some fd =>
      simp only [deskOpenDevice, reply, deviceOpen, hfd, openFd_val] at hk ⊢
      exact ha.setFile hlive rfl hk rfl

theorem implements_close (h : fileStep s (.close p number) = some s') (hk : SlotsKept s s')
    (root : Nat) :
    Implements (deskStep root a (reply s (.close p number)) (.close p number)) s' := by
  have hlive := fileStep_caller h p rfl
  simp only [fileStep, if_neg (fileStep_called h), Option.some.injEq] at h
  subst h
  show Implements (deskClose a p number) _
  cases hfd : openFd number with
  | none =>
    simp only [deskClose, sysClose, hfd] at hk ⊢
    exact ha.idle rfl hk
  | some fd =>
    have hfile : (a.desk p).files fd = fileOf s.vars (s.file p fd) := by
      rw [ha.desk p hlive]
      rfl
    cases hkind : (s.file p fd).kind with
    | FD_EMPTY =>
      have htarget : ((a.desk p).files fd).target = .empty := by
        simp only [hfile, fileOf, hkind]
      unfold FileState.file at hkind
      simp only [deskClose, sysClose, hfd, htarget, hkind] at hk ⊢
      exact ha.idle rfl hk
    | FD_DEVICE device =>
      have htarget : ((a.desk p).files fd).target = .device device := by
        simp only [hfile, fileOf, hkind]
      unfold FileState.file at hkind
      simp only [deskClose, sysClose, hfd, htarget, hkind] at hk ⊢
      exact ha.idle rfl hk
    | FD_INODE i =>
      have htarget := ha.target hlive hkind
      unfold FileState.file at hkind
      simp only [deskClose, sysClose, hfd, htarget, hkind] at hk ⊢
      exact ha.setFile hlive rfl hk rfl

/-- A process that changes its directory keeps its files. -/
theorem implements_chdir (h : fileStep s (.chdir p path date) = some s') (hk : SlotsKept s s')
    (hs' : Leaky s' lost') (root : Nat) :
    Implements (deskStep root a (reply s (.chdir p path date)) (.chdir p path date)) s' := by
  have hlive := fileStep_caller h p rfl
  simp only [fileStep, if_neg (fileStep_called h)] at h
  show Implements (deskChdir a p (reply s _)) s'
  rcases hopen : fsOpen s.vars path (some (s.wd p)) DZFS_O_DIR date with e | ⟨_ | i, vars⟩
  · have hsys : sysChdir s.vars (s.procs p) path date = .error e := by
      rw [sysChdir]
      change fsOpen s.vars path (some (s.procs p).workingDirectory) DZFS_O_DIR date = _ at hopen
      rw [hopen]
    rw [hsys] at h
    cases h
  · have hsys : sysChdir s.vars (s.procs p) path date = .ok (-1, vars, s.procs p) := by
      rw [sysChdir]
      change fsOpen s.vars path (some (s.procs p).workingDirectory) DZFS_O_DIR date = _ at hopen
      rw [hopen]
    rw [hsys] at h
    cases h
    have hreply : (reply s (.chdir p path date)).result ≠ 0 := by
      simp [reply, hsys, okResult]
    have hsame : deskChdir a p (reply s (.chdir p path date)) = a := by
      unfold deskChdir
      split
      · exact if_neg hreply
      · rfl
    rw [hsame]
    exact ha.idle rfl hk
  · have hsys : sysChdir s.vars (s.procs p) path date =
        .ok (0, fsClose vars (s.wd p), { s.procs p with workingDirectory := i }) := by
      rw [sysChdir]
      change fsOpen s.vars path (some (s.procs p).workingDirectory) DZFS_O_DIR date = _ at hopen
      rw [hopen]
      rfl
    rw [hsys] at h
    cases h
    obtain ⟨d, parent, hout, hused, hdnode, -⟩ := fsOpen_inode hopen
    have hreply : (reply s (.chdir p path date)).result = 0 := by
      simp only [reply, hsys, okResult]
    have hdnode' : (reply s (.chdir p path date)).out.dnode = some d :=
      congrArg OpenOut.dnode hout
    have hself : Function.update s.procs p { s.procs p with workingDirectory := i } p =
        { s.procs p with workingDirectory := i } := Function.update_self _ _ _
    -- The old folder is closed, and the new one is still open.
    have hused' := hs'.used (p := p) (o := none) hlive (congrArg some (congrArg _ hself))
    have hkept := (keeps_fsClose vars (s.wd p) i hused hused').2
    simp only [deskChdir, hdnode', hreply, if_true]
    refine ha.setDesk hk rfl (fun q hq => Function.update_of_ne hq _ _) fun _ => ?_
    have hfolder : dnodeAt (s.afterCall p (fsClose vars (s.wd p))
        { s.procs p with workingDirectory := i }) i = d := hkept.trans hdnode
    rw [hk.chdir hlive hlive hself, ha.desk p hlive, hfolder]

theorem implements_mkdir (h : fileStep s (.mkdir p path date) = some s') (hk : SlotsKept s s')
    (root : Nat) :
    Implements (deskStep root a (reply s (.mkdir p path date)) (.mkdir p path date)) s' := by
  simp only [fileStep, if_neg (fileStep_called h), Option.some.injEq] at h
  subst h
  exact (ha.setStore _).same hk rfl rfl

theorem implements_unlink (h : fileStep s (.unlink p path date) = some s') (hk : SlotsKept s s')
    (root : Nat) :
    Implements (deskStep root a (reply s (.unlink p path date)) (.unlink p path date)) s' := by
  simp only [fileStep, if_neg (fileStep_called h), Option.some.injEq] at h
  subst h
  simp only [deskStep]
  split
  · split
    · exact (ha.setStore _).same hk rfl rfl
    · exact ha.same hk rfl rfl
  · exact ha.same hk rfl rfl

/-- A descriptor whose offset goes on by the result. -/
theorem Implements.advance (hp : p ∈ s.live) {r : Reply} {result : Int} (hr : r.result = result)
    (hproc : proc = if result < 0 then s.procs p else
      (s.procs p).setFile fd
        { s.file p fd with offset := (s.file p fd).offset + UInt32.ofNat result.toNat })
    (hk : SlotsKept s (s.afterCall p vars proc))
    (hvars : ∀ j, (s.file p fd).kind = .FD_INODE j →
      (vars.inodes j).dnode = (s.vars.inodes j).dnode) :
    Implements (deskAdvance a p r fd) (s.afterCall p vars proc) := by
  unfold deskAdvance
  rw [hr]
  split
  · rename_i hneg
    rw [if_pos hneg] at hproc
    exact ha.idle hproc hk
  · rename_i hneg
    rw [if_neg hneg] at hproc
    refine ha.setFile hp hproc hk ?_
    rw [ha.desk p hp]
    simp only [deskOf, fileOf, FileState.file] at hvars ⊢
    cases hkind : ((s.procs p).openFiles fd).kind with
    | FD_EMPTY => rfl
    | FD_DEVICE device => rfl
    | FD_INODE j => simp only [hvars j hkind]

end

/-- A descriptor that is not written to. -/
theorem sysWrite_refused (deviceResult : Int) (hfd : openFd number = some fd)
    (hkind : (s.file p fd).kind = .FD_INODE i) (h : writeTarget s p number buffer = none) :
    sysWrite s.vars (s.procs p) number buffer deviceResult = (-1, s.vars, s.procs p) := by
  unfold sysWrite
  simp only [hfd]
  split
  · rfl
  · rename_i hbuffer
    split
    · rfl
    · rename_i hwritable
      have hsome : writeTarget s p number buffer = some (fd, i) :=
        ioTarget_eq_some.mpr ⟨hfd, hkind, by simpa [FileState.file, hbuffer] using hwritable⟩
      rw [h] at hsome
      cases hsome

/-- A descriptor that is not read. -/
theorem sysRead_refused (deviceResult : Int) (hfd : openFd number = some fd)
    (hkind : (s.file p fd).kind = .FD_INODE i) (h : readTarget s p number len = none) :
    sysRead s.vars (s.procs p) number len deviceResult = (-1, s.procs p) := by
  unfold sysRead
  simp only [hfd]
  split
  · rfl
  · rename_i hlen
    split
    · rfl
    · rename_i hreadble
      have hsome : readTarget s p number len = some (fd, i) :=
        ioTarget_eq_some.mpr ⟨hfd, hkind, by simpa [FileState.file, hlen] using hreadble⟩
      rw [h] at hsome
      cases hsome

/-- What a descriptor of an entity holds. -/
theorem Implements.inode (ha : Implements a s) (hp : p ∈ s.live) {dnode : Nat}
    (htarget : ((a.desk p).files fd).target = .entity dnode) :
    ∃ i, (s.file p fd).kind = .FD_INODE i ∧ dnodeAt s i = dnode := by
  rw [ha.desk p hp] at htarget
  simp only [deskOf, fileOf] at htarget
  unfold FileState.file
  cases hkind : ((s.procs p).openFiles fd).kind with
  | FD_EMPTY =>
    rw [hkind] at htarget
    cases htarget
  | FD_DEVICE device =>
    rw [hkind] at htarget
    cases htarget
  | FD_INODE i =>
    rw [hkind] at htarget
    exact ⟨i, rfl, Target.entity.inj htarget⟩

theorem implements_write (ha : Implements a s)
    (h : fileStep s (.write p number buffer deviceResult) = some s') (hk : SlotsKept s s')
    (root : Nat) :
    Implements (deskStep root a (reply s (.write p number buffer deviceResult))
      (.write p number buffer deviceResult)) s' := by
  have hlive := fileStep_caller h p rfl
  simp only [fileStep, if_neg (fileStep_called h), Option.some.injEq] at h
  subst h
  show Implements (deskWrite a p (reply s _) number buffer) _
  cases htarget : writeTarget s p number buffer with
  | none =>
    have hidle := sysWrite_idle deviceResult htarget
    have hproc := congrArg Prod.snd hidle
    unfold deskWrite
    split
    · exact ha.idle hproc hk
    · rename_i fd hfd
      split
      · rename_i dnode hentity
        obtain ⟨i, hkind, -⟩ := ha.inode hlive hentity
        have hrefused := sysWrite_refused deviceResult hfd hkind htarget
        have hreply : (reply s (.write p number buffer deviceResult)).result < 0 := by
          simp only [reply, hrefused]
          decide
        rw [deskAdvance, if_pos hreply]
        exact (ha.setStore _).idle hproc hk
      · exact ha.idle hproc hk
  | some t =>
    obtain ⟨fd, i⟩ := t
    obtain ⟨hfd, hkind, -⟩ := ioTarget_eq_some.mp htarget
    have hsys := sysWrite_target deviceResult htarget
    have hvars := congrArg (fun out => out.2.1) hsys
    have hproc := congrArg (fun out => out.2.2) hsys
    have hresult := congrArg Prod.fst hsys
    simp only [deskWrite, hfd, ha.target hlive hkind]
    refine (ha.setStore _).advance hlive hresult hproc hk fun j _ => ?_
    rw [hvars]
    obtain ⟨size, hwrite⟩ := fsWrite_snd s.vars i buffer (s.file p fd).offset.toNat
    simp only [hwrite]
    by_cases hj : j = i
    · rw [hj, Function.update_self]
    · rw [Function.update_of_ne hj]

theorem implements_read (ha : Implements a s)
    (h : fileStep s (.read p number len deviceResult) = some s') (hk : SlotsKept s s')
    (root : Nat) :
    Implements (deskStep root a (reply s (.read p number len deviceResult))
      (.read p number len deviceResult)) s' := by
  have hlive := fileStep_caller h p rfl
  simp only [fileStep, if_neg (fileStep_called h), Option.some.injEq] at h
  subst h
  show Implements (deskRead a p (reply s _) number) _
  cases htarget : readTarget s p number len with
  | none =>
    have hidle := sysRead_idle deviceResult htarget
    unfold deskRead
    split
    · exact ha.idle hidle hk
    · rename_i fd hfd
      split
      · rename_i dnode hentity
        obtain ⟨i, hkind, -⟩ := ha.inode hlive hentity
        have hrefused := sysRead_refused deviceResult hfd hkind htarget
        have hreply : (reply s (.read p number len deviceResult)).result < 0 := by
          simp only [reply, hrefused]
          decide
        rw [deskAdvance, if_pos hreply]
        exact ha.idle hidle hk
      · exact ha.idle hidle hk
  | some t =>
    obtain ⟨fd, i⟩ := t
    obtain ⟨hfd, hkind, -⟩ := ioTarget_eq_some.mp htarget
    have hsys := sysRead_target deviceResult htarget
    have hproc := congrArg Prod.snd hsys
    have hresult := congrArg Prod.fst hsys
    simp only [deskRead, hfd, ha.target hlive hkind]
    exact ha.advance hlive hresult hproc hk fun j _ => rfl

end

/-- A call changes the desks as `deskStep` says. -/
theorem implements_step (ha : Implements a s) (h : fileStep s c = some s') (hk : SlotsKept s s')
    (hs' : Leaky s' lost') : Implements (deskStep s'.vars.fs.rootDnode a (reply s c) c) s' := by
  cases c with
  | exec parent child path accepted serial date => exact implements_exec ha h hk
  | exit p => exact implements_exit ha h hk _
  | «open» p path flags date => exact implements_open ha h hk _
  | openDevice p device readble writable => exact implements_openDevice ha h hk _
  | close p number => exact implements_close ha h hk _
  | chdir p path date => exact implements_chdir ha h hk hs' _
  | mkdir p path date => exact implements_mkdir ha h hk _
  | unlink p path date => exact implements_unlink ha h hk _
  | write p number buffer deviceResult => exact implements_write ha h hk _
  | read p number len deviceResult => exact implements_read ha h hk _

end

/-! ### What the calls return -/

/-- The file at a number. -/
def fileAt (k : Desk) (number : Int) : OpenFile :=
  match openFd number with
  | none => closedFile
  | some fd => k.files fd

/-- The first descriptor that is not in use. -/
def firstUnused (k : Desk) : Option (Fin MAX_OPEN_FILES) :=
  (List.finRange MAX_OPEN_FILES).find? fun fd => (k.files fd).target = .empty

/-- The number that a call returns for a descriptor. -/
def fdNumber (fd : Option (Fin MAX_OPEN_FILES)) : Int :=
  match fd with
  | none => -1
  | some fd => fd

/-- A write returns the length of its data, if dzFS writes all of it. -/
def AnswersWrite (r : Reply) (file : OpenFile) (buffer : List UInt8) (deviceResult : Int) : Prop :=
  if buffer = [] ∨ file.writable = false then r.result = -1
  else
    match file.target with
    | .empty => r.result = -1
    | .device _ => r.result = deviceResult
    | .entity _ => r.result = if r.out.result = .OK then (buffer.length : Int) else -1

/-- A read returns the bytes of the file at the offset of the descriptor. -/
def AnswersRead (t : FsStore) (r : Reply) (file : OpenFile) (len : Nat) (deviceResult : Int) :
    Prop :=
  if len = 0 ∨ file.readble = false then r.result = -1
  else
    match file.target with
    | .empty => r.result = -1
    | .device _ => r.result = deviceResult
    | .entity dnode =>
      match (t dnode).bind Entity.content with
      | none => r.result = -1
      | some c => ReadShows c len file.offset.toNat (r.result, r.data)

/-- What the desks say about the reply to a call. -/
def Answers (a : Desks) (r : Reply) : FileCall → Prop
  | .open p _ flags _ =>
    r.result = -1 ∨ flags &&& ~~~OPEN_FLAGS = 0 ∧ r.out.result = .OK ∧
      ∃ fd, firstUnused (a.desk p) = some fd ∧ r.result = fd
  | .openDevice p device _ _ => r.result = fdNumber (device.bind fun _ => firstUnused (a.desk p))
  | .close p number => r.result = if (fileAt (a.desk p) number).target = .empty then -1 else 0
  | .unlink _ _ _ => r.result = 0 → ∃ dnode e, r.out.dnode = some dnode ∧
      a.store dnode = some e ∧ ∀ n e', a.store n = some e' → e'.parent ≠ dnode
  | .write p number buffer deviceResult =>
    AnswersWrite r (fileAt (a.desk p) number) buffer deviceResult
  | .read p number len deviceResult =>
    AnswersRead a.store r (fileAt (a.desk p) number) len deviceResult
  | _ => True

section
variable {s s' : FileState} {c : FileCall} {E : Finset Nat} {ls : Nat → List Nat} {p : ProcPtr}
  {lost : List InodePtr} {a : Desks} {fd : Fin MAX_OPEN_FILES}

theorem fileOf_empty_iff (vars : FsVars) (file : ProcessFile) :
    (fileOf vars file).target = .empty ↔ file.kind = .FD_EMPTY := by
  unfold fileOf
  cases file.kind with
  | FD_EMPTY => simp
  | FD_INODE i => simp
  | FD_DEVICE device => simp

theorem firstUnused_deskOf (vars : FsVars) (proc : FileProc) :
    firstUnused (deskOf vars proc) = procAllocateFd proc := by
  unfold firstUnused procAllocateFd
  congr 1
  funext fd
  exact decide_eq_decide.mpr (fileOf_empty_iff vars (proc.openFiles fd))

theorem fileAt_none (hfd : openFd number = none) (k : Desk) :
    fileAt k number = closedFile := by rw [fileAt, hfd]

section

variable (ha : Implements a s) (hp : p ∈ s.live)

include ha hp

theorem Implements.fileAt (hfd : openFd number = some fd) :
    fileAt (a.desk p) number = fileOf s.vars (s.file p fd) := by
  rw [Fs.fileAt, hfd, ha.desk p hp]
  rfl

theorem answers_open (path : List UInt8) (flags : UInt32) (date : UInt64) :
    Answers a (reply s (.open p path flags date)) (.open p path flags date) := by
  simp only [Answers, reply, ha.desk p hp, firstUnused_deskOf]
  by_cases hrefused : OpenRefused (s.procs p) flags
  · rw [sysOpen_refused hrefused]
    exact Or.inl rfl
  · obtain ⟨fd, hfd, hsys⟩ := sysOpen_tried path date hrefused
    rcases hopen : fsOpen s.vars path (some (s.wd p)) (fsFlags flags) date with e | ⟨_ | i, vars⟩
    · rw [hsys, hopen]
      exact Or.inl rfl
    · rw [hsys, hopen]
      exact Or.inl rfl
    · obtain ⟨d, parent, hout, -⟩ := fsOpen_inode hopen
      rw [hsys, hopen, if_neg hrefused]
      refine Or.inr ⟨not_not.mp (not_or.mp hrefused).1, congrArg OpenOut.result hout, fd, hfd, rfl⟩

theorem answers_openDevice (device : Option Nat) (readble writable : Bool) :
    Answers a (reply s (.openDevice p device readble writable))
      (.openDevice p device readble writable) := by
  simp only [Answers, reply, ha.desk p hp]
  cases device with
  | none => rfl
  | some device =>
    show _ = fdNumber (firstUnused _)
    rw [firstUnused_deskOf, deviceOpen]
    cases procAllocateFd (s.procs p) with
    | none => rfl
    | some fd => rfl

theorem answers_close (number : Int) : Answers a (reply s (.close p number)) (.close p number) := by
  simp only [Answers, reply, sysClose]
  cases hfd : openFd number with
  | none =>
    rw [fileAt_none hfd]
    rfl
  | some fd =>
    rw [ha.fileAt hp hfd]
    simp only [fileOf_empty_iff, FileState.file]
    cases ((s.procs p).openFiles fd).kind with
    | FD_EMPTY => rfl
    | FD_INODE i => rfl
    | FD_DEVICE device => rfl

end

/-- A deleted entity has no entries. -/
theorem answers_unlink (hs : FileWorld s lost E ls) (hr : Represents a.store ⟨s.vars.fs, E⟩ ls')
    (hp : p ∈ s.live) (path : List UInt8) (date : UInt64) :
    Answers a (reply s (.unlink p path date)) (.unlink p path date) := by
  intro hok
  simp only [reply] at hok ⊢
  obtain ⟨hfs, hfail | ⟨d, parent, hout, hplace⟩⟩ := lookup_unlink hs hp path date
  · rw [fsDelete_failed hfail] at hok
    exact absurd hok (show (-1 : Int) ≠ 0 by decide)
  have hdel : (dzfsDelete s.vars.fs d parent).1 = .OK := by
    rw [fsDelete_found hout hfs] at hok
    by_contra hno
    rw [if_neg hno] at hok
    exact absurd hok (show (-1 : Int) ≠ 0 by decide)
  rcases hplace with hroot | hin
  · exact absurd hdel (dzfsDelete_refused (Or.inl hroot)).1
  obtain ⟨hd, hroot⟩ := hs.entity_of_listed hin.listed
  obtain ⟨-, hdeletable⟩ := (dzfsDelete_ok_iff hs.toInv hin).mp hdel
  obtain ⟨e, he⟩ := Option.isSome_iff_exists.mp ((hr.mem_iff d).mpr hd)
  refine ⟨d, e, congrArg OpenOut.dnode hout, he, fun n e' he' hparent => ?_⟩
  obtain ⟨hn, -⟩ := hr.listed_of_parent hd he' hparent
  -- An entity with an entry is a folder that has one.
  obtain ⟨-, hfolder⟩ := hr.inv.folder_of_listed hn
  rcases hdeletable with hfile | ⟨-, hempty⟩
  · exact file_ne_folder hfile hfolder
  · have hnil : ls' d = [] := by
      refine (hr.inv.lists d hd hfolder).eq_nil ?_
      rw [← Option.not_isSome_iff_eq_none, isSome_scan_child]
      exact hempty
    rw [hnil] at hn
    exact List.not_mem_nil hn

/-- A call that is refused for its descriptor. -/
theorem sysWrite_denied (hfd : openFd number = some fd)
    (h : buffer = [] ∨ (s.file p fd).writable = false) :
    (sysWrite s.vars (s.procs p) number buffer deviceResult).1 = -1 := by
  unfold FileState.file at h
  unfold sysWrite
  simp only [hfd]
  split
  · rfl
  · rename_i hbuffer
    rw [if_pos (by simp [h.resolve_left hbuffer])]

theorem sysRead_denied (hfd : openFd number = some fd)
    (h : len = 0 ∨ (s.file p fd).readble = false) :
    (sysRead s.vars (s.procs p) number len deviceResult).1 = -1 := by
  unfold FileState.file at h
  unfold sysRead
  simp only [hfd]
  split
  · rfl
  · rename_i hlen
    rw [if_pos (by simp [h.resolve_left hlen])]

/-- The length of a write that dzFS makes fits an `int`. -/
theorem fsWrite_result (hs : FileWorld s lost E ls) {i : InodePtr} (hi : dnodeAt s i ∈ E)
    (buffer : List UInt8) (offset : Nat) (hlt : buffer.length + offset < 2 ^ 64) :
    (fsWrite s.vars i buffer offset).1 =
      if (dzfsWrite s.vars.fs (dnodeAt s i) buffer offset).1 = .OK then (buffer.length : Int)
      else -1 := by
  unfold dnodeAt at hi ⊢
  unfold fsWrite
  simp only
  split
  · rename_i fs' hw
    have hle : buffer.length + offset ≤ DZFS_MAX_FILESIZE := by
      rcases dzfsWrite_cases hs.toInv.toCore hi hlt hw with ⟨-, hno⟩ | ⟨-, hle, -⟩
      · exact absurd rfl hno
      · exact hle
    have hmax : DZFS_MAX_FILESIZE < 2 ^ 31 := by decide
    rw [hw, if_pos rfl, Int.bmod_def]
    split
    · omega
    · omega
  · rename_i r fs' hno hw
    rw [hw, if_neg hno]

theorem answers_write (hs : FileWorld s lost E ls) (ha : Implements a s) (hp : p ∈ s.live)
    (number : Int) (hdata : buffer.length < 2 ^ 63) (deviceResult : Int) :
    Answers a (reply s (.write p number buffer deviceResult))
      (.write p number buffer deviceResult) := by
  show AnswersWrite _ (fileAt (a.desk p) number) buffer deviceResult
  unfold AnswersWrite
  cases hfd : openFd number with
  | none =>
    have hclosed : buffer = [] ∨ closedFile.writable = false := Or.inr rfl
    rw [fileAt_none hfd, if_pos hclosed]
    simp only [reply, sysWrite, hfd]
  | some fd =>
    rw [ha.fileAt hp hfd]
    by_cases hdenied : buffer = [] ∨ (fileOf s.vars (s.file p fd)).writable = false
    · rw [if_pos hdenied]
      exact sysWrite_denied hfd hdenied
    · rw [if_neg hdenied]
      obtain ⟨hbuffer, hwritable⟩ := not_or.mp hdenied
      change ¬ (s.file p fd).writable = false at hwritable
      cases hkind : (s.file p fd).kind with
      | FD_EMPTY =>
        unfold FileState.file at hkind hwritable ⊢
        simp [reply, sysWrite, hfd, hbuffer, hwritable, fileOf, hkind]
      | FD_DEVICE device =>
        unfold FileState.file at hkind hwritable ⊢
        simp [reply, sysWrite, hfd, hbuffer, hwritable, fileOf, hkind]
      | FD_INODE i =>
        have htarget : writeTarget s p number buffer = some (fd, i) :=
          ioTarget_eq_some.mpr ⟨hfd, hkind, by simpa [hbuffer] using hwritable⟩
        have hused := hs.toLeaky.used (o := some fd) hp (fileInode_of_kind hkind)
        have hoffset := (s.file p fd).offset.toNat_lt
        simp only [fileOf, hkind, reply, writeOut, htarget, sysWrite_target deviceResult htarget]
        exact fsWrite_result hs (hs.mem i hused) buffer _ (by omega)

/-- A read gives the bytes that the store has at the position. -/
theorem answers_read (hs : FileWorld s lost E ls) (hr : Represents a.store ⟨s.vars.fs, E⟩ ls')
    (ha : Implements a s) (hp : p ∈ s.live) (number : Int) (len : Nat) (deviceResult : Int) :
    Answers a (reply s (.read p number len deviceResult)) (.read p number len deviceResult) := by
  show AnswersRead a.store _ (fileAt (a.desk p) number) len deviceResult
  unfold AnswersRead
  cases hfd : openFd number with
  | none =>
    have hclosed : len = 0 ∨ closedFile.readble = false := Or.inr rfl
    rw [fileAt_none hfd, if_pos hclosed]
    simp only [reply, sysRead, hfd]
  | some fd =>
    rw [ha.fileAt hp hfd]
    by_cases hdenied : len = 0 ∨ (fileOf s.vars (s.file p fd)).readble = false
    · rw [if_pos hdenied]
      exact sysRead_denied hfd hdenied
    · rw [if_neg hdenied]
      obtain ⟨hlen, hreadble⟩ := not_or.mp hdenied
      change ¬ (s.file p fd).readble = false at hreadble
      cases hkind : (s.file p fd).kind with
      | FD_EMPTY =>
        unfold FileState.file at hkind hreadble ⊢
        simp [reply, fileOf, sysRead, hfd, hlen, hreadble, hkind]
      | FD_DEVICE device =>
        unfold FileState.file at hkind hreadble ⊢
        simp [reply, fileOf, sysRead, hfd, hlen, hreadble, hkind]
      | FD_INODE i =>
        have htarget : readTarget s p number len = some (fd, i) :=
          ioTarget_eq_some.mpr ⟨hfd, hkind, by simpa [hlen] using hreadble⟩
        have hused := hs.toLeaky.used (o := some fd) hp (fileInode_of_kind hkind)
        have hmem : dnodeAt s i ∈ E := hs.mem i hused
        obtain ⟨e, he⟩ := Option.isSome_iff_exists.mp ((hr.mem_iff _).mpr hmem)
        simp only [fileOf, hkind, reply, readData, htarget, sysRead_target deviceResult htarget]
        change match (a.store (dnodeAt s i)).bind Entity.content with
          | none => (fsRead s.vars i len (s.file p fd).offset.toNat).1 = -1
          | some c => ReadShows c len (s.file p fd).offset.toNat
            (fsRead s.vars i len (s.file p fd).offset.toNat)
        rw [he, Option.bind_some]
        cases hc : e.content with
        | none =>
          have hfolder := hr.folder _ e he hc
          have hread : dzfsRead s.vars.fs (dnodeAt s i) len (s.file p fd).offset.toNat =
              (DzfsResult.ERR_ARGUMENT.code, []) := by
            have hne : entityType (s.vars.fs.disk (dnodeAt s i)) ≠ DZFS_ENTITY_FILE :=
              fun hfile => file_ne_folder hfile hfolder
            simp only [dzfsRead, Dzfs.readBlock, if_pos hne]
          unfold dnodeAt at hread
          simp only [fsRead, hread]
          rfl
        | some c =>
          have hshows := hr.shows.read _ e c he hc len (s.file p fd).offset.toNat
          have hnonneg : ¬ (dzfsRead s.vars.fs (dnodeAt s i) len
              (s.file p fd).offset.toNat).1 < 0 := by
            have hcount := hshows.count
            simp only at hcount
            rw [hcount]
            exact Int.not_lt.mpr (Int.natCast_nonneg _)
          unfold dnodeAt at hnonneg hshows
          simp only [fsRead, if_neg hnonneg]
          exact hshows

/-- The reply to a call is what the desks say. -/
theorem answers (hs : FileWorld s lost E ls) (hr : Represents a.store ⟨s.vars.fs, E⟩ ls')
    (ha : Implements a s) (h : fileStep s c = some s') (hdata : (writtenData c).length < 2 ^ 63) :
    Answers a (reply s c) c := by
  have hlive := fileStep_caller h
  cases c with
  | «open» p path flags date => exact answers_open ha (hlive p rfl) path flags date
  | openDevice p device readble writable =>
    exact answers_openDevice ha (hlive p rfl) device readble writable
  | close p number => exact answers_close ha (hlive p rfl) number
  | unlink p path date => exact answers_unlink hs hr (hlive p rfl) path date
  | write p number buffer deviceResult =>
    exact answers_write hs ha (hlive p rfl) number hdata deviceResult
  | read p number len deviceResult =>
    exact answers_read hs hr ha (hlive p rfl) number len deviceResult
  | _ => trivial

end

/-! ### Runs -/

theorem OkRun.mono {ok ok' : FsState → Call → Prop} {s : FsState} {calls : List Call}
    (h : OkRun ok s calls) (himp : ∀ s c, ok s c → ok' s c) : OkRun ok' s calls := by
  induction calls generalizing s with
  | nil => trivial
  | cons c calls ih => exact ⟨himp s c h.1, ih h.2⟩

/-- No run of dzFS changes its variables. -/
theorem foldl_exec_vars (s : FsState) (calls : List Call) :
    SameVars s.fs (calls.foldl exec s).fs := by
  induction calls generalizing s with
  | nil => exact SameVars.refl _
  | cons c calls ih => exact (exec_vars s c).trans (ih (exec s c))

/-- The processes with their desks: the invariants of the files, of the disk and of the store. -/
structure DeskWorld (root : Nat) (a : Desks) (s : FileState) (lost : List InodePtr)
    (E : Finset Nat) (ls stored : Nat → List Nat) : Prop where
  world : FileWorld s lost E ls
  represents : Represents a.store ⟨s.vars.fs, E⟩ stored
  implements : Implements a s
  root : s.vars.fs.rootDnode = root

section
variable {s s' : FileState} {c : FileCall} {E : Finset Nat} {ls stored : Nat → List Nat}
  {lost : List InodePtr} {a : Desks} {root : Nat}

/-- The store and the tree after the call of dzFS. -/
theorem Represents.afterDisk {t : FsStore} {d : FsState} (h : Represents t d stored)
    (htree : Tree d.fs d.entities ls) {call : Option Call}
    (hok : ∀ c ∈ call, Sound d c ∧ TreeOk d c) :
    ∃ stored' ls', Represents (afterStore t d call) (afterDisk d call) stored' ∧
      Tree (Fs.afterDisk d call).fs (Fs.afterDisk d call).entities ls' := by
  cases call with
  | none => exact ⟨stored, ls, h, htree⟩
  | some c =>
    obtain ⟨hsound, htreeOk⟩ := hok c rfl
    obtain ⟨stored', h'⟩ := h.step hsound
    obtain ⟨ls', htree'⟩ := exec_tree htree htreeOk
    exact ⟨stored', ls', h', htree'⟩

/-- A step keeps the correspondence, by the step lemma of each call. -/
theorem DeskWorld.step (hs : DeskWorld root a s lost E ls stored) (h : fileStep s c = some s')
    (hc : CallOk s c) (hfew : FewLost lost) :
    ∃ lost' E' ls' stored', DeskWorld root (deskStep root a (reply s c) c) s' lost' E' ls' stored' ∧
      lost'.length ≤ lost.length + (isExit c).toNat := by
  have hstep := fileStep_cases h
  obtain ⟨lost', E', ls', hworld, hlen⟩ :=
    hstep.world hs.world hfew hc.names hc.2.1 hc.2.2.1 hc.2.2.2
  have hroot : s'.vars.fs.rootDnode = root := hstep.vars.rootDnode.trans hs.root
  have hdisk := fileStep_disk hs.world h
  obtain ⟨stored', ls'', hrep, htree⟩ :=
    hs.represents.afterDisk hs.world.toTree (diskCall_sound hs.world h hc)
  rw [← deskStep_store hs.world hs.implements h root] at hrep
  rw [← hdisk] at htree
  -- Both invariants have the entities of the tree.
  have hentities : (afterDisk ⟨s.vars.fs, E⟩ (diskCall s c)).entities = E' := by
    ext n
    rw [← htree.inTree_iff, hworld.toTree.inTree_iff]
  have hafter : afterDisk ⟨s.vars.fs, E⟩ (diskCall s c) = ⟨s'.vars.fs, E'⟩ := by
    rw [hdisk, ← hentities]
  rw [hafter] at hrep
  have himplements := implements_step hs.implements h
    (hstep.slotsKept hs.world.toLeaky hworld.toLeaky) hworld.toLeaky
  rw [hroot] at himplements
  exact ⟨lost', E', ls', stored', ⟨hworld, hrep, himplements, hroot⟩, hlen⟩

theorem DeskWorld.run (hs : DeskWorld root a s lost E ls stored) {calls : List FileCall}
    (hrun : runSteps fileStep s calls = some s') (hok : EachCall fileStep s calls CallOk)
    (hexits : lost.length + calls.countP isExit + 1024 < 2 ^ 32) :
    ∃ lost' E' ls' stored', DeskWorld root (deskRun root s a calls) s' lost' E' ls' stored' := by
  induction calls generalizing s a lost E ls stored with
  | nil =>
    cases hrun
    exact ⟨lost, E, ls, stored, hs⟩
  | cons c calls ih =>
    obtain ⟨t, hcall, hrest⟩ := runSteps_cons_some hrun
    obtain ⟨hc, hok⟩ := (eachCall_cons hcall).mp hok
    rw [List.countP_cons] at hexits
    have hfew : FewLost lost := by
      unfold FewLost
      omega
    obtain ⟨lost', E', ls', stored', hs', hlen⟩ := hs.step hcall hc hfew
    have hcount : (isExit c).toNat = if isExit c then 1 else 0 := by cases isExit c <;> rfl
    rw [deskRun, hcall]
    exact ih hs' hrest hok (by omega)

/-- What the desks and the store say about the processes and the disk: they are those of the
processes and of the disk, they fit together, and they say what the next call returns. -/
structure ShowsDesks (a : Desks) (s : FileState) : Prop extends Implements a s where
  disk : ∃ E, Shows a.store ⟨s.vars.fs, E⟩
  folder : ∀ p ∈ s.live, ∃ e, a.store (a.desk p).folder = some e ∧ e.content = none
  entity : ∀ p ∈ s.live, ∀ fd dnode, ((a.desk p).files fd).target = .entity dnode →
    (a.store dnode).isSome
  reply : ∀ c s', fileStep s c = some s' → (writtenData c).length < 2 ^ 63 →
    Answers a (reply s c) c

theorem DeskWorld.shows (hs : DeskWorld root a s lost E ls stored) : ShowsDesks a s where
  toImplements := hs.implements
  disk := ⟨E, hs.represents.shows⟩
  folder p hp := by
    rw [hs.implements.desk p hp]
    exact (hs.represents.shows.folder_iff _).mp (hs.world.wd_folder hp)
  entity p hp fd dnode htarget := by
    obtain ⟨i, hkind, rfl⟩ := hs.implements.inode hp htarget
    have hused := hs.world.toLeaky.used (o := some fd) hp (fileInode_of_kind hkind)
    exact (hs.represents.mem_iff _).mpr (hs.world.mem i hused)
  reply c s' h hdata := answers hs.world hs.represents hs.implements h hdata

end

/-- The processes refine the desks. In every state of every run of file calls on a disk that dzFS
has formatted and used, the descriptors and the folders of the live processes are those of the desks
that the same calls lead to, the disk has what their store says, and what a call returns is what the
desks and the store say. The calls may be of any processes in any order, and processes may exit. -/
theorem processes_refine_desks {disk : Nat → Bytes} {blocks : Nat} {date : UInt64} {fs : Dzfs}
    (hle : blocks ≤ formatLimit) (hnew : dzfsNew disk blocks date = (.OK, fs)) {pre : List Call}
    (hpre : OkRun (fun s c => Sound s c ∧ TreeOk s c) (newState fs) pre)
    (procs : ProcPtr → FileProc) (desks : ProcPtr → Desk) {calls : List FileCall} {s' : FileState}
    (hrun : runSteps fileStep (FileState.boot (pre.foldl exec (newState fs)).fs procs) calls
      = some s')
    (hok : EachCall fileStep (FileState.boot (pre.foldl exec (newState fs)).fs procs) calls CallOk)
    (hexits : calls.countP isExit + 1024 < 2 ^ 32) :
    ShowsDesks (deskRun fs.rootDnode (FileState.boot (pre.foldl exec (newState fs)).fs procs)
      ⟨storeRun (newState fs) (rootStore fs) pre, ∅, desks⟩ calls) s' := by
  obtain ⟨stored, hrep⟩ := (rootStore_represents hle hnew).run (hpre.mono fun _ _ h => h.1)
  obtain ⟨ls, htree⟩ := (OkRun.reachable .start (hpre.mono fun _ _ h => h.2)).tree hle hnew
  have hroot : (pre.foldl exec (newState fs)).fs.rootDnode = fs.rootDnode :=
    (foldl_exec_vars (newState fs) pre).rootDnode
  have himplements : Implements ⟨storeRun (newState fs) (rootStore fs) pre, ∅, desks⟩
      (FileState.boot (pre.foldl exec (newState fs)).fs procs) :=
    ⟨rfl, fun p hp => absurd hp (Finset.notMem_empty p)⟩
  have hworld : DeskWorld fs.rootDnode ⟨storeRun (newState fs) (rootStore fs) pre, ∅, desks⟩
      (FileState.boot (pre.foldl exec (newState fs)).fs procs) [] _ ls stored :=
    ⟨(fileTree_boot htree procs).world, hrep, himplements, hroot⟩
  obtain ⟨lost', E', ls', stored', h⟩ := hworld.run hrun hok (by simpa using hexits)
  exact h.shows

/-- Two processes share the file `f`. One writes to it, the other one reads it, the first one is
refused a second read, and the other one exits. -/
def deskCalls : List FileCall :=
  [.exec none 0 [47, 102] true 0 0, .exec (some 0) 1 [102] true 0 0, .open 0 [102] 0o1 0,
    .open 1 [102] 0 0, .write 0 3 [65, 66] 0, .read 1 3 8 0, .read 0 3 8 0, .exit 1]

theorem processes_refine_desks_shared :
    ShowsDesks (deskRun formattedDisk.rootDnode (FileState.boot
        ([Call.openRelative [102] 3 1 0].foldl exec (newState formattedDisk)).fs noProcs)
      ⟨storeRun (newState formattedDisk) (rootStore formattedDisk) [.openRelative [102] 3 1 0], ∅,
        fun _ => newDesk 0 0⟩ deskCalls)
      ((runSteps fileStep (FileState.boot
        ([Call.openRelative [102] 3 1 0].foldl exec (newState formattedDisk)).fs noProcs)
        deskCalls).getD (FileState.boot
        ([Call.openRelative [102] 3 1 0].foldl exec (newState formattedDisk)).fs noProcs)) :=
  processes_refine_desks (show 32768 ≤ formatLimit by decide) formattedDisk_new
    (by decide +kernel) noProcs (fun _ => newDesk 0 0) (runSteps_getD (by decide +kernel))
    (by decide +kernel) (by decide +kernel)

end DzOS.Proofs.Fs
