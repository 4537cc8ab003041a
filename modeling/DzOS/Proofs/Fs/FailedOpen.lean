import DzOS.Lib.Outcome
import DzOS.Lib.Run
import DzOS.Proofs.Fs.FileCalls
import DzOS.Proofs.Fs.Directory
import DzOS.Proofs.Fs.Names
import DzOS.Proofs.Fs.NewEntity

/-!
# `DzOS.Proofs.Fs.FailedOpen`: what a failed open leaves behind

`file_open` takes a descriptor, then `dzfs_open_relative` may create the file on the disk, then
`fs_open` takes an inode. The last step fails when all inodes are in use, and nothing undoes the
second one.

`dzfsOpenRelative_same_iff` says when the second step keeps the disk: the path does not name a
new entity for which there is room. In that case a failed open changes nothing, and in no other
case (`failed_open_unchanged_iff`). This holds on any disk that a run reaches, whatever the run
did to it.
-/

set_option autoImplicit false

namespace DzOS.Proofs.Fs

open DzOS.Lib DzOS.Fs DzOS.Sched

variable {k : Nat} {p proc : FileProc} {r : InodePtr} {fd : Fin MAX_OPEN_FILES} {fs : Dzfs}
  {date : UInt64} {s : FileState} {path : List UInt8} {flags : UInt32} {vars : FsVars}

/-! ### A creation changes the disk -/

section
variable {fs : Dzfs} {cur : Nat}

/-- The entry that a creation uses is 0 before. -/
theorem contentDnode_count {b : Bytes} (hfull : folderContentCount b ≠ DZFS_MAX_DIR_CONTENTS) :
    contentDnode b (folderContentCount b) = 0 := by
  unfold folderContentCount at hfull ⊢
  cases hscan : scan (fun i => contentDnode b i = 0) DZFS_MAX_DIR_CONTENTS 0 with
  | none =>
    rw [hscan] at hfull
    exact absurd rfl hfull
  | some k =>
    have hk := (scan_eq_some hscan).2.2.1
    simpa using hk

/-- The first byte of a new entity is 1 or 2. -/
theorem newDnode_bit_two (name : List UInt8) (parent : Nat) (flags : UInt32) (date : UInt64) :
    (newDnode name parent flags date 0).toNat.testBit 2 = false := by
  rcases newDnode_type name parent flags date with htype | htype
  · rw [entityType] at htype
    rw [htype]
    rfl
  · rw [entityType] at htype
    rw [htype]
    rfl

/-- A creation changes the disk, whatever is on it: the entry of the folder is a new one, and
where the folder's block is also the new entity's, the bit of the block changes. -/
theorem createEntity_ne (hcov : covered fs ≤ 2 ^ 32) (hroom : Room fs cur) (name : List UInt8)
    (flags : UInt32) (date : UInt64) (parent : Nat) :
    (createEntity fs cur (fs.disk cur) name flags date parent).2 ≠ fs := by
  intro heq
  have hdisk := congrArg Prod.snd (createEntity_eq hroom name flags date parent)
  obtain ⟨hfull, hfree⟩ := hroom
  rcases blockAlloc_spec fs with halloc | ⟨n, fs₁, halloc, hn, hlt, hbit, -, hbits⟩
  · rw [halloc] at hfree
    exact hfree rfl
  · rw [heq, halloc] at hdisk
    have hblock : ∀ m, fs.disk m = ((fs₁.writeBlock cur ((fs.disk cur).setLE 4
        (contentOffset (folderContentCount (fs.disk cur))) n)).writeBlock n
        (newDnode name cur flags date)).disk m := fun m => congrArg (fun fs => fs.disk m) hdisk
    by_cases hcur : cur = n
    · have hn' : fs.disk n = newDnode name cur flags date := by
        rw [hblock n]
        exact Function.update_self _ _ _
      by_cases hbitmap : bitmapBlock n = n
      · -- The only block that holds its own bit is block 2.
        have htwo : n = 2 := by
          have hdef : bitmapBlock n = n / 8 / 4096 + 2 := rfl
          omega
        rw [bit, hbitmap, hn', htwo] at hbit
        have hbyte := newDnode_bit_two name cur flags date
        exact Bool.false_ne_true (hbyte.symm.trans hbit)
      · have hsame : fs.disk (bitmapBlock n) = fs₁.disk (bitmapBlock n) := by
          rw [hblock (bitmapBlock n)]
          refine (Function.update_of_ne hbitmap _ _).trans (Function.update_of_ne ?_ _ _)
          rwa [hcur]
        have hclear := hbits n
        rw [bit, hsame] at hbit
        rw [bit, hbit] at hclear
        simp at hclear
    · have hfolder : fs.disk cur = (fs.disk cur).setLE 4
          (contentOffset (folderContentCount (fs.disk cur))) n :=
        (hblock cur).trans ((Function.update_of_ne hcur _ _).trans (Function.update_self _ _ _))
      have hentry := contentDnode_setLE (fs.disk cur) (folderContentCount (fs.disk cur))
        (folderContentCount (fs.disk cur)) n (lt_of_lt_of_le hlt hcov)
      rw [← hfolder, if_pos rfl, contentDnode_count hfull] at hentry
      exact hn hentry.symm

end

/-! ### Opening -/

section
variable {fs : Dzfs} {path : List UInt8} {relativeTo : Nat} {flags : UInt32}

/-- An open relative to a folder keeps the disk unless it creates an entity. -/
theorem dzfsOpenRelative_same_of_ne (hroot : fs.rootDnode ≠ 0) (hcov : covered fs ≤ 2 ^ 32)
    (hrel : relativeTo ≠ 0) (date : UInt64) :
    (dzfsOpenRelative fs flags date path relativeTo).2 = fs ↔
      createdName fs path relativeTo flags = none := by
  rw [dzfsOpenRelative_eq hroot flags date path hrel, createdName]
  split
  · rename_i hslashes
    have hend : pathEnd fs path relativeTo = .self (openStart fs path relativeTo).1 := by
      rw [pathEnd, hslashes.2]
      rfl
    rw [hend]
    simp
  · cases hend : pathEnd fs path relativeTo with
    | self folder => simp [openAt]
    | found folder dnode => simp [openAt]
    | nowhere => simp [openAt]
    | missing folder name =>
      rw [openAt]
      split
      · rename_i hcreate
        by_cases hroom : Room fs folder
        · have hne := createEntity_ne hcov hroom name flags date (openStart fs path relativeTo).1
          simp [hne, hcreate, hroom]
        · have hsame := (createEntity_of_no_room hroom name flags date
            (openStart fs path relativeTo).1).2
          simp [hsame, hroom]
      · rename_i hcreate
        simp [hcreate]

/-- An open keeps the disk unless it creates an entity. Without a folder to start from it fails
at once. -/
theorem dzfsOpenRelative_same_iff (hroot : fs.rootDnode ≠ 0) (hcov : covered fs ≤ 2 ^ 32)
    (date : UInt64) :
    (dzfsOpenRelative fs flags date path relativeTo).2 = fs ↔
      (relativeTo = 0 ∧ path.head? ≠ some SLASH) ∨
        createdName fs path relativeTo flags = none := by
  by_cases hrel : relativeTo = 0
  · cases path with
    | nil =>
      rw [dzfsOpenRelative, openFrom, if_pos hrel]
      simp [hrel]
    | cons c path =>
      by_cases hc : c = SLASH
      · have hopen : dzfsOpenRelative fs flags date (c :: path) relativeTo
            = dzfsOpenRelative fs flags date (c :: path) fs.rootDnode := by
          rw [dzfsOpenRelative, dzfsOpenRelative, if_pos hc, if_pos hc]
        have hname : createdName fs (c :: path) relativeTo flags
            = createdName fs (c :: path) fs.rootDnode flags := by
          rw [hc, createdName_slash, createdName_slash]
        rw [hopen, hname, dzfsOpenRelative_same_of_ne hroot hcov hroot]
        simp [hc]
      · rw [dzfsOpenRelative, if_neg hc, openFrom, if_pos hrel]
        simp [hrel, hc]
  · rw [dzfsOpenRelative_same_of_ne hroot hcov hrel]
    simp [hrel]

end

/-- An open that finds a descriptor and gets an inode. -/
theorem fileOpen_ok {s : FsVars} {inode : InodePtr} (hfd : procAllocateFd p = some fd)
    (hopen : fsOpen s path (some p.workingDirectory) (fsFlags flags) date =
      .ok (some inode, vars)) :
    fileOpen s p path flags date = .ok (fd, vars, p.setFile fd {
      kind := .FD_INODE inode
      offset := 0
      readble := flags &&& O_WRONLY = 0
      writable := flags &&& O_WRONLY ≠ 0 ∨ flags &&& O_RDWR ≠ 0 }) := by
  unfold fileOpen
  rw [hfd]
  dsimp only
  rw [hopen]

/-- An open that finds a descriptor and gets no inode. -/
theorem fileOpen_refused {s : FsVars} (hfd : procAllocateFd p = some fd)
    (hopen : fsOpen s path (some p.workingDirectory) (fsFlags flags) date = .ok (none, vars)) :
    fileOpen s p path flags date = .ok (-1, vars, p) := by
  unfold fileOpen
  rw [hfd]
  dsimp only
  rw [hopen]

/-- A failed `file_open` has no free descriptor, or gets no inode. -/
theorem fileOpen_failed {s : FsVars} (h : fileOpen s p path flags date = .ok (-1, vars, proc)) :
    (procAllocateFd p = none ∧ vars = s ∧ proc = p) ∨
      (procAllocateFd p ≠ none ∧ proc = p ∧ vars = { s with
        fs := (dzfsOpenRelative s.fs (fsFlags flags) date path
          (s.inodes p.workingDirectory).dnode).2 }) := by
  unfold fileOpen at h
  split at h
  · rename_i hfd
    cases h
    exact Or.inl ⟨hfd, rfl, rfl⟩
  · rename_i fd hfd
    have hsome : procAllocateFd p ≠ none := by
      rw [hfd]
      exact nofun
    split at h
    · cases h
    · rename_i hopen
      cases h
      exact Or.inr ⟨hsome, rfl, fsOpen_none hopen⟩
    · -- A descriptor is not -1.
      simp only [Except.ok.injEq, Prod.mk.injEq] at h
      obtain ⟨hfd, -⟩ := h
      omega

/-- No call on the disk and no file call changes what `dzfs_new` chose. -/
theorem run_vars {disk : Nat → Bytes} {blocks : Nat} (hnew : dzfsNew disk blocks date = (.OK, fs))
    {d : FsState} (hd : Reachable (fun _ _ => True) (newState fs) d) {procs : ProcPtr → FileProc}
    (hs : FileReachable (fun _ _ => True) (FileState.boot d.fs procs) s) :
    s.vars.fs.rootDnode ≠ 0 ∧ covered s.vars.fs ≤ 2 ^ 32 := by
  have hvars : SameVars fs s.vars.fs := hd.sameVars.trans hs.sameVars
  obtain ⟨hbitmap, hroot⟩ := dzfsNew_vars hnew
  refine ⟨?_, ?_⟩
  · rw [hvars.rootDnode, hroot]
    omega
  · rw [covered, hvars.freeBitmapBlocks, hbitmap, bitmapBlocksFor]
    have hdiv := Nat.mul_div_le ((blocks + DZFS_BITSET_COVERED_BLOCKS - 1) % 2 ^ 32)
      DZFS_BITSET_COVERED_BLOCKS
    have hmod := Nat.mod_lt (blocks + DZFS_BITSET_COVERED_BLOCKS - 1) (Nat.two_pow_pos 32)
    omega

/-- A failed `file_open` changes nothing exactly if it has no descriptor, or no folder to start
from, or names no new entity for which there is room. -/
theorem failed_open_unchanged_iff {disk : Nat → Bytes} {blocks : Nat} {date₀ : UInt64}
    {fs : Dzfs} (hnew : dzfsNew disk blocks date₀ = (.OK, fs)) {d : FsState}
    (hd : Reachable (fun _ _ => True) (newState fs) d) {procs : ProcPtr → FileProc}
    {s : FileState} (hs : FileReachable (fun _ _ => True) (FileState.boot d.fs procs) s)
    {p : ProcPtr} {path : List UInt8} {flags : UInt32} {date : UInt64} {vars : FsVars}
    {proc : FileProc}
    (hopen : fileOpen s.vars (s.procs p) path flags date = .ok (-1, vars, proc)) :
    (vars = s.vars ∧ proc = s.procs p) ↔
      procAllocateFd (s.procs p) = none ∨
        ((s.vars.inodes (s.wd p)).dnode = 0 ∧ path.head? ≠ some SLASH) ∨
        createdName s.vars.fs path (s.vars.inodes (s.wd p)).dnode (fsFlags flags) = none := by
  obtain ⟨hroot, hcov⟩ := run_vars hnew hd hs
  have hsame : (dzfsOpenRelative s.vars.fs (fsFlags flags) date path
      (s.vars.inodes (s.wd p)).dnode).2 = s.vars.fs ↔ _ :=
    dzfsOpenRelative_same_iff hroot hcov date
  rcases fileOpen_failed hopen with ⟨hfd, rfl, rfl⟩ | ⟨hfd, rfl, rfl⟩
  · simp [hfd]
  · rw [← hsame]
    constructor
    · rintro ⟨hvars, -⟩
      exact Or.inr (congrArg FsVars.fs hvars)
    · intro h
      have hfs := h.resolve_left hfd
      refine ⟨?_, rfl⟩
      show FsVars.mk (dzfsOpenRelative s.vars.fs (fsFlags flags) date path
        (s.vars.inodes (s.wd p)).dnode).2 s.vars.inodes = s.vars
      rw [hfs]

/-- The calls of a list lead on from a reachable state. -/
theorem FileReachable.run {s₀ s' : FileState} {calls : List FileCall}
    (h : FileReachable (fun _ _ => True) s₀ s) (hrun : runSteps fileStep s calls = some s') :
    FileReachable (fun _ _ => True) s₀ s' := by
  induction calls generalizing s with
  | nil =>
    cases hrun
    exact h
  | cons c calls ih =>
    obtain ⟨t, hcall, hrest⟩ := runSteps_cons_some hrun
    exact ih (h.call c trivial hcall) hrest

/-- The first process creates a folder beside its executable, and opens both. -/
def busyCalls : List FileCall :=
  [.exec none 0 [47, 102] true 0 0, .mkdir 0 [97] 0, .open 0 [102] 0 0, .open 0 [97] 0 0]

/-- The state after these calls, on a disk with the file `f`. -/
def busyState : FileState :=
  (runSteps fileStep (FileState.boot oneFileState.fs noProcs) busyCalls).getD
    (FileState.boot oneFileState.fs noProcs)

/-- The process then opens `a/x`, which is not there. -/
theorem failed_open_unchanged_iff_missing : 0 ∈ busyState.live ∧
    ∃ vars proc, fileOpen busyState.vars (busyState.procs 0) [97, 47, 120] O_RDWR 0
        = .ok (-1, vars, proc) ∧
      vars = busyState.vars ∧ proc = busyState.procs 0 := by
  have hfails : (fileOpen busyState.vars (busyState.procs 0) [97, 47, 120] O_RDWR 0).toOption.any
      fun r => r.1 = -1 := by decide +kernel
  obtain ⟨⟨fd, vars, proc⟩, hres, hfd⟩ := (Option.any_eq_true _ _).mp hfails
  obtain rfl := of_decide_eq_true hfd
  have hopen := eq_ok_of_toOption hres
  refine ⟨by decide +kernel, vars, proc, hopen, ?_⟩
  have hrun : FileReachable (fun _ _ => True) (FileState.boot oneFileState.fs noProcs) busyState :=
    FileReachable.start.run (runSteps_getD (by decide +kernel))
  exact (failed_open_unchanged_iff formattedDisk_new
    (d := oneFileState) (.call (.openRelative [102] 3 1 0) .start trivial) hrun (p := 0)
    hopen).mpr (Or.inr (Or.inr (by decide +kernel)))

/-! ### A full inode table -/

/-- A name of one letter. -/
def letter (k : Nat) : List UInt8 := [UInt8.ofNat (65 + k)]

theorem letter_inj {j : Nat} (hj : j < 64) (hk : k < 64) (h : letter j = letter k) : j = k := by
  have hbyte := congrArg UInt8.toNat (List.head_eq_of_cons_eq h)
  simp only [UInt8.toNat_ofNat'] at hbyte
  omega

theorem letter_good (hk : k < 64) : GoodName (letter k) := by
  have h : ∀ k < 64, letter k ≠ [] ∧ letter k ≠ [DOT] ∧ letter k ≠ [DOT, DOT] ∧
      SLASH ∉ letter k ∧ 0 ∉ letter k ∧ (letter k).length ≤ DZFS_MAX_FILENAME := by decide
  obtain ⟨hnil, hdot, hup, hslash, hnul, hlen⟩ := h k hk
  exact ⟨hnil, hdot, hup, hslash, hnul, hlen⟩

/-- The end of the path with one letter that the folder does not have. -/
theorem pathEnd_letter {cur : Nat} (hk : k < 64)
    (hno : folderLookupName fs (fs.disk cur) (letter k) = 0) :
    pathEnd fs (letter k) cur = .missing cur (letter k) := by
  have hgood := letter_good hk
  have hparts := parts_of_not_mem hgood.ne_nil hgood.no_slash
  have hne : UInt8.ofNat (65 + k) ≠ SLASH := fun h => hgood.no_slash (h ▸ List.mem_cons_self)
  have hstart : openStart fs (letter k) cur = (cur, letter k) := openStart_of_ne fs hne [] cur
  rw [pathEnd, hstart]
  show resolve fs cur (parts (letter k)) = _
  rw [hparts, resolve, if_neg hgood.ne_dot, if_neg hgood.ne_up, walkParts_singleton, if_pos hno]

/-- A disk with a file for each of the first `k` letters in the root folder, and room for
more. -/
structure Letters (s : FsState) (ls : Nat → List Nat) (nm : Nat → List UInt8) (k : Nat) : Prop
    extends Named s.fs s.entities ls nm where
  run : Reachable (fun _ _ => True) (newState formattedDisk) s
  count : (ls s.fs.rootDnode).length = k
  letters : ∀ j < k, ∃ n ∈ ls s.fs.rootDnode, nm n = letter j
  only : ∀ n ∈ ls s.fs.rootDnode, ∃ j < k, nm n = letter j
  room : ∃ free : Finset Nat, 100 ≤ free.card + k ∧ ∀ m ∈ free, m < covered s.fs ∧ bit s.fs m = true

section
variable {s : FsState} {ls : Nat → List Nat} {nm : Nat → List UInt8} {k : Nat}

section

variable (h : Letters s ls nm k) (hk : k < 64)

include h hk

/-- The next letter is not there yet. -/
theorem Letters.lookup : folderLookupName s.fs (s.fs.disk s.fs.rootDnode) (letter k) = 0 := by
  by_contra hne
  have hmem := (h.lists _ h.root_mem h.root_folder).lookup_mem hne
  have hmatch := lookupFrom_matches s.fs _ (letter k) _ _ hne
  obtain ⟨j, hj, hname⟩ := h.only _ hmem
  have hgood := letter_good hk
  have hgood' := h.good _ _ hmem
  have hname' := headerName_of_matches hgood'.no_nul hgood'.length_le (h.named _ _ hmem)
  have hname'' := headerName_of_matches hgood.no_nul hgood.length_le hmatch
  have hsame : letter k = letter j := by
    rw [← hname'', ← hname, ← hname']
    rfl
  have heq := letter_inj hk (lt_trans hj hk) hsame
  omega

/-- There is room for the next letter. -/
theorem Letters.hasRoom : Room s.fs s.fs.rootDnode := by
  constructor
  · have hcount := (h.lists _ h.root_mem h.root_folder).count
    rw [hcount, h.count]
    show k ≠ 957
    omega
  · intro halloc
    obtain ⟨free, hcard, hfree⟩ := h.room
    have hpos : 0 < free.card := by omega
    obtain ⟨m, hm⟩ := Finset.card_pos.mp hpos
    have hzero := h.low 0 (Nat.pos_of_ne_zero (h.ne_zero h.root_mem))
    have hused := bit_of_blockAlloc_eq_zero hzero halloc (hfree m hm).1
    rw [(hfree m hm).2] at hused
    cases hused

/-- The path of the next letter names a new file. -/
theorem Letters.createdName :
    createdName s.fs (letter k) s.fs.rootDnode DZFS_O_CREATE = some (letter k) :=
  createdName_of_missing (pathEnd_letter hk (h.lookup hk)) (by decide) (h.hasRoom hk)

/-- The call that creates the file with the next letter. -/
theorem Letters.creation :
    ∃ n fs', dzfsOpenRelative s.fs DZFS_O_CREATE 0 (letter k) s.fs.rootDnode
        = (⟨.OK, some n, some s.fs.rootDnode⟩, fs') ∧
      Creation s.fs fs' s.entities ls s.fs.rootDnode n (letter k) DZFS_O_CREATE 0 := by
  have hname := h.createdName hk
  have hfits : NewNameFits s.fs (letter k) s.fs.rootDnode DZFS_O_CREATE := by
    intro name hmem
    rw [hname] at hmem
    obtain rfl := Option.some.inj hmem
    have hlen := (letter_good hk).length_le
    exact lt_of_le_of_lt hlen (by decide)
  have hroot : s.fs.rootDnode ∈ s.entities ∧
      entityType (s.fs.disk s.fs.rootDnode) = DZFS_ENTITY_FOLDER := ⟨h.root_mem, h.root_folder⟩
  rcases ho : dzfsOpenRelative s.fs DZFS_O_CREATE 0 (letter k) s.fs.rootDnode with ⟨out, fs'⟩
  rcases h.openRelative_creation hroot hfits ho with
    ⟨hsame, -⟩ | ⟨cur, n, name, hend, -, -, rfl, hc⟩
  · have hcov : covered s.fs ≤ 2 ^ 32 := le_trans h.covered_le (by decide)
    have hiff := (dzfsOpenRelative_same_iff (h.ne_zero h.root_mem) hcov 0).mp
      ((congrArg Prod.snd ho).trans hsame)
    rw [hname] at hiff
    rcases hiff with ⟨hzero, -⟩ | hnone
    · exact absurd hzero (h.ne_zero h.root_mem)
    · cases hnone
  · rw [pathEnd_letter hk (h.lookup hk)] at hend
    obtain ⟨rfl, rfl⟩ := PathEnd.missing.inj hend
    exact ⟨n, fs', rfl, hc⟩

/-- The disk with the next letter. -/
theorem Letters.create : ∃ s' ls' nm', Letters s' ls' nm' (k + 1) := by
  obtain ⟨n, fs', ho, hc⟩ := h.creation hk
  have hrun := h.run.call (.openRelative (letter k) s.fs.rootDnode DZFS_O_CREATE 0) trivial
  rw [exec_openRelative ho] at hrun
  have hnamed := h.toNamed.create h.root_mem h.root_folder hc (letter_good hk) (h.lookup hk)
  have hold : ∀ m ∈ ls s.fs.rootDnode, m ≠ n := by
    rintro m hm rfl
    exact hc.not_mem (h.entity_of_listed hm).1
  have hlist : Function.update ls s.fs.rootDnode (ls s.fs.rootDnode ++ [n]) fs'.rootDnode
      = ls s.fs.rootDnode ++ [n] := by
    rw [hc.only.2, Function.update_self]
  refine ⟨_, _, _, hnamed, hrun, ?_, ?_, ?_, ?_⟩
  · show (Function.update ls s.fs.rootDnode _ fs'.rootDnode).length = k + 1
    rw [hlist, List.length_append, h.count]
    rfl
  · intro j hj
    show ∃ m ∈ Function.update ls s.fs.rootDnode _ fs'.rootDnode, _
    rw [hlist]
    rcases Nat.lt_succ_iff_lt_or_eq.mp hj with hj | rfl
    · obtain ⟨m, hm, hletter⟩ := h.letters j hj
      refine ⟨m, List.mem_append_left _ hm, ?_⟩
      rw [Function.update_of_ne (hold m hm), hletter]
    · exact ⟨n, List.mem_append_right _ (List.mem_singleton_self n),
        Function.update_self _ _ _⟩
  · intro m hm
    change m ∈ Function.update ls s.fs.rootDnode _ fs'.rootDnode at hm
    rw [hlist] at hm
    rcases List.mem_append.mp hm with hm | hm
    · obtain ⟨j, hj, hletter⟩ := h.only m hm
      refine ⟨j, Nat.lt_succ_of_lt hj, ?_⟩
      rw [Function.update_of_ne (hold m hm), hletter]
    · obtain rfl := List.mem_singleton.mp hm
      exact ⟨k, Nat.lt_succ_self k, Function.update_self _ _ _⟩
  · obtain ⟨free, hcard, hfree⟩ := h.room
    refine ⟨free.erase n, ?_, fun m hm => ?_⟩
    · have herase := Finset.pred_card_le_card_erase (s := free) (a := n)
      omega
    · obtain ⟨hne, hm⟩ := Finset.mem_erase.mp hm
      obtain ⟨hlt, hbit⟩ := hfree m hm
      refine ⟨lt_of_lt_of_eq hlt hc.only.1.symm, ?_⟩
      rw [hc.bits m hlt, hbit]
      simpa using hne

end

end

/-- The disk after `dzfs_new`. -/
theorem letters_zero : Letters (newState formattedDisk) (fun _ => []) (fun _ => []) 0 := by
  have hformat : Formatted formattedDisk :=
    dzfsNew_formatted (show 32768 ≤ formatLimit by decide) formattedDisk_new
  have hnone : ∀ n, n ∉ ([] : List Nat) := fun n => List.not_mem_nil
  have hnamed : Named formattedDisk {formattedDisk.rootDnode} (fun _ => []) fun _ => [] :=
    ⟨hformat.tree, fun _ n hn => absurd hn (hnone n), fun _ n hn => absurd hn (hnone n),
      fun _ n _ hn => absurd hn (hnone n)⟩
  refine ⟨hnamed, .start, rfl, fun j hj => absurd hj (Nat.not_lt_zero j),
    fun n hn => absurd hn (hnone n), Finset.Ico 4 104, by decide, fun m hm => ?_⟩
  obtain ⟨h4, h104⟩ := Finset.mem_Ico.mp hm
  have hlt : m < covered formattedDisk := lt_trans h104 (by decide)
  have hbits := dzfsNew_bits (show 32768 ≤ DZFS_BITSET_COVERED_BLOCKS by decide) formattedDisk_new
  refine ⟨hlt, ((hbits.2 m hlt).mpr ⟨?_, ?_⟩)⟩
  · show 1 + 3 ≤ m
    omega
  · omega

/-- There is a disk with a file for each of the first `k` letters. -/
theorem exists_letters (hk : k ≤ 64) : ∃ s ls nm, Letters s ls nm k := by
  induction k with
  | zero => exact ⟨_, _, _, letters_zero⟩
  | succ k ih =>
    obtain ⟨s, ls, nm, h⟩ := ih (by omega)
    exact h.create (by omega)

/-- The inodes in use. -/
def usedInodes (s : FsVars) : Finset InodePtr := {i | (s.inodes i).type ≠ .EMPTY}

/-- `fs_open` of an entity that is not open takes an empty inode. -/
theorem fsOpen_taken {s : FsVars} {r : Option InodePtr} {n parent : Nat}
    (hopen : dzfsOpenRelative s.fs flags date path (relativeDnode s r)
      = (⟨.OK, some n, some parent⟩, s.fs)) (htype : entityType (s.fs.disk n) = DZFS_ENTITY_FILE ∨
      entityType (s.fs.disk n) = DZFS_ENTITY_FOLDER)
    (habsent : ∀ j, (s.inodes j).type ≠ .EMPTY → (s.inodes j).dnode ≠ n)
    (hroom : (usedInodes s).card < MAX_INODES) :
    ∃ i inode, (s.inodes i).type = .EMPTY ∧ inode.type ≠ .EMPTY ∧ inode.dnode = n ∧
      inode.referenceCount = 1 ∧
      fsOpen s path r flags date = .ok (some i, s.setInode i inode) := by
  have hfound := findInode_cases s.inodes n
  rw [fsOpen, hopen]
  show ∃ i inode, _ ∧ _ ∧ _ ∧ _ ∧ openInode s n parent = _
  rw [openInode]
  generalize findInode s.inodes n (List.finRange MAX_INODES) none = found at hfound
  cases hfound with
  | found used dnode => exact absurd dnode (habsent _ used)
  | full used =>
    have hall : usedInodes s = Finset.univ := Finset.filter_true_of_mem fun j _ => used j
    rw [hall, Finset.card_univ, Fintype.card_fin] at hroom
    exact absurd hroom (lt_irrefl _)
  | @free i empty _ =>
    have hstat : (dzfsStat s.fs n).1 = .OK := dzfsStat_ok htype
    have hkind : ∃ type, inodeType (dzfsStat s.fs n).2.type = some type := by
      rw [dzfsStat_type]
      rcases htype with htype | htype
      · exact ⟨.FILE, by rw [htype]; rfl⟩
      · exact ⟨.DIRECTORY, by rw [htype]; rfl⟩
    obtain ⟨type, hkind⟩ := hkind
    refine ⟨i, ⟨type, n, parent, (dzfsStat s.fs n).2.size, 1⟩, empty, inodeType_ne_empty hkind,
      rfl, rfl, ?_⟩
    simp [hstat, hkind]

/-- A new inode with one reference is empty again after a close. -/
theorem fsClose_taken {s : FsVars} {i : InodePtr} {inode : FsInode}
    (hzero : s.inodes i = FsInode.zero) (hcount : inode.referenceCount = 1) :
    fsClose (s.setInode i inode) i = s := by
  have hself : (s.setInode i inode).inodes i = inode := Function.update_self _ _ _
  rw [fsClose, hself, hcount, if_pos (by decide)]
  show FsVars.mk s.fs (Function.update (Function.update s.inodes i inode) i FsInode.zero) = s
  rw [Function.update_idem, ← hzero, Function.update_eq_self]

section
variable {d : FsState} {ls : Nat → List Nat} {nm : Nat → List UInt8} {k : Nat}

/-- A call of `exec` for an accepted program. -/
theorem fileStep_exec {parent : Option ProcPtr} {child : ProcPtr} {serial : Nat}
    (hlive : ∀ p ∈ parent, p ∈ s.live) (hfree : child ∉ s.live)
    (hcard : s.live.card < MAX_PROCESSES)
    (hexec : procExecFiles s.vars path (parent.map s.wd) true serial date
      = .ok (some proc, vars)) :
    fileStep s (.exec parent child path true serial date)
      = some ⟨vars, insert child s.live, Function.update s.procs child proc⟩ := by
  have hcaller : ¬ ∃ p ∈ (FileCall.exec parent child path true serial date).caller,
      p ∉ s.live := fun ⟨p, hp, hnot⟩ => hnot (hlive p hp)
  have hslot : ¬ (child ∈ s.live ∨ MAX_PROCESSES ≤ s.live.card) := by
    rintro (hmem | hle)
    · exact hfree hmem
    · omega
  change procExecFiles s.vars path (parent.map fun p => (s.procs p).workingDirectory) true serial
    date = _ at hexec
  rw [fileStep, if_neg hcaller]
  simp only [true_and, if_neg hslot, hexec]

/-- The processes `0` to `k - 1` work in the root folder, and no other inode is in use. -/
structure Started (d : FsState) (r : InodePtr) (s : FileState) (k : Nat) : Prop where
  run : FileReachable (fun _ _ => True) (FileState.boot d.fs noProcs) s
  fs : s.vars.fs = d.fs
  live : s.live = Finset.range k
  procs : ∀ p < k, s.procs p = ⟨standardFiles 0, r⟩
  root : (s.vars.inodes r).type ≠ .EMPTY ∧ (s.vars.inodes r).dnode = d.fs.rootDnode
  other : ∀ j ≠ r, s.vars.inodes j = FsInode.zero

/-- The executable of the processes. -/
theorem Letters.executable (h : Letters d ls nm k) (hk : 0 < k) :
    ∃ n ∈ ls d.fs.rootDnode, ∀ flags date,
      dzfsOpenRelative d.fs flags date (letter 0) d.fs.rootDnode
        = (⟨.OK, some n, some d.fs.rootDnode⟩, d.fs) := by
  obtain ⟨n, hn, hname⟩ := h.letters 0 hk
  refine ⟨n, hn, fun flags date => ?_⟩
  rw [← hname]
  exact h.open_name hn flags date

/-- The first process. -/
theorem Letters.start (h : Letters d ls nm k) (hk : 0 < k) : ∃ r s, Started d r s 1 := by
  obtain ⟨n, hn, hexec⟩ := h.executable hk
  have hboot : ∀ j, ((FileState.boot d.fs noProcs).vars.inodes j).type = .EMPTY := fun _ => rfl
  have hroom : (usedInodes (FileState.boot d.fs noProcs).vars).card < MAX_INODES := by
    rw [usedInodes, Finset.filter_false_of_mem fun j _ => not_not.mpr (hboot j)]
    decide
  -- The executable is opened and closed, then the root folder is opened.
  have hpath : dzfsOpenRelative d.fs 0 0 (SLASH :: letter 0) d.fs.rootDnode
      = (⟨.OK, some n, some d.fs.rootDnode⟩, d.fs) := by
    rw [dzfsOpenRelative, if_pos rfl, if_neg (letter_good (by decide)).ne_nil, hexec]
  have hslash : dzfsOpenRelative d.fs DZFS_O_DIR 0 [SLASH] d.fs.rootDnode
      = (⟨.OK, some d.fs.rootDnode, some d.fs.rootDnode⟩, d.fs) := by
    rw [dzfsOpenRelative, if_pos rfl, if_pos rfl]
  obtain ⟨i, inode, -, -, -, hcount, hopen⟩ := fsOpen_taken
    (s := (FileState.boot d.fs noProcs).vars) (r := none) hpath
    (h.typed n (h.entity_of_listed hn).1) (fun j hj => absurd (hboot j) hj) hroom
  obtain ⟨r, root, -, hused, hdnode, -, hroot⟩ := fsOpen_taken
    (s := (FileState.boot d.fs noProcs).vars) (r := none) hslash
    (Or.inr h.root_folder) (fun j hj => absurd (hboot j) hj) hroom
  have hclose := fsClose_taken (s := (FileState.boot d.fs noProcs).vars) (i := i) rfl hcount
  refine ⟨r, ⟨(FileState.boot d.fs noProcs).vars.setInode r root, {0},
    Function.update noProcs 0 ⟨standardFiles 0, r⟩⟩, ?_, rfl, rfl, ?_, ?_, ?_⟩
  · refine FileReachable.start.call (.exec none 0 (SLASH :: letter 0) true 0 0) trivial ?_
    refine fileStep_exec nofun (Finset.notMem_empty 0) (show 0 < 64 by decide) ?_
    show procExecFiles (FileState.boot d.fs noProcs).vars (SLASH :: letter 0) none true 0 0 = _
    rw [procExecFiles, hopen]
    simp only [hclose, hroot]
    rfl
  · intro p hp
    obtain rfl : p = 0 := by omega
    show Function.update noProcs 0 ⟨standardFiles 0, r⟩ 0 = _
    rw [Function.update_self]
  · rw [setInode_self]
    exact ⟨hused, hdnode⟩
  · intro j hj
    exact setInode_of_ne _ hj _

/-- One more process, with the process 0 as its parent. -/
theorem Letters.fork (h : Letters d ls nm k) (hk : 0 < k) {r : InodePtr} {s : FileState} {m : Nat}
    (hs : Started d r s m) (hm : 0 < m) (hlt : m < 64) : ∃ s', Started d r s' (m + 1) := by
  obtain ⟨n, hn, hexec⟩ := h.executable hk
  obtain ⟨hmem, hne⟩ := h.entity_of_listed hn
  have hwd : s.wd 0 = r := by
    rw [FileState.wd, hs.procs 0 hm]
  have hpath : dzfsOpenRelative s.vars.fs 0 0 (letter 0) (relativeDnode s.vars (some r))
      = (⟨.OK, some n, some d.fs.rootDnode⟩, s.vars.fs) := by
    rw [relativeDnode, hs.root.2, hs.fs]
    exact hexec 0 0
  have habsent : ∀ j, (s.vars.inodes j).type ≠ .EMPTY → (s.vars.inodes j).dnode ≠ n := by
    intro j hj hdnode
    by_cases hjr : j = r
    · rw [hjr, hs.root.2] at hdnode
      exact hne hdnode.symm
    · rw [hs.other j hjr] at hj
      exact hj rfl
  have hroom : (usedInodes s.vars).card < MAX_INODES := by
    have hsub : usedInodes s.vars ⊆ {r} := by
      intro j hj
      by_contra hjr
      rw [Finset.mem_singleton] at hjr
      have hused := (Finset.mem_filter.mp hj).2
      rw [hs.other j hjr] at hused
      exact hused rfl
    have hcard := Finset.card_le_card hsub
    rw [Finset.card_singleton] at hcard
    exact lt_of_le_of_lt hcard (by decide)
  have htype := h.typed n hmem
  rw [← hs.fs] at htype
  obtain ⟨i, inode, hempty, -, -, hcount, hopen⟩ := fsOpen_taken hpath htype habsent hroom
  have hir : i ≠ r := by
    rintro rfl
    exact hs.root.1 hempty
  have hclose := fsClose_taken (hs.other i hir) hcount
  refine ⟨⟨fsDup s.vars r, insert m s.live, Function.update s.procs m ⟨standardFiles 0, r⟩⟩,
    ?_, hs.fs, ?_, ?_, ?_, ?_⟩
  · refine hs.run.call (.exec (some 0) m (letter 0) true 0 0) trivial ?_
    refine fileStep_exec ?_ ?_ ?_ ?_
    · intro p hp
      obtain rfl := Option.some.inj hp
      rw [hs.live, Finset.mem_range]
      exact hm
    · rw [hs.live, Finset.mem_range]
      exact lt_irrefl m
    · rw [hs.live, Finset.card_range]
      exact hlt
    · rw [Option.map_some, hwd, procExecFiles, hopen]
      simp only [hclose]
      rfl
  · show insert m s.live = _
    rw [hs.live, Finset.range_add_one]
  · intro p hp
    show Function.update s.procs m _ p = _
    rcases Nat.lt_succ_iff_lt_or_eq.mp hp with hp | rfl
    · have hpm : p ≠ m := by omega
      rw [Function.update_of_ne hpm, hs.procs p hp]
    · rw [Function.update_self]
  · show ((s.vars.setInode r _).inodes r).type ≠ _ ∧ ((s.vars.setInode r _).inodes r).dnode = _
    rw [setInode_self]
    exact hs.root
  · intro j hj
    exact (setInode_of_ne _ hj _).trans (hs.other j hj)

/-- All processes of the table. -/
theorem Letters.exists_started (h : Letters d ls nm k) (hk : 0 < k) {m : Nat} (hpos : 0 < m)
    (hle : m ≤ 64) : ∃ r s, Started d r s m := by
  induction m with
  | zero => exact absurd hpos (lt_irrefl 0)
  | succ m ih =>
    by_cases hm : m = 0
    · rw [hm]
      exact h.start hk
    · obtain ⟨r, s, hs⟩ := ih (Nat.pos_of_ne_zero hm) (by omega)
      obtain ⟨s', hs'⟩ := h.fork hk hs (Nat.pos_of_ne_zero hm) (by omega)
      exact ⟨r, s', hs'⟩

/-- The processes `0` to `k - 1` of 64 have opened a file each, and these and the root folder
are the entities that are open. -/
structure Opening (d : FsState) (ls : Nat → List Nat) (nm : Nat → List UInt8) (r : InodePtr)
    (s : FileState) (k : Nat) : Prop where
  run : FileReachable (fun _ _ => True) (FileState.boot d.fs noProcs) s
  fs : s.vars.fs = d.fs
  live : s.live = Finset.range 64
  procs : ∀ p, k ≤ p → p < 64 → s.procs p = ⟨standardFiles 0, r⟩
  root : (s.vars.inodes r).dnode = d.fs.rootDnode
  opened : ∀ j, (s.vars.inodes j).type ≠ .EMPTY → (s.vars.inodes j).dnode = d.fs.rootDnode ∨
    (s.vars.inodes j).dnode ∈ ls d.fs.rootDnode ∧ ∃ m < k, nm (s.vars.inodes j).dnode = letter m
  used : r ∈ usedInodes s.vars ∧ (usedInodes s.vars).card = k + 1

/-- No file is open yet. -/
theorem Started.opening (hs : Started d r s 64) : Opening d ls nm r s 0 := by
  have hroot : ∀ j, (s.vars.inodes j).type ≠ .EMPTY → j = r := by
    intro j hj
    by_contra hjr
    rw [hs.other j hjr] at hj
    exact hj rfl
  have hused : usedInodes s.vars = {r} := by
    ext j
    rw [Finset.mem_singleton, usedInodes, Finset.mem_filter]
    constructor
    · rintro ⟨-, hj⟩
      exact hroot j hj
    · rintro rfl
      exact ⟨Finset.mem_univ _, hs.root.1⟩
  refine ⟨hs.run, hs.fs, hs.live, fun p _ hp => hs.procs p hp, hs.root.2, fun j hj => ?_, ?_, ?_⟩
  · rw [hroot j hj]
    exact Or.inl hs.root.2
  · rw [hused]
    exact Finset.mem_singleton_self r
  · rw [hused, Finset.card_singleton]

/-- `open` of the next process. -/
theorem Letters.open (h : Letters d ls nm 63) (hs : Opening d ls nm r s k) (hk : k < 63) :
    ∃ s', Opening d ls nm r s' (k + 1) := by
  obtain ⟨n, hn, hname⟩ := h.letters k hk
  obtain ⟨hmem, hne⟩ := h.entity_of_listed hn
  have hproc := hs.procs k le_rfl (by omega)
  have hpath : dzfsOpenRelative s.vars.fs (fsFlags 0) 0 (letter k) (relativeDnode s.vars (some r))
      = (⟨.OK, some n, some d.fs.rootDnode⟩, s.vars.fs) := by
    rw [relativeDnode, hs.root, hs.fs, ← hname]
    exact h.open_name hn _ 0
  have habsent : ∀ j, (s.vars.inodes j).type ≠ .EMPTY → (s.vars.inodes j).dnode ≠ n := by
    intro j hj hdnode
    rcases hs.opened j hj with hroot | ⟨-, m, hm, hletter⟩
    · exact hne (hdnode.symm.trans hroot)
    · rw [hdnode, hname] at hletter
      have heq := letter_inj (by omega) (by omega) hletter
      omega
  have hroom : (usedInodes s.vars).card < MAX_INODES := by
    rw [hs.used.2]
    show k + 1 < 64
    omega
  have htype := h.typed n hmem
  rw [← hs.fs] at htype
  obtain ⟨i, inode, hempty, hused, hdnode, -, hopen⟩ := fsOpen_taken hpath htype habsent hroom
  have hir : i ≠ r := by
    rintro rfl
    exact (Finset.mem_filter.mp hs.used.1).2 hempty
  have husedInodes : usedInodes (s.vars.setInode i inode) = insert i (usedInodes s.vars) := by
    ext j
    rw [Finset.mem_insert, usedInodes, usedInodes, Finset.mem_filter, Finset.mem_filter]
    by_cases hj : j = i
    · rw [hj, setInode_self]
      simp [hused]
    · rw [setInode_of_ne _ hj]
      simp [hj]
  refine ⟨s.afterCall k (s.vars.setInode i inode) ((s.procs k).setFile ⟨3, by decide⟩
    ⟨.FD_INODE i, 0, true, false⟩), ?_, hs.fs, hs.live, ?_, ?_, ?_, ?_, ?_⟩
  · refine hs.run.call (.open k (letter k) 0 0) trivial ?_
    have hcaller : ¬ ∃ p ∈ (FileCall.open k (letter k) 0 0).caller, p ∉ s.live := by
      rintro ⟨p, hp, hnot⟩
      obtain rfl := Option.some.inj hp
      rw [hs.live, Finset.mem_range] at hnot
      omega
    have hfd : procAllocateFd ⟨standardFiles 0, r⟩ = some ⟨3, by decide⟩ := rfl
    simp only [fileStep, if_neg hcaller]
    rw [hproc, sysOpen, if_neg (by decide), fileOpen_ok hfd hopen]
    rfl
  · intro p hp hlt
    show Function.update s.procs k _ p = _
    have hpk : p ≠ k := by omega
    rw [Function.update_of_ne hpk, hs.procs p (by omega) hlt]
  · show ((s.vars.setInode i inode).inodes r).dnode = _
    rw [setInode_of_ne _ hir.symm, hs.root]
  · intro j hj
    change ((s.vars.setInode i inode).inodes j).type ≠ _ at hj
    show ((s.vars.setInode i inode).inodes j).dnode = _ ∨
      ((s.vars.setInode i inode).inodes j).dnode ∈ _ ∧
        ∃ m < k + 1, nm ((s.vars.setInode i inode).inodes j).dnode = letter m
    by_cases hji : j = i
    · rw [hji, setInode_self, hdnode]
      exact Or.inr ⟨hn, k, Nat.lt_succ_self k, hname⟩
    · rw [setInode_of_ne _ hji] at hj ⊢
      rcases hs.opened j hj with hroot | ⟨hlist, m, hm, hletter⟩
      · exact Or.inl hroot
      · exact Or.inr ⟨hlist, m, Nat.lt_succ_of_lt hm, hletter⟩
  · show r ∈ usedInodes (s.vars.setInode i inode)
    rw [husedInodes]
    exact Finset.mem_insert_of_mem hs.used.1
  · show (usedInodes (s.vars.setInode i inode)).card = _
    have hnot : i ∉ usedInodes s.vars := fun hi => (Finset.mem_filter.mp hi).2 hempty
    rw [husedInodes, Finset.card_insert_of_notMem hnot, hs.used.2]

/-- All 63 files are open. -/
theorem Letters.exists_opening (h : Letters d ls nm 63) (hs : Started d r s 64) (hk : k ≤ 63) :
    ∃ s', Opening d ls nm r s' k := by
  induction k with
  | zero => exact ⟨s, hs.opening⟩
  | succ k ih =>
    obtain ⟨s', hs'⟩ := ih (by omega)
    exact h.open hs' (by omega)

end

/-- All inodes are in use: 63 of 64 processes have opened a file each, and all work in the root
folder. An open of the last process that creates one more file fails, and the file stays on the
disk. -/
theorem failed_open_creates :
    ∃ fs d procs s path vars proc,
      dzfsNew (fun _ => Bytes.zero) 32768 0 = (.OK, fs) ∧
      Reachable (fun _ _ => True) (newState fs) d ∧
      FileReachable (fun _ _ => True) (FileState.boot d.fs procs) s ∧
      (∀ i, (s.vars.inodes i).type ≠ .EMPTY) ∧
      fileOpen s.vars (s.procs 63) path O_CREAT 0 = .ok (-1, vars, proc) ∧
      vars.fs ≠ s.vars.fs := by
  obtain ⟨d, ls, nm, h⟩ := exists_letters (show 63 ≤ 64 by decide)
  obtain ⟨r, s₁, hstart⟩ := h.exists_started (by decide) (show 0 < 64 by decide) le_rfl
  obtain ⟨s, hs⟩ := h.exists_opening hstart le_rfl
  have hall : ∀ i, (s.vars.inodes i).type ≠ .EMPTY := by
    have hcard : (usedInodes s.vars).card = Fintype.card InodePtr := by
      rw [hs.used.2, Fintype.card_fin]
      rfl
    intro i
    have hmem : i ∈ usedInodes s.vars := by
      rw [(Finset.card_eq_iff_eq_univ _).mp hcard]
      exact Finset.mem_univ i
    exact (Finset.mem_filter.mp hmem).2
  obtain ⟨n, fs', ho, hc⟩ := h.creation (show 63 < 64 by decide)
  have hproc : s.procs 63 = ⟨standardFiles 0, r⟩ := hs.procs 63 le_rfl (by decide)
  have hflags : fsFlags O_CREAT = DZFS_O_CREATE := by decide
  have hpath : dzfsOpenRelative s.vars.fs (fsFlags O_CREAT) 0 (letter 63)
      (relativeDnode s.vars (some r)) = (⟨.OK, some n, some d.fs.rootDnode⟩, fs') := by
    rw [relativeDnode, hs.root, hs.fs, hflags, ho]
  have hfull : openInode { s.vars with fs := fs' } n d.fs.rootDnode
      = .ok (none, { s.vars with fs := fs' }) := by
    have hfound := findInode_cases s.vars.inodes n
    rw [openInode]
    generalize findInode s.vars.inodes n (List.finRange MAX_INODES) none = found at hfound
    cases hfound with
    | @found i free used dnode =>
      refine absurd ?_ hc.not_mem
      rw [← dnode]
      rcases hs.opened i used with hroot | ⟨hlist, -⟩
      · rw [hroot]
        exact h.root_mem
      · exact (h.entity_of_listed hlist).1
    | full used absent => rfl
    | @free i empty absent => exact absurd empty (hall i)
  refine ⟨formattedDisk, d, noProcs, s, letter 63, { s.vars with fs := fs' }, s.procs 63,
    Prod.ext (by decide) rfl, h.run, hs.run, hall, ?_, ?_⟩
  · have hfd : procAllocateFd ⟨standardFiles 0, r⟩ = some ⟨3, by decide⟩ := rfl
    rw [hproc]
    refine fileOpen_refused hfd ?_
    rw [fsOpen, hpath]
    exact hfull
  · rintro heq
    change fs' = s.vars.fs at heq
    rw [hs.fs] at heq
    have hused := (hc.inv.mem_used (Finset.mem_insert_self n d.entities)).2.2
    rw [heq, hc.free] at hused
    cases hused

end DzOS.Proofs.Fs
