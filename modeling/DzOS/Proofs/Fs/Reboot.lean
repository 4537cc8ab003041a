import DzOS.Fs.Fs
import DzOS.Proofs.Fs.StoreRefinement

/-!
# `DzOS.Proofs.Fs.Reboot`: what is on the disk stays when the machine boots again

No call writes to block 0 or to the superblock (`Sound.low`), so `dzfs_init` finds the variables of
the file system that was there before (`Mountable.init`). A boot is then a mount, an open of `/init`
and a write to it, and the store changes as these two calls say (`Represents.boot`).

`boots_refine_store` is the result for runs of calls with boots between them, from a disk without
the magic number: no boot panics, only the first one formats the disk, and after every event the
disk has what the store says.
-/

set_option autoImplicit false

namespace DzOS.Proofs.Fs

open DzOS.Lib DzOS.Fs

variable {blocks relativeTo nvmeBlockSize : Nat} {c : Call} {s : FsState}

/-! ### The blocks in front of the bitmap -/

section
variable {fs fs' : Dzfs} {E : Finset Nat} {ls : Nat → List Nat} {d : Nat} {st st' : WriteState}
  {m : Nat}

/-- The loop of a write does not write to the first two blocks. -/
theorem writeLoop_low (hinv : Core fs E ls) (hm : m < 2) (fuel : Nat) (h : Writing fs E d st)
    (hoff : st.offset + st.data.length ≤ DZFS_MAX_FILESIZE) {r : DzfsResult}
    (hloop : writeLoop fuel st = (r, st')) : st'.fs.disk m = st.fs.disk m := by
  induction fuel generalizing st with
  | zero =>
    obtain ⟨-, rfl⟩ := hloop
    rfl
  | succ fuel ih =>
    unfold writeLoop at hloop
    by_cases hdata : st.data = []
    · rw [if_pos hdata] at hloop
      obtain ⟨-, rfl⟩ := hloop
      rfl
    · rw [if_neg hdata] at hloop
      have hpos := List.length_pos_of_ne_nil hdata
      rcases hc : contentBlock st with ⟨n, st₁⟩
      obtain ⟨hw, hg, hown⟩ := h.contentBlock hinv (by omega) hc
      rw [hc] at hloop
      simp only at hloop
      have halloc : st₁.fs.disk m = st.fs.disk m := hg.only.disk m (Or.inl hm)
      by_cases hn : n = 0
      · rw [if_pos hn] at hloop
        obtain ⟨-, rfl⟩ := hloop
        exact halloc
      · rw [if_neg hn] at hloop
        have hcopy : (copyToBlock st₁ n).fs.disk m = st₁.fs.disk m := by
          have hle := (hw.owns.used _ n (Or.inr (hown hn))).1
          have htwo := hinv.two_le
          rw [hw.rootDnode] at hle
          exact Function.update_of_ne (by omega) _ _
        rw [ih (hw.copyToBlock hinv (hown hn)) ?_ hloop, hcopy, halloc]
        rw [copyToBlock_end, hg.offset, hg.data]
        exact hoff

theorem dzfsWrite_low (hinv : Core fs E ls) (hd : d ∈ E) {data : List UInt8} {offset : Nat}
    (hlt : data.length + offset < 2 ^ 64) (hm : m < 2) :
    (dzfsWrite fs d data offset).2.disk m = fs.disk m := by
  by_cases hacc : Accepted fs d data offset
  case neg => rw [(dzfsWrite_of_not_accepted hacc).2]
  have hmax := hacc.2.1
  rw [Nat.mod_eq_of_lt hlt] at hmax
  have hstart := Writing.start hinv hd hacc.1 Bytes.zero data offset
  have hoff : offset + data.length ≤ DZFS_MAX_FILESIZE := by omega
  rcases hloop : writeLoop data.length (startWrite fs d data offset) with ⟨r, st⟩
  have hlow := writeLoop_low hinv hm data.length hstart hoff hloop
  obtain ⟨hst, hr⟩ := writeLoop_writing hinv data.length hstart hoff hloop
  have hfinish : (finishWrite st d data.length).disk m = st.fs.disk m := by
    have htwo := hinv.two_le
    have hroot : ∀ p n, WHolds fs.disk E d st.dnodeBlock st.indirectBlock p n → m ≠ n := by
      intro p n hp
      have hle := (hst.owns.used p n hp).1
      rw [hst.rootDnode] at hle
      omega
    exact finishWrite_disk_other d st _ (hroot (.dnode d) d (Or.inr ⟨rfl, rfl⟩))
      fun hne => hroot (.indirect d) _ (Or.inr ⟨rfl, rfl, hne⟩)
  rw [dzfsWrite_of_accepted hacc, hloop]
  rcases hr with rfl | rfl
  · exact hfinish.trans hlow
  · exact hlow

/-- The end of a move does not write to the first two blocks. -/
theorem Entered.low (hinv : Inv fs E ls) {old new : Nat} (hold : old ∈ E) (hnew : new ∈ E)
    (hd : d ∈ E) {newName : Option (List UInt8)} {b : Bytes}
    (hent : Entered fs fs' d old new newName b) (hm : m < 2) : fs'.disk m = fs.disk m := by
  have hne : ∀ e ∈ E, m ≠ e := by
    intro e he
    have hle := hinv.root_le he
    have htwo := hinv.two_le
    omega
  exact hent.disk m (hne old hold) (hne new hnew) fun _ => hne d hd

end

section
variable {s : FsState} {ls : Nat → List Nat} {m : Nat}

/-- No sound call writes to the first two blocks. -/
theorem Sound.low (hinv : Inv s.fs s.entities ls) (hc : Sound s c) (hm : m < 2) :
    (exec s c).fs.disk m = s.fs.disk m := by
  have hne : ∀ e ∈ s.entities, m ≠ e := by
    intro e he
    have hle := hinv.root_le he
    have htwo := hinv.two_le
    omega
  have hopened : ∀ {out fs'}, Opened s.fs s.entities out fs' → fs'.disk m = s.fs.disk m := by
    rintro out fs' (⟨rfl, -⟩ | ⟨cur, n, -, hcreated⟩)
    · rfl
    · have hroot := (hinv.blocks.used (.dnode cur) cur ⟨hcreated.mem, rfl⟩).1
      refine hcreated.disk m (Or.inl hm) (hne cur hcreated.mem) ?_
      rintro rfl
      obtain ⟨ls', hinv'⟩ := hcreated.inv
      have hle := hinv'.root_le (Finset.mem_insert_self m s.entities)
      have htwo := hinv'.two_le
      omega
  cases c with
  | openRelative path relativeTo flags date =>
    exact hopened (dzfsOpenRelative_spec hinv hc.1.1 hc.1.2 hc.2.1 rfl)
  | openAbsolute path flags date => exact hopened (dzfsOpenAbsolute_spec hinv hc.1 hc.2.1 rfl)
  | write dnode data offset => exact dzfsWrite_low hinv.toCore hc.2.1 hc.1 hm
  | delete dnode parentDnode =>
    have hf := hc.1.2.inFolder hinv hc.1.1
    simp only [exec]
    rcases dzfsDelete_spec hinv hf (Prod.mk.eta (p := dzfsDelete s.fs dnode parentDnode)).symm with
      ⟨hsame, -⟩ | ⟨-, hdel⟩
    · rw [hsame]
    · exact hdel.disk m (Or.inl hm) (hne parentDnode hf.mem)
  | move dnode oldParent newParent newName =>
    obtain ⟨⟨hof, hnew, hlisted, hnul⟩, hsafe, -⟩ := hc
    have hold := hlisted.inFolder hinv hof
    have hd := (hinv.entity_of_listed hold.listed).1
    simp only [exec]
    rcases dzfsMove_steps hinv hold hnew.1 hnew.2 newName hnul hsafe with
      ⟨hfs, -⟩ | ⟨-, -, -, hok, -⟩ | @⟨fs₁, l, -, -, -, -, -, hu, -, hinv₁, hold₁, hok, -, -⟩
    · rw [hfs]
    · exact (enterNewParent_entered hinv hold hnew.1 hnew.2 hok).low hinv hold.mem hnew.1 hd hm
    · have hnew₁ := Finset.mem_erase.mpr ⟨hu.ne.symm, hnew.1⟩
      have hd₁ := (hinv₁.entity_of_listed hold₁.listed).1
      rw [(enterNewParent_entered hinv₁ hold₁ hnew₁ hu.type hok).low hinv₁ hold₁.mem hnew₁ hd₁ hm]
      exact hu.disk m (Or.inl hm) (hne newParent hnew.1)

end

/-! ### Mounting -/

/-- The disk has a superblock for `blocks` blocks, and the variables are those for it. -/
structure Mountable (blocks : Nat) (fs : Dzfs) : Prop where
  lt : blocks < 2 ^ 32
  superblock : fs.disk 1 = superblock blocks
  freeBitmapBlocks : fs.freeBitmapBlocks = bitmapBlocksFor blocks
  rootDnode : fs.rootDnode = fs.freeBitmapBlocks + 2

section
variable {disk : Nat → Bytes} {blocks : Nat} {date : UInt64} {fs : Dzfs}

theorem superblock_magic (blocks : Nat) : (superblock blocks).slice 0 4 = DZFS_MAGIC := by
  have hlen : DZFS_MAGIC.length = 4 := rfl
  have hdef : superblock blocks
      = ((Bytes.zero.blit 0 DZFS_MAGIC).setLE 4 4 1).setLE 4 8 blocks := rfl
  refine List.ext_getElem (by rw [Bytes.length_slice, hlen]) fun i hi hi' => ?_
  rw [Bytes.getElem_slice, hdef, Bytes.setLE_of_apart (by omega),
    Bytes.setLE_of_apart (by omega), Bytes.blit_of_mem (Nat.zero_le _) (by omega)]
  congr 1
  omega

/-- `dzfs_init` of a mountable disk finds the variables again. -/
theorem Mountable.init (h : Mountable blocks fs) : dzfsInit fs.disk = some fs := by
  have hblocks : (fs.disk 1).getLE 4 8 = blocks := by
    rw [h.superblock, DzOS.Fs.superblock, Bytes.getLE_setLE_self]
    exact Nat.mod_eq_of_lt h.lt
  have hmagic : (fs.disk 1).slice 0 4 = DZFS_MAGIC := by
    rw [h.superblock]
    exact superblock_magic blocks
  unfold dzfsInit
  simp only [hmagic, hblocks, ne_eq, not_true_eq_false, if_false]
  rw [← bitmapBlocksFor, ← h.freeBitmapBlocks]
  have hroot : 1 + 1 + fs.freeBitmapBlocks = fs.rootDnode := by
    rw [h.rootDnode]
    omega
  rw [hroot]

/-- `formatBlocks` does not write to the first two blocks. -/
theorem formatBlocks_low (hroot : fs.rootDnode = fs.freeBitmapBlocks + 2)
    (hpos : 0 < fs.freeBitmapBlocks) (hlt : fs.freeBitmapBlocks < 2 ^ 17) (blocks : Nat)
    (date : UInt64) {m : Nat} (hm : m < 2) : (formatBlocks fs blocks date).disk m = fs.disk m := by
  have hends : 2 + fs.freeBitmapBlocks - 1 = fs.freeBitmapBlocks + 1 := by omega
  have hnotroot : m ≠ fs.rootDnode := by omega
  have hnotlast : m ≠ fs.freeBitmapBlocks + 1 := by omega
  have hnottwo : m ≠ 2 := by omega
  have hmiddle : (writeMiddleBitmaps fs onesBlock).disk m = fs.disk m := by
    have hfold : writeMiddleBitmaps fs onesBlock
        = (List.range ((fs.freeBitmapBlocks + 2 ^ 32 - 1) % 2 ^ 32 - 1)).foldl
          (fun (fs : Dzfs) i => fs.writeBlock ((2 + (i + 1)) % 2 ^ 32) onesBlock) fs := rfl
    have hlast : (fs.freeBitmapBlocks + 2 ^ 32 - 1) % 2 ^ 32 = fs.freeBitmapBlocks - 1 := by omega
    rw [hfold, hlast, foldl_writeBlock_disk, if_neg]
    rintro ⟨i, hi, heq⟩
    have hi := List.mem_range.mp hi
    omega
  rw [formatBlocks_eq, hends]
  simp only [Dzfs.writeBlock]
  rw [Function.update_of_ne hnotroot, Function.update_of_ne hnotlast,
    Function.update_of_ne hnottwo, hmiddle]

/-- A formatted disk is mountable, and its boot block is the old one. -/
theorem dzfsNew_mountable (hle : blocks ≤ formatLimit)
    (hnew : dzfsNew disk blocks date = (.OK, fs)) :
    Mountable blocks fs ∧ fs.disk 0 = disk 0 := by
  have hlt : blocks < 2 ^ 32 := by
    simp only [formatLimit, DZFS_BITSET_COVERED_BLOCKS, DZFS_BLOCK_SIZE] at hle
    omega
  obtain ⟨hF, hroot⟩ := dzfsNew_vars hnew
  obtain ⟨h4, -, hfs⟩ := dzfsNew_ok hnew
  obtain ⟨hpos, h17⟩ : 0 < bitmapBlocksFor blocks ∧ bitmapBlocksFor blocks < 2 ^ 17 := by
    rcases bitmapBlocksFor_spec hlt (Nat.zero_lt_of_lt h4) with ⟨-, hbig⟩ | ⟨hpos, h17, -⟩
    · simp only [formatLimit, DZFS_BITSET_COVERED_BLOCKS, DZFS_BLOCK_SIZE] at hle hbig
      omega
    · exact ⟨hpos, h17⟩
  have hlow : ∀ m < 2, fs.disk m = Function.update disk 1 (DzOS.Fs.superblock blocks) m := by
    intro m hm
    rw [hfs]
    exact formatBlocks_low (Nat.add_comm _ _) hpos h17 blocks date hm
  refine ⟨⟨hlt, ?_, hF, hroot⟩, ?_⟩
  · rw [hlow 1 (by decide), Function.update_self]
  · rw [hlow 0 (by decide), Function.update_of_ne (by decide)]

/-- A sound call keeps the disk mountable. -/
theorem Mountable.exec {ls : Nat → List Nat} (h : Mountable blocks s.fs)
    (hinv : Inv s.fs s.entities ls) (hc : Sound s c) : Mountable blocks (exec s c).fs := by
  have hvars := exec_vars s c
  refine ⟨h.lt, ?_, hvars.freeBitmapBlocks.trans h.freeBitmapBlocks, ?_⟩
  · rw [hc.low hinv (by decide), h.superblock]
  · rw [hvars.rootDnode, hvars.freeBitmapBlocks, h.rootDnode]

end

/-! ### A boot -/

/-- The two calls of a boot on a disk that is mounted: it opens `/init` and writes to the dnode. -/
def bootCalls (prog : List UInt8) (createDate : UInt64) (s : FsState) : List Call :=
  let c := Call.openAbsolute fsPathInit DZFS_O_CREATE createDate
  [c, .write ((outcome s c).dnode.getD 0) prog 0]

/-- The state after the calls of a boot. -/
def booted (prog : List UInt8) (createDate : UInt64) (s : FsState) : FsState :=
  (bootCalls prog createDate s).foldl exec s

theorem fsEnsureUserspaceProg_eq (prog : List UInt8) (createDate : UInt64) (s : FsState) :
    fsEnsureUserspaceProg s.fs prog fsPathInit createDate = (booted prog createDate s).fs := rfl

/-- A boot of a mountable disk does not format it. -/
theorem Mountable.fsInit (h : Mountable blocks s.fs) (hbs : DZFS_BLOCK_SIZE % nvmeBlockSize = 0)
    (prog : List UInt8) (formatDate createDate : UInt64) :
    fsInit nvmeBlockSize prog formatDate createDate s.fs.disk
      = .ok (booted prog createDate s).fs := by
  unfold DzOS.Fs.fsInit
  rw [if_neg (not_not_intro hbs), h.init]
  exact congrArg Except.ok (fsEnsureUserspaceProg_eq prog createDate s)

section
variable {fs : Dzfs} {flags : UInt32} {date : UInt64} {path : List UInt8}

theorem createEntity_failed {cur : Nat} {current : Bytes} {name : List UInt8}
    (hr : (createEntity fs cur current name flags date relativeTo).1.result ≠ .OK) :
    (createEntity fs cur current name flags date relativeTo).1.dnode.getD 0 = 0 := by
  revert hr
  unfold createEntity
  simp only
  split
  · exact fun _ => rfl
  · split
    · exact fun _ => rfl
    · exact fun hr => absurd rfl hr

/-- An open that fails names no dnode, or the boot block. -/
theorem dzfsOpenRelative_failed (hroot : fs.rootDnode ≠ 0) (hrel : relativeTo ≠ 0)
    (hr : (dzfsOpenRelative fs flags date path relativeTo).1.result ≠ .OK) :
    (dzfsOpenRelative fs flags date path relativeTo).1.dnode.getD 0 = 0 := by
  rw [dzfsOpenRelative_eq hroot flags date path hrel] at hr ⊢
  split at hr
  · exact absurd rfl hr
  rename_i hslashes
  rw [if_neg hslashes]
  cases hend : pathEnd fs path relativeTo with
  | self folder =>
    rw [hend] at hr
    exact absurd rfl hr
  | found folder dnode =>
    rw [hend] at hr
    exact absurd rfl hr
  | nowhere => rfl
  | missing folder name =>
    rw [hend] at hr
    rw [openAt] at hr ⊢
    by_cases hcreate : flags &&& DZFS_O_CREATE ≠ 0
    · rw [if_pos hcreate] at hr ⊢
      exact createEntity_failed hr
    · rw [if_neg hcreate]
      rfl

theorem dzfsOpenAbsolute_failed (hroot : fs.rootDnode ≠ 0)
    (hr : (dzfsOpenAbsolute fs flags date path).1.result ≠ .OK) :
    (dzfsOpenAbsolute fs flags date path).1.dnode.getD 0 = 0 := by
  unfold dzfsOpenAbsolute at hr ⊢
  split at hr
  · rename_i hhead
    rw [if_pos hhead]
    rfl
  · split at hr
    · exact absurd rfl hr
    · rename_i hhead hslash
      rw [if_neg hhead, if_neg hslash]
      exact dzfsOpenRelative_failed hroot hroot hr

end

section
variable {t : FsStore} {s : FsState} {ls : Nat → List Nat} {prog : List UInt8} {date : UInt64}

/-- The open of a boot is sound. -/
theorem sound_openInit (s : FsState) (date : UInt64) :
    Sound s (.openAbsolute fsPathInit DZFS_O_CREATE date) := by
  have hdots : upFolders s.fs fsPathInit s.fs.rootDnode = [] := rfl
  refine ⟨show Fits fsPathInit by decide, fun f hf => ?_, show 0 ∉ fsPathInit by decide⟩
  rw [hdots] at hf
  cases hf

/-- The write of a boot goes to an entity, or to the boot block if the open failed. -/
theorem Represents.initDnode (h : Represents t s ls) (date : UInt64) :
    let out := outcome s (.openAbsolute fsPathInit DZFS_O_CREATE date)
    out.dnode.getD 0 ∈ (exec s (.openAbsolute fsPathInit DZFS_O_CREATE date)).entities ∨
      out.dnode.getD 0 = 0 := by
  obtain ⟨hfits, hdots, -⟩ := sound_openInit s date
  simp only [outcome, exec]
  rcases ho : dzfsOpenAbsolute s.fs DZFS_O_CREATE date fsPathInit with ⟨out, fs'⟩
  by_cases hr : out.result = .OK
  · refine Or.inl ?_
    rcases dzfsOpenAbsolute_spec h.inv hfits hdots ho with ⟨-, hok⟩ | ⟨cur, n, rfl, -⟩
    · obtain ⟨n, hn, hdnode⟩ := hok hr
      simp only [entitiesAfterOpen_same hok, hdnode]
      exact hn
    · exact Finset.mem_insert_self n s.entities
  · refine Or.inr ?_
    have hfailed := @dzfsOpenAbsolute_failed s.fs DZFS_O_CREATE date fsPathInit
      (h.inv.ne_zero h.inv.root_mem)
    rw [ho] at hfailed
    exact hfailed hr

/-- A write to the boot block does nothing. -/
theorem dzfsWrite_boot {fs : Dzfs} (hboot : entityType (fs.disk 0) ≠ DZFS_ENTITY_FILE)
    (data : List UInt8) : dzfsWrite fs 0 data 0 = (.ERR_ARGUMENT, fs) := by
  unfold dzfsWrite
  simp only [Dzfs.readBlock]
  rw [if_pos hboot]

/-- A boot keeps the disk mountable, and the store changes as its two calls say. If the open fails,
the write goes to the boot block, which should be no dnode of a file. -/
theorem Represents.boot (h : Represents t s ls) (hM : Mountable blocks s.fs)
    (hboot : entityType (s.fs.disk 0) ≠ DZFS_ENTITY_FILE) (hprog : prog.length < 2 ^ 32)
    (date : UInt64) :
    Mountable blocks (booted prog date s).fs ∧
      entityType ((booted prog date s).fs.disk 0) ≠ DZFS_ENTITY_FILE ∧
      ∃ ls', Represents (storeRun s t (bootCalls prog date s)) (booted prog date s) ls' := by
  have hopen := sound_openInit s date
  obtain ⟨ls₁, h₁⟩ := h.step hopen
  have hM₁ := hM.exec h.inv hopen
  rw [← hopen.low h.inv (show 0 < 2 by decide)] at hboot
  have hdnode := h.initDnode date
  simp only [booted, bootCalls, storeRun, List.foldl_cons, List.foldl_nil] at hdnode ⊢
  generalize outcome s (.openAbsolute fsPathInit DZFS_O_CREATE date) = out at hdnode h₁ ⊢
  generalize exec s (.openAbsolute fsPathInit DZFS_O_CREATE date) = s₁ at hdnode h₁ hM₁ hboot ⊢
  rcases hdnode with hmem | hzero
  · have hwrite : Sound s₁ (.write (out.dnode.getD 0) prog 0) :=
      ⟨show prog.length + 0 < 2 ^ 64 by omega, hmem, trivial⟩
    refine ⟨hM₁.exec h₁.inv hwrite, ?_, h₁.step hwrite⟩
    rwa [hwrite.low h₁.inv (by decide)]
  · rw [hzero]
    simp only [outcome, exec, storeStep, dzfsWrite_boot hboot prog]
    exact ⟨hM₁, hboot, ls₁, h₁⟩

end

/-! ### Runs with boots -/

/-- The events of a machine: a call, or a boot with the two dates that it may ask for. -/
inductive Event where
  | call (c : Call)
  | boot (formatDate createDate : UInt64)

/-- An event, with the boot as the code does it: it knows nothing but the disk. -/
def eventStep (nvmeBlockSize : Nat) (prog : List UInt8) (s : FsState) :
    Event → Except String FsState
  | .call c => .ok (exec s c)
  | .boot formatDate createDate =>
    (fsInit nvmeBlockSize prog formatDate createDate s.fs.disk).map fun fs =>
      ⟨fs, (booted prog createDate s).entities⟩

/-- An event, with the boot as its two calls. -/
def eventAfter (prog : List UInt8) (s : FsState) : Event → FsState
  | .call c => exec s c
  | .boot _ createDate => booted prog createDate s

/-- What an event does to the store. -/
def storeEvent (prog : List UInt8) (s : FsState) (t : FsStore) : Event → FsStore
  | .call c => storeStep t (outcome s c) c
  | .boot _ createDate => storeRun s t (bootCalls prog createDate s)

/-- The store after the events of a run. -/
def storeEvents (prog : List UInt8) : FsState → FsStore → List Event → FsStore
  | _, t, [] => t
  | s, t, e :: events => storeEvents prog (eventAfter prog s e) (storeEvent prog s t e) events

/-- The calls of a run are sound where they are made. -/
def SoundEvents (prog : List UInt8) : FsState → List Event → Prop
  | _, [] => True
  | s, .call c :: events => Sound s c ∧ SoundEvents prog (exec s c) events
  | s, .boot _ createDate :: events => SoundEvents prog (booted prog createDate s) events

instance decidableSoundEvents (prog : List UInt8) :
    (events : List Event) → (s : FsState) → Decidable (SoundEvents prog s events)
  | [], _ => isTrue trivial
  | .call c :: events, s =>
    @instDecidableAnd _ _ _ (decidableSoundEvents prog events (exec s c))
  | .boot _ createDate :: events, s => decidableSoundEvents prog events (booted prog createDate s)

section
variable {t : FsStore} {s : FsState} {ls : Nat → List Nat} {prog : List UInt8}

/-- The events of a run from a mountable disk. -/
theorem Represents.events (h : Represents t s ls) (hM : Mountable blocks s.fs)
    (hboot : entityType (s.fs.disk 0) ≠ DZFS_ENTITY_FILE)
    (hbs : DZFS_BLOCK_SIZE % nvmeBlockSize = 0) (hprog : prog.length < 2 ^ 32) {events : List Event}
    (hok : SoundEvents prog s events) :
    events.foldlM (eventStep nvmeBlockSize prog) s = .ok (events.foldl (eventAfter prog) s) ∧
      ∃ ls', Represents (storeEvents prog s t events) (events.foldl (eventAfter prog) s) ls' := by
  induction events generalizing s t ls with
  | nil => exact ⟨rfl, ls, h⟩
  | cons e events ih =>
    cases e with
    | call c =>
      obtain ⟨ls', h'⟩ := h.step hok.1
      have hlow := hok.1.low h.inv (show 0 < 2 by decide)
      exact ih h' (hM.exec h.inv hok.1) (hlow ▸ hboot) hok.2
    | boot formatDate createDate =>
      obtain ⟨hM', hboot', ls', h'⟩ := h.boot hM hboot hprog createDate
      have hstep : eventStep nvmeBlockSize prog s (.boot formatDate createDate)
          = .ok (booted prog createDate s) := by
        rw [eventStep, hM.fsInit hbs]
        rfl
      rw [List.foldlM_cons, hstep]
      exact ih h' hM' hboot' hok

end

/-- The state after the first boot, which formats the disk. -/
def firstBoot (prog : List UInt8) (formatDate createDate : UInt64) (disk : Nat → Bytes) : FsState :=
  booted prog createDate (newState (dzfsNew disk totalBlocks formatDate).2)

/-- The store after the first boot. -/
def firstStore (prog : List UInt8) (formatDate createDate : UInt64) (disk : Nat → Bytes) :
    FsStore :=
  let fs := (dzfsNew disk totalBlocks formatDate).2
  storeRun (newState fs) (rootStore fs) (bootCalls prog createDate (newState fs))

section
variable {disk : Nat → Bytes} {prog : List UInt8} {date : UInt64}

/-- The partition has room for a file system. -/
theorem dzfsNew_totalBlocks (disk : Nat → Bytes) (date : UInt64) :
    dzfsNew disk totalBlocks date = (.OK, (dzfsNew disk totalBlocks date).2) := by
  have hlarge : ¬ totalBlocks ≤ 4 := by decide
  have hroom : ¬ totalBlocks ≤ 3 + (totalBlocks + DZFS_BITSET_COVERED_BLOCKS - 1) % 2 ^ 32
      / DZFS_BITSET_COVERED_BLOCKS := by decide
  unfold dzfsNew
  simp only [if_neg hlarge, if_neg hroom]

/-- A boot of a disk without the magic number formats it. -/
theorem fsInit_first (hmagic : (disk 1).slice 0 4 ≠ DZFS_MAGIC)
    (hbs : DZFS_BLOCK_SIZE % nvmeBlockSize = 0) (formatDate createDate : UInt64) :
    fsInit nvmeBlockSize prog formatDate createDate disk
      = .ok (firstBoot prog formatDate createDate disk).fs := by
  have hnew := dzfsNew_totalBlocks disk formatDate
  obtain ⟨hM, -⟩ := dzfsNew_mountable (show totalBlocks ≤ formatLimit by decide) hnew
  have hnone : dzfsInit disk = none := if_pos hmagic
  unfold DzOS.Fs.fsInit
  rw [if_neg (not_not_intro hbs), hnone, hnew]
  simp only [ne_eq, not_true_eq_false, if_false]
  rw [hM.init]
  exact congrArg Except.ok (fsEnsureUserspaceProg_eq prog createDate (newState _))

end

/-- Boots lose nothing. On a disk without the magic number, the first boot formats the disk, and no
later one does. In every run of sound calls with boots between them, no boot panics, each boot
finds the state of the disk and opens and writes `/init`, and the calls show what the store has. -/
theorem boots_refine_store {disk : Nat → Bytes} (hmagic : (disk 1).slice 0 4 ≠ DZFS_MAGIC)
    (hboot : entityType (disk 0) ≠ DZFS_ENTITY_FILE) {nvmeBlockSize : Nat}
    (hbs : DZFS_BLOCK_SIZE % nvmeBlockSize = 0) {prog : List UInt8} (hprog : prog.length < 2 ^ 32)
    (formatDate createDate : UInt64) {events : List Event}
    (hok : SoundEvents prog (firstBoot prog formatDate createDate disk) events) :
    let s := firstBoot prog formatDate createDate disk
    fsInit nvmeBlockSize prog formatDate createDate disk = .ok s.fs ∧
      events.foldlM (eventStep nvmeBlockSize prog) s = .ok (events.foldl (eventAfter prog) s) ∧
      Shows (storeEvents prog s (firstStore prog formatDate createDate disk) events)
        (events.foldl (eventAfter prog) s) := by
  have hnew := dzfsNew_totalBlocks disk formatDate
  have hle : totalBlocks ≤ formatLimit := by decide
  obtain ⟨hmount, hkept⟩ := dzfsNew_mountable hle hnew
  obtain ⟨hM, hboot', ls, h⟩ := (rootStore_represents hle hnew).boot hmount
    (show entityType ((newState _).fs.disk 0) ≠ _ from hkept ▸ hboot) hprog createDate
  obtain ⟨hrun, ls', h'⟩ := h.events hM hboot' hbs hprog hok
  exact ⟨fsInit_first hmagic hbs formatDate createDate, hrun, h'.shows⟩

/-- The folder `a`, and the file `a/b` after a boot. -/
def rebootEvents : List Event :=
  [.call (.openAbsolute [47, 97] 3 0), .boot 5 6, .call (.openAbsolute [47, 97, 47, 98] 1 7)]

theorem boots_refine_store_twice :
    let s := firstBoot [1, 2, 3] 0 0 fun _ => Bytes.zero
    Shows (storeEvents [1, 2, 3] s (firstStore [1, 2, 3] 0 0 fun _ => Bytes.zero) rebootEvents)
      (rebootEvents.foldl (eventAfter [1, 2, 3]) s) :=
  (boots_refine_store
    (show (Bytes.zero).slice 0 4 ≠ DZFS_MAGIC by decide)
    (show entityType Bytes.zero ≠ DZFS_ENTITY_FILE by decide)
    (show DZFS_BLOCK_SIZE % 512 = 0 by decide) (by decide) 0 0 (by decide +kernel)).2.2

end DzOS.Proofs.Fs
