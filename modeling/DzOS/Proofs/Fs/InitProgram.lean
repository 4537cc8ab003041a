import DzOS.Proofs.Fs.Reboot

/-!
# `DzOS.Proofs.Fs.InitProgram`: what boots do to `/init`

`total_blocks` divides the size of the partition in blocks of the device by the size of a block of
the file system, so the file system has 17 blocks, and 12 of them are left for the program. Every
boot writes the program to `/init` from the front, and a write adds its length to the size of its
file. `boots_install` states what follows for any number of boots: a program of up to 12 blocks is
in `/init` after each of them, in front of a file that grows with every boot, and a longer one is
never there, without an error.
-/

set_option autoImplicit false

namespace DzOS.Proofs.Fs

open DzOS.Lib DzOS.Fs

variable {len : Nat}

/-- `init`. -/
def initName : List UInt8 := [105, 110, 105, 116]

/-- The blocks that are left for the program. -/
def programBlocks : Nat := 12

/-! ### The blocks of a write to a new file -/

/-- The file has no block yet, and the disk has the blocks for the program at most. -/
structure Unwritten (fs : Dzfs) (d : Nat) : Prop where
  links : ∀ i, INDIRECT_OFFSET ≤ i → fs.disk d i = 0
  free : dzfsFreeBlocks fs ≤ programBlocks

section
variable {fs : Dzfs} {d : Nat}

theorem Unwritten.content (h : Unwritten fs d) (index : Nat) :
    readContentBlock (fs.disk d) (indirectOf fs d) index = 0 := by
  have hword : ∀ w off, INDIRECT_OFFSET ≤ off → (fs.disk d).getLE w off = 0 := fun w off hoff =>
    Bytes.getLE_eq_zero fun i hi _ => h.links i (hoff.trans hi)
  have hindirect : indirectOf fs d = Bytes.zero := by
    have hzero : fileIndirect (fs.disk d) = 0 := hword 4 INDIRECT_OFFSET (Nat.le_refl _)
    exact if_neg (not_not_intro hzero)
  unfold readContentBlock
  rw [hindirect]
  split
  · exact Bytes.getLE_zero _ _
  · refine hword 4 _ ?_
    simp only [directOffset, INDIRECT_OFFSET]
    omega

/-- All the blocks of the range are missing. -/
theorem Unwritten.mem_missing (h : Unwritten fs d) {index : Nat} :
    index ∈ missing (fs.disk d) (indirectOf fs d) 0 len ↔
      index < 1024 + DZFS_DIRECT_BLOCKS ∧ index * DZFS_BLOCK_SIZE < len := by
  rw [Fs.mem_missing, touched_iff]
  constructor
  · rintro ⟨hlt, ⟨-, -, hin⟩, -⟩
    exact ⟨hlt, hin⟩
  · rintro ⟨hlt, hin⟩
    exact ⟨hlt, ⟨Nat.zero_lt_of_lt hin, Nat.zero_le _, hin⟩, h.content index⟩

theorem Unwritten.needed_le (h : Unwritten fs d) (hfits : len ≤ programBlocks * DZFS_BLOCK_SIZE) :
    needed (fs.disk d) (indirectOf fs d) 0 len ≤ programBlocks := by
  have hlt : ∀ index ∈ missing (fs.disk d) (indirectOf fs d) 0 len, index < programBlocks := by
    intro index hindex
    have hin := (h.mem_missing.mp hindex).2
    simp only [programBlocks, DZFS_BLOCK_SIZE] at hin hfits ⊢
    omega
  have hcard : (missing (fs.disk d) (indirectOf fs d) 0 len).card ≤ programBlocks := by
    have hsub : missing (fs.disk d) (indirectOf fs d) 0 len ⊆ Finset.range programBlocks :=
      fun index hindex => Finset.mem_range.mpr (hlt index hindex)
    exact (Finset.card_le_card hsub).trans_eq (Finset.card_range _)
  unfold needed
  rw [if_neg, Nat.add_zero]
  · exact hcard
  · rintro ⟨-, index, hindex, hge⟩
    have hlt := hlt index hindex
    simp only [programBlocks, DZFS_DIRECT_BLOCKS] at hlt hge
    omega

theorem Unwritten.lt_needed (h : Unwritten fs d) (hlong : programBlocks * DZFS_BLOCK_SIZE < len) :
    programBlocks < needed (fs.disk d) (indirectOf fs d) 0 len := by
  have hsub : Finset.range (programBlocks + 1) ⊆ missing (fs.disk d) (indirectOf fs d) 0 len := by
    intro index hindex
    have hlt := Finset.mem_range.mp hindex
    refine h.mem_missing.mpr ⟨?_, ?_⟩
    · simp only [programBlocks, DZFS_DIRECT_BLOCKS] at hlt ⊢
      omega
    · exact lt_of_le_of_lt (Nat.mul_le_mul_right _ (Nat.lt_succ_iff.mp hlt)) hlong
  have hcard := Finset.card_le_card hsub
  rw [Finset.card_range] at hcard
  exact lt_of_lt_of_le hcard (Nat.le_add_right _ _)

end

/-! ### `/init` -/

/-- The file `d` is `/init`, with the content `c`. -/
structure HasInit (s : FsState) (d : Nat) (c : Content UInt8) : Prop where
  rep : ∃ t ls, Represents t s ls ∧ d ∈ ls s.fs.rootDnode ∧ ∃ e, t d = some e ∧ e.content = some c
  name : headerName (s.fs.disk d) = initName
  mount : Mountable totalBlocks s.fs

/-- The content of a file after a write at its front. -/
def contentAfter (prog : List UInt8) (c : Content UInt8) : DzfsResult → Content UInt8
  | .OK => written prog 0 c
  | .ERR_FULL => spoiled prog.length 0 c
  | _ => c

theorem storeWrite_content {t : FsStore} {d : Nat} {e : Entity Nat (List UInt8) UInt8}
    {c : Content UInt8} (he : t d = some e) (hc : e.content = some c) (prog : List UInt8)
    (r : DzfsResult) :
    ∃ e', storeWrite t d prog 0 r d = some e' ∧ e'.content = some (contentAfter prog c r) := by
  have hmodify : ∀ f : Content UInt8 → Content UInt8,
      ∃ e', t.modify d f d = some e' ∧ e'.content = some (f c) := by
    intro f
    refine ⟨{ e with content := e.content.map f }, ?_, ?_⟩
    · rw [NamedStore.modify_self, he]
      rfl
    · simp only [hc, Option.map_some]
  cases r with
  | OK => exact hmodify _
  | ERR_FULL => exact hmodify _
  | ERR_ARGUMENT | ERR_LIMIT | ERR_NOT_FOUND | ERR_NOT_EMPTY | ERR_TOO_SMALL => exact ⟨e, he, hc⟩

/-- The walk of `/init`. -/
theorem openInit_eq {fs : Dzfs} (hroot : fs.rootDnode ≠ 0) (flags : UInt32) (date : UInt64) :
    dzfsOpenAbsolute fs flags date fsPathInit
      = openAt fs flags date fs.rootDnode
        (if folderLookupName fs (fs.disk fs.rootDnode) initName = 0 then
          .missing fs.rootDnode initName
        else .found fs.rootDnode (folderLookupName fs (fs.disk fs.rootDnode) initName)) := by
  have hopen : dzfsOpenAbsolute fs flags date fsPathInit
      = dzfsOpenRelative fs flags date initName fs.rootDnode := rfl
  have hstart : openStart fs initName fs.rootDnode = (fs.rootDnode, initName) := rfl
  have hparts : parts initName = [initName] := by decide
  have hend : pathEnd fs initName fs.rootDnode = walkParts fs fs.rootDnode [initName] := by
    rw [pathEnd, hstart, hparts]
    rfl
  rw [hopen, dzfsOpenRelative_eq hroot flags date initName hroot, hend, hstart,
    walkParts_singleton, if_neg (fun h => List.cons_ne_nil _ _ h.2)]

/-- A boot whose open returns an entity is a write to it. -/
theorem booted_eq {s : FsState} {fs' : Dzfs} {d f : Nat} {date : UInt64}
    (ho : dzfsOpenAbsolute s.fs DZFS_O_CREATE date fsPathInit = (⟨.OK, some d, some f⟩, fs'))
    (prog : List UInt8) :
    exec s (.openAbsolute fsPathInit DZFS_O_CREATE date) = ⟨fs', insert d s.entities⟩ ∧
      booted prog date s = exec ⟨fs', insert d s.entities⟩ (.write d prog 0) := by
  unfold booted bootCalls
  generalize fsPathInit = path at ho ⊢
  have hexec : exec s (.openAbsolute path DZFS_O_CREATE date) = ⟨fs', insert d s.entities⟩ := by
    simp only [exec, ho, entitiesAfterOpen]
  refine ⟨hexec, ?_⟩
  simp only [outcome, ho, List.foldl_cons, List.foldl_nil, hexec, Option.getD_some]

section
variable {s : FsState} {d : Nat} {c : Content UInt8} {prog : List UInt8}

theorem HasInit.open (h : HasInit s d c) (flags : UInt32) (date : UInt64) :
    dzfsOpenAbsolute s.fs flags date fsPathInit
      = (⟨.OK, some d, some s.fs.rootDnode⟩, s.fs) := by
  obtain ⟨t, ls, hrep, hd, -⟩ := h.rep
  have hroot := hrep.inv.ne_zero hrep.inv.root_mem
  have hne := hrep.inv.ne_zero (hrep.inv.entity_of_listed hd).1
  have hlookup : folderLookupName s.fs (s.fs.disk s.fs.rootDnode) initName = d :=
    (hrep.names.lookup_iff (hrep.inv.lists _ hrep.inv.root_mem hrep.inv.root_folder) (by decide)
      (by decide) hne).mpr ⟨hd, h.name⟩
  rw [openInit_eq hroot, hlookup, if_neg hne, openAt]

/-- A boot with `/init` is a write to it. -/
theorem HasInit.booted (h : HasInit s d c) (prog : List UInt8) (date : UInt64) :
    booted prog date s = exec s (.write d prog 0) := by
  obtain ⟨t, ls, hrep, hd, -⟩ := h.rep
  rw [(booted_eq (h.open DZFS_O_CREATE date) prog).2,
    Finset.insert_eq_of_mem (hrep.inv.entity_of_listed hd).1]

theorem HasInit.write (h : HasInit s d c) (hprog : prog.length < 2 ^ 32) :
    HasInit (exec s (.write d prog 0)) d (contentAfter prog c (dzfsWrite s.fs d prog 0).1) := by
  obtain ⟨t, ls, hrep, hd, e, he, hc⟩ := h.rep
  have hmem := (hrep.inv.entity_of_listed hd).1
  have hlt : prog.length + 0 < 2 ^ 64 := by omega
  have hroot : (exec s (.write d prog 0)).fs.rootDnode = s.fs.rootDnode :=
    (dzfsWrite_vars s.fs d prog 0).2
  refine ⟨⟨_, ls, hrep.write hlt hmem, ?_, storeWrite_content he hc prog _⟩, ?_,
    h.mount.exec hrep.inv ⟨hlt, hmem, trivial⟩⟩
  · rw [hroot]
    exact hd
  · rw [← h.name]
    exact headerName_congr
      (fun i hi => dzfsWrite_header hrep.inv.toCore hmem hlt hmem hi)
      (hrep.names.short _ d hd)

theorem HasInit.file (h : HasInit s d c) :
    entityType (s.fs.disk d) = DZFS_ENTITY_FILE ∧ HasContent s.fs d c := by
  obtain ⟨t, ls, hrep, -, e, he, hc⟩ := h.rep
  exact hrep.file d e c he hc

theorem HasInit.accepted (h : HasInit s d c) (hmax : prog.length ≤ DZFS_MAX_FILESIZE) :
    Accepted s.fs d prog 0 := by
  have hlimit : DZFS_MAX_FILESIZE < 2 ^ 64 := by decide
  refine ⟨h.file.1, ?_, Nat.zero_le _⟩
  rw [Nat.add_zero, Nat.mod_eq_of_lt (hmax.trans_lt hlimit)]
  exact hmax

end

/-! ### A program that fits -/

/-- The program was written as often as there were boots. -/
structure Installed (prog : List UInt8) (boots : Nat) (c : Content UInt8) : Prop where
  size : c.size = boots * prog.length % 2 ^ 32
  known : ∀ pos < prog.length, c.known pos = prog[pos]?

section
variable {s : FsState} {d boots : Nat} {c : Content UInt8} {prog : List UInt8}

theorem installed_written (hsize : c.size = boots * prog.length % 2 ^ 32) :
    Installed prog (boots + 1) (written prog 0 c) where
  size := by
    simp only [written, Content.resize, hsize, Nat.mod_add_mod, Nat.succ_mul]
  known pos hpos := by
    have hin : 0 ≤ pos ∧ pos < 0 + prog.length := by omega
    simp only [written, Content.resize, Content.put, if_pos hin, Nat.sub_zero]

/-- A boot with enough space writes the program. -/
theorem HasInit.install (h : HasInit s d c) (hfits : prog.length ≤ programBlocks * DZFS_BLOCK_SIZE)
    (hsize : c.size = boots * prog.length % 2 ^ 32) (henough : ¬ Short s.fs d prog 0) :
    HasInit (exec s (.write d prog 0)) d (written prog 0 c) ∧
      Installed prog (boots + 1) (written prog 0 c) := by
  have hmax : programBlocks * DZFS_BLOCK_SIZE ≤ DZFS_MAX_FILESIZE := by decide
  have hlimit : programBlocks * DZFS_BLOCK_SIZE < 2 ^ 32 := by decide
  have hacc : Accepted s.fs d prog 0 := h.accepted (hfits.trans hmax)
  have hwritten := h.write (hfits.trans_lt hlimit)
  obtain ⟨t, ls, hrep, hd, -⟩ := h.rep
  rw [dzfsWrite_enough hrep.inv.toCore (hrep.inv.entity_of_listed hd).1 hacc (by omega) henough]
    at hwritten
  exact ⟨hwritten, installed_written hsize⟩

/-- A program that was written has its blocks. -/
theorem HasInit.not_short (h : HasInit s d c) (hc : Installed prog boots c) :
    ¬ Short s.fs d prog 0 := by
  have hmissing : missing (s.fs.disk d) (indirectOf s.fs d) 0 (0 + prog.length) = ∅ := by
    refine Finset.eq_empty_of_forall_notMem fun index hindex => ?_
    obtain ⟨-, htouched, hzero⟩ := mem_missing.mp hindex
    obtain ⟨pos, -, hpos, rfl⟩ := htouched
    rw [Nat.zero_add] at hpos
    have hknown := (hc.known pos hpos).trans (List.getElem?_eq_getElem hpos)
    exact (h.file.2.known pos _ hknown).2.1 hzero
  unfold Short needed
  rw [hmissing]
  simp

end

/-! ### A program that does not fit -/

section
variable {s : FsState} {d : Nat} {c : Content UInt8} {prog : List UInt8}

theorem contentAfter_size {r : DzfsResult} (hr : r ≠ .OK) :
    (contentAfter prog c r).size = c.size := by
  cases r with
  | OK => exact absurd rfl hr
  | ERR_FULL => rfl
  | ERR_ARGUMENT | ERR_LIMIT | ERR_NOT_FOUND | ERR_NOT_EMPTY | ERR_TOO_SMALL => rfl

/-- A boot without enough space leaves the file as it is, and it takes the free blocks. -/
theorem HasInit.lost (h : HasInit s d c) (hu : Unwritten s.fs d) (hprog : prog.length < 2 ^ 32)
    (hlong : programBlocks * DZFS_BLOCK_SIZE < prog.length) :
    ∃ c', HasInit (exec s (.write d prog 0)) d c' ∧ c'.size = c.size ∧
      Unwritten (exec s (.write d prog 0)).fs d := by
  obtain ⟨t, ls, hrep, hd, -⟩ := h.rep
  have hmem := (hrep.inv.entity_of_listed hd).1
  have hkept : (dzfsWrite s.fs d prog 0).1 ≠ .OK ∧ Unwritten (dzfsWrite s.fs d prog 0).2 d := by
    by_cases hacc : Accepted s.fs d prog 0
    · have hshort : Short s.fs d prog 0 := by
        rw [Short, Nat.zero_add]
        exact lt_of_le_of_lt hu.free (hu.lt_needed hlong)
      obtain ⟨last, st, hw, hstuck⟩ := dzfsWrite_short hrep.inv.toCore hmem hacc hshort
      have hdnode : st.fs.disk d = s.fs.disk d :=
        hstuck.stopped.kept (.dnode d) d ⟨hmem, rfl⟩ (Or.inr (Or.inl rfl))
      rw [hw]
      refine ⟨DzfsResult.noConfusion, fun i hi => ?_, ?_⟩
      · rw [hdnode]
        exact hu.links i hi
      · rw [hstuck.full]
        exact Nat.zero_le _
    · obtain ⟨hr, hsame⟩ := dzfsWrite_of_not_accepted hacc
      rw [hsame]
      exact ⟨hr, hu⟩
  exact ⟨_, h.write hprog, contentAfter_size hkept.1, hkept.2⟩

end

/-! ### Boots -/

section
variable {disk : Nat → Bytes} {date : UInt64} {fs : Dzfs}

/-- All blocks but those of the system are free: one for `/init`, and those of the program. -/
theorem dzfsNew_free (hnew : dzfsNew disk totalBlocks date = (.OK, fs)) :
    dzfsFreeBlocks fs = programBlocks + 1 := by
  have hF : fs.freeBitmapBlocks = 1 := (dzfsNew_vars hnew).1.trans (by decide)
  have hcov : covered fs = DZFS_BITSET_COVERED_BLOCKS := by
    rw [covered, hF, Nat.mul_one]
  have hbits : ((Finset.range (covered fs)).filter fun n => bit fs n = true)
      = Finset.Ico 4 totalBlocks := by
    have htotal : totalBlocks = 17 := by decide
    ext n
    rw [Finset.mem_filter, Finset.mem_range, Finset.mem_Ico]
    by_cases hn : n < covered fs
    · have hlt : n < DZFS_BITSET_COVERED_BLOCKS := hcov ▸ hn
      have hblock : bitmapBlock n = 2 := by
        simp only [bitmapBlock, DZFS_BITSET_COVERED_BLOCKS, DZFS_BLOCK_SIZE] at hlt ⊢
        omega
      rw [dzfsNew_bit (by decide) hnew hn, hF, hblock, Nat.mod_eq_of_lt hlt]
      simp [hn, hlt.not_ge]
    · refine iff_of_false (fun h => hn h.1) fun h => hn ?_
      rw [hcov]
      simp only [DZFS_BITSET_COVERED_BLOCKS, DZFS_BLOCK_SIZE]
      omega
  have hlimit : DZFS_BITSET_COVERED_BLOCKS < 2 ^ 32 := by decide
  rw [dzfsFreeBlocks_eq_card (hcov ▸ hlimit), hbits, Nat.card_Ico]
  rfl

/-- The first boot creates `/init`, and then it writes to it. -/
theorem firstBoot_init (disk : Nat → Bytes) (prog : List UInt8) (formatDate createDate : UInt64) :
    ∃ s d, firstBoot prog formatDate createDate disk = exec s (.write d prog 0) ∧
      HasInit s d Content.empty ∧ Unwritten s.fs d ∧ dzfsFreeBlocks s.fs = programBlocks := by
  have hnew := dzfsNew_totalBlocks disk formatDate
  have hle : totalBlocks ≤ formatLimit := by decide
  have hrep := rootStore_represents hle hnew
  have hfree := dzfsNew_free hnew
  obtain ⟨hmount, -⟩ := dzfsNew_mountable hle hnew
  unfold firstBoot
  generalize (dzfsNew disk totalBlocks formatDate).2 = fs at hrep hfree hmount
  have hroot : fs.rootDnode ≠ 0 := hrep.inv.ne_zero hrep.inv.root_mem
  have hfolder := hrep.inv.root_folder
  have hlists := hrep.inv.lists _ hrep.inv.root_mem hfolder
  have hcov : covered fs < 2 ^ 32 := lt_of_le_of_lt hrep.inv.covered_le (by decide)
  have hroom : Room fs fs.rootDnode := by
    have hcount : folderContentCount (fs.disk fs.rootDnode) = 0 := hlists.count
    refine ⟨by rw [hcount]; decide, fun hzero => ?_⟩
    rw [(blockAlloc_eq_zero_iff hcov (hrep.inv.low 0 (Nat.pos_of_ne_zero hroot))).mp hzero] at hfree
    cases hfree
  have hmissing : folderLookupName fs (fs.disk fs.rootDnode) initName = 0 :=
    (hlists.lookup_eq_zero_iff (by decide) (by decide)).mpr fun n hn => nomatch hn
  have hopen : dzfsOpenAbsolute fs DZFS_O_CREATE createDate fsPathInit
      = createEntity fs fs.rootDnode (fs.disk fs.rootDnode) initName DZFS_O_CREATE createDate
        fs.rootDnode := by
    rw [openInit_eq hroot, if_pos hmissing, openAt, if_pos (by decide)]
  rcases hcreate : createEntity fs fs.rootDnode (fs.disk fs.rootDnode) initName DZFS_O_CREATE
    createDate fs.rootDnode with ⟨out, fs'⟩
  rcases createEntity_creation hrep.inv hrep.inv.root_mem hfolder (fun _ => by decide) _ _ _
    hcreate with ⟨-, hr⟩ | ⟨d, rfl, hc⟩
  · have hok := (createEntity_of_room hroom initName DZFS_O_CREATE createDate fs.rootDnode).1
    rw [hcreate] at hok
    simp only at hok
    rw [hok] at hr
    exact absurd rfl hr
  · have hd : ¬ d = fs.rootDnode := fun heq => hc.not_mem (Finset.mem_singleton.mpr heq)
    have hlast : (parts fsPathInit).getLast? = some initName := by decide
    have hrep' := hrep.create ⟨hrep.inv.root_mem, hfolder⟩ hc (by decide) (by decide) hmissing hlast
    have hnone : rootStore fs d = none := if_neg hd
    have he : ((rootStore fs).create d (newEntity fs.rootDnode fsPathInit DZFS_O_CREATE)) d
        = some (newEntity fs.rootDnode fsPathInit DZFS_O_CREATE) := by
      rw [NamedStore.create_of_none hnone, Function.update_self]
    have hflags : ¬ DZFS_O_CREATE &&& DZFS_O_DIR ≠ 0 := by decide
    have hcontent : (newEntity fs.rootDnode fsPathInit DZFS_O_CREATE).content
        = some Content.empty := by
      simp only [newEntity, if_neg hflags]
    have hnew : (newEntity fs.rootDnode fsPathInit DZFS_O_CREATE).name = initName := by
      simp only [newEntity, hlast, Option.getD_some]
    have hroot' : fs'.rootDnode = fs.rootDnode := hc.only.2
    obtain ⟨hlisted, hname⟩ := hrep'.listed d _ he fun heq => hd (heq.trans hroot')
    have hout : dzfsOpenAbsolute fs DZFS_O_CREATE createDate fsPathInit
        = (⟨.OK, some d, some fs.rootDnode⟩, fs') := hopen.trans hcreate
    obtain ⟨hexec, hbooted⟩ := @booted_eq (newState fs) _ _ _ _ hout prog
    have hmount' := hmount.exec hrep.inv (sound_openInit (newState fs) createDate)
    rw [hexec] at hmount'
    have hlt : d < covered fs := hc.only.1 ▸ (hc.inv.mem_used (Finset.mem_insert_self _ _)).2.1
    have hbits : dzfsFreeBlocks fs = dzfsFreeBlocks fs' + 1 :=
      dzfsFreeBlocks_take hcov hc.only.1 hlt hc.free hc.bits
    have hfree' : dzfsFreeBlocks fs' = programBlocks := by omega
    refine ⟨⟨fs', insert d {fs.rootDnode}⟩, d, ?_,
      ⟨⟨_, _, hrep', ?_, _, he, hcontent⟩, hname.trans hnew, hmount'⟩,
      ⟨fun i hi => hc.links i hi, hfree'.le⟩, hfree'⟩
    · exact hbooted
    · simp only [hroot']
      exact hlisted

end

/-- The boots with the dates of a list. -/
def bootEvents (dates : List (UInt64 × UInt64)) : List Event :=
  dates.map fun (formatDate, createDate) => .boot formatDate createDate

/-- The outcome of boots: a program that fits is written, and one that does not fit leaves the file
empty. -/
def AfterBoots (prog : List UInt8) (boots : Nat) (s : FsState) (d : Nat) : Prop :=
  ∃ c, HasInit s d c ∧
    (Installed prog boots c ∧ prog.length ≤ programBlocks * DZFS_BLOCK_SIZE ∨
      c.size = 0 ∧ Unwritten s.fs d ∧ programBlocks * DZFS_BLOCK_SIZE < prog.length)

section
variable {s : FsState} {d boots : Nat} {prog : List UInt8}

section

variable (h : AfterBoots prog boots s d)

include h

/-- One more boot. -/
theorem AfterBoots.boot (hprog : prog.length < 2 ^ 32) (date : UInt64) :
    AfterBoots prog (boots + 1) (booted prog date s) d := by
  obtain ⟨c, hinit, hcase⟩ := h
  rw [hinit.booted]
  rcases hcase with ⟨hc, hfits⟩ | ⟨hzero, hu, hlong⟩
  · obtain ⟨hinit', hc'⟩ := hinit.install hfits hc.size (hinit.not_short hc)
    exact ⟨_, hinit', Or.inl ⟨hc', hfits⟩⟩
  · obtain ⟨c', hinit', hsize, hu'⟩ := hinit.lost hu hprog hlong
    exact ⟨c', hinit', Or.inr ⟨hsize.trans hzero, hu', hlong⟩⟩

theorem AfterBoots.run (hprog : prog.length < 2 ^ 32) (dates : List (UInt64 × UInt64)) :
    AfterBoots prog (boots + dates.length)
      ((bootEvents dates).foldl (eventAfter prog) s) d := by
  induction dates generalizing s boots with
  | nil => exact h
  | cons date dates ih =>
    have hrest := ih (h.boot hprog date.2)
    rw [Nat.add_right_comm] at hrest
    exact hrest

/-- No boot formats the disk or panics. -/
theorem AfterBoots.events {nvmeBlockSize : Nat} (hbs : DZFS_BLOCK_SIZE % nvmeBlockSize = 0)
    (hprog : prog.length < 2 ^ 32) (dates : List (UInt64 × UInt64)) :
    (bootEvents dates).foldlM (eventStep nvmeBlockSize prog) s
      = .ok ((bootEvents dates).foldl (eventAfter prog) s) := by
  induction dates generalizing s boots with
  | nil => rfl
  | cons date dates ih =>
    obtain ⟨c, hinit, -⟩ := id h
    have hstep : eventStep nvmeBlockSize prog s (.boot date.1 date.2)
        = .ok (booted prog date.2 s) := by
      rw [eventStep, hinit.mount.fsInit hbs]
      rfl
    have hrest := ih (h.boot hprog date.2)
    rw [bootEvents, List.map_cons, List.foldlM_cons, hstep]
    exact hrest

/-- What the calls show of `/init`. -/
theorem AfterBoots.shows :
    dzfsOpenAbsolute s.fs 0 0 fsPathInit = (⟨.OK, some d, some s.fs.rootDnode⟩, s.fs) ∧
      if prog.length ≤ programBlocks * DZFS_BLOCK_SIZE then
        (dzfsStat s.fs d).2.size = boots * prog.length % 2 ^ 32 ∧
          ∀ size ≤ prog.length, (dzfsRead s.fs d size 0).2
            = prog.take (min (boots * prog.length % 2 ^ 32) size)
      else (dzfsStat s.fs d).2.size = 0 := by
  obtain ⟨c, hinit, hcase⟩ := h
  obtain ⟨hfile, hcontent⟩ := hinit.file
  refine ⟨hinit.open 0 0, ?_⟩
  rw [dzfsStat_file_size hfile, hcontent.size]
  rcases hcase with ⟨hc, hfits⟩ | ⟨hzero, -, hlong⟩
  · rw [if_pos hfits, hc.size]
    refine ⟨rfl, fun size hsize => ?_⟩
    have hcount : readCount c.size size 0 = min (boots * prog.length % 2 ^ 32) size := by
      have hlimit : programBlocks * DZFS_BLOCK_SIZE < 2 ^ 31 := by decide
      rw [hc.size]
      generalize boots * prog.length % 2 ^ 32 = total
      unfold readCount
      split
      · omega
      · rw [Nat.sub_zero, Nat.mod_eq_of_lt (by omega), if_pos (by omega)]
    have hread := hcontent.readShows hfile size 0
    refine List.ext_getElem? fun i => ?_
    by_cases hi : i < min (boots * prog.length % 2 ^ 32) size
    · have hlt : i < prog.length := (lt_min_iff.mp hi).2.trans_le hsize
      have hknown : c.known (0 + i) = some prog[i] := by
        rw [Nat.zero_add, hc.known i hlt, List.getElem?_eq_getElem hlt]
      rw [hread.known i (hcount ▸ hi) _ hknown, List.getElem?_take_of_lt hi,
        List.getElem?_eq_getElem hlt]
    · have hlen := hread.length.trans hcount
      have hle := not_lt.mp hi
      rw [List.getElem?_eq_none (hlen ▸ hle),
        List.getElem?_eq_none ((List.length_take_le _ _).trans hle)]
  · rw [if_neg (not_le.mpr hlong), hzero]

end

end

/-- What boots do to `/init`, from a disk without the magic number on. No boot panics. If the
program has 12 blocks at most, it is in front of the file after each boot, and every boot adds its
length to the size of the file, modulo 2³². If it is longer, the file is empty after each boot. -/
theorem boots_install {disk : Nat → Bytes} (hmagic : (disk 1).slice 0 4 ≠ DZFS_MAGIC)
    {nvmeBlockSize : Nat} (hbs : DZFS_BLOCK_SIZE % nvmeBlockSize = 0) {prog : List UInt8}
    (hprog : prog.length < 2 ^ 32) (formatDate createDate : UInt64)
    (dates : List (UInt64 × UInt64)) :
    fsInit nvmeBlockSize prog formatDate createDate disk
        = .ok (firstBoot prog formatDate createDate disk).fs ∧
      ∃ s d, (bootEvents dates).foldlM (eventStep nvmeBlockSize prog)
          (firstBoot prog formatDate createDate disk) = .ok s ∧
        dzfsOpenAbsolute s.fs 0 0 fsPathInit = (⟨.OK, some d, some s.fs.rootDnode⟩, s.fs) ∧
        if prog.length ≤ programBlocks * DZFS_BLOCK_SIZE then
          (dzfsStat s.fs d).2.size = (1 + dates.length) * prog.length % 2 ^ 32 ∧
            ∀ size ≤ prog.length, (dzfsRead s.fs d size 0).2
              = prog.take (min ((1 + dates.length) * prog.length % 2 ^ 32) size)
        else (dzfsStat s.fs d).2.size = 0 := by
  obtain ⟨s, d, hfirst, hinit, hu, hfree⟩ := firstBoot_init disk prog formatDate createDate
  have hafter : AfterBoots prog 1 (firstBoot prog formatDate createDate disk) d := by
    rw [hfirst]
    by_cases hfits : prog.length ≤ programBlocks * DZFS_BLOCK_SIZE
    · have henough : ¬ Short s.fs d prog 0 := by
        rw [Short, hfree, Nat.zero_add]
        exact not_lt.mpr (hu.needed_le hfits)
      have hzero : Content.empty.size (B := UInt8) = 0 * prog.length % 2 ^ 32 := by
        rw [Nat.zero_mul]
        rfl
      obtain ⟨hinit', hc⟩ := hinit.install hfits hzero henough
      exact ⟨_, hinit', Or.inl ⟨hc, hfits⟩⟩
    · obtain ⟨c, hinit', hsize, hu'⟩ := hinit.lost hu hprog (not_le.mp hfits)
      exact ⟨c, hinit', Or.inr ⟨hsize, hu', not_le.mp hfits⟩⟩
  exact ⟨fsInit_first hmagic hbs formatDate createDate, _, d, hafter.events hbs hprog dates,
    (hafter.run hprog dates).shows⟩

theorem boots_install_twice :
    ∃ s d, (bootEvents [(1, 1)]).foldlM (eventStep 512 [127, 69, 76, 70])
        (firstBoot [127, 69, 76, 70] 0 0 fun _ => Bytes.zero) = .ok s ∧
      (dzfsStat s.fs d).2.size = 8 ∧ (dzfsRead s.fs d 4 0).2 = [127, 69, 76, 70] := by
  obtain ⟨-, s, d, hrun, -, hshows⟩ := @boots_install (fun _ => Bytes.zero)
    (show (Bytes.zero).slice 0 4 ≠ DZFS_MAGIC by decide) 512 (by decide) _
    (show [127, 69, 76, 70].length < 2 ^ 32 by decide) 0 0 [(1, 1)]
  rw [if_pos (by decide)] at hshows
  exact ⟨s, d, hrun, hshows.1, hshows.2 4 (by decide)⟩

end DzOS.Proofs.Fs
