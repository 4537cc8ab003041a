import DzOS.Proofs.Fs.Variables

/-!
# `DzOS.Proofs.Fs.NewEntity`: when a created entity is well formed

`createEntity` copies the last part of the path into the name of the new block, without a look
at its length. A part of 255 bytes or more runs over the date, the size and the pointers behind
the name. A part of no bytes gives an entity without a name: a path with two slashes at its end
has such a part.

`create_wellFormed_iff` is the exact condition, for every state of every run of any calls.
-/

set_option autoImplicit false

namespace DzOS.Proofs.Fs

open DzOS.Lib DzOS.Fs

variable {name : List UInt8}

/-! ### Well-formed entities -/

/-- The block of a file without content. -/
structure EmptyFile (b : Bytes) : Prop where
  type : entityType b = DZFS_ENTITY_FILE
  size : fileSize b = 0
  indirect : fileIndirect b = 0
  direct : ∀ i < DZFS_DIRECT_BLOCKS, fileDirect b i = 0

/-- The block of a folder without children. -/
structure EmptyFolder (b : Bytes) (parent : Nat) : Prop where
  type : entityType b = DZFS_ENTITY_FOLDER
  parent : folderParent b = parent
  content : ∀ i < DZFS_MAX_DIR_CONTENTS, contentDnode b i = 0

/-- The entity `n` is new and well formed: it has the name, the date and the type that the
call asks for, the name ends inside its 255 bytes, and the folder `cur` lists it. -/
structure WellFormed (fs : Dzfs) (flags : UInt32) (date : UInt64) (cur n : Nat)
    (name : List UInt8) : Prop where
  name_ne : name ≠ []
  name_eq : headerName (fs.disk n) = name
  terminated : ∃ i < DZFS_MAX_FILENAME + 1, fs.disk n (1 + i) = 0
  date_eq : (fs.disk n).getLE 8 256 = date.toNat
  kind : if flags &&& DZFS_O_DIR ≠ 0 then EmptyFolder (fs.disk n) cur else EmptyFile (fs.disk n)
  ne_zero : n ≠ 0
  listed : ∃ i < DZFS_MAX_DIR_CONTENTS, contentDnode (fs.disk cur) i = n

theorem lookupFrom_lt (fs : Dzfs) (b : Bytes) (name : List UInt8) (left i : Nat) :
    lookupFrom fs b name left i < 2 ^ 32 := by
  induction left generalizing i with
  | zero => exact Nat.two_pow_pos 32
  | succ left ih =>
    unfold lookupFrom
    split
    · exact Nat.two_pow_pos 32
    · split
      · exact Bytes.getLE_lt b 4 _
      · exact ih (i + 1)

/-- The law of a creation. An open that fails writes nothing. One of an existing entity does
what it does without `DZFS_O_CREATE`, and writes nothing. Otherwise the new entity is well
formed, with the last part of the path as its name. -/
structure CreateLaw (fs : Dzfs) (path : List UInt8) (relativeTo : Nat) (flags : UInt32)
    (date : UInt64) : Prop where
  failed : (dzfsOpenRelative fs flags date path relativeTo).1.result ≠ .OK →
    (dzfsOpenRelative fs flags date path relativeTo).2 = fs
  existing : (dzfsOpenRelative fs 0 date path relativeTo).1.result = .OK →
    dzfsOpenRelative fs flags date path relativeTo
      = ((dzfsOpenRelative fs 0 date path relativeTo).1, fs)
  created : (dzfsOpenRelative fs flags date path relativeTo).1.result = .OK →
    (dzfsOpenRelative fs 0 date path relativeTo).1.result ≠ .OK →
    ∃ n cur name, (dzfsOpenRelative fs flags date path relativeTo).1
        = ⟨.OK, some n, some cur⟩ ∧ (parts path).getLast? = some name ∧
      WellFormed (dzfsOpenRelative fs flags date path relativeTo).2 flags date cur n name

/-- The bytes of a new block in front of the date. -/
theorem newDnode_header (name : List UInt8) (parent : Nat) (flags : UInt32) (date : UInt64)
    {i : Nat} (h1 : 1 ≤ i) (h264 : i < 264) : newDnode name parent flags date i
      = ((Bytes.zero.setLE 8 256 date.toNat).blit 1 name).set (1 + name.length) 0 i := by
  unfold newDnode
  split
  · rw [Bytes.setLE_of_apart (Or.inl (by simpa only [SIZE_OFFSET] using h264)), Bytes.set,
      if_neg (by omega)]
  · rw [Bytes.set, if_neg (by omega)]

section
variable {name : List UInt8} (hname : name.length ≤ DZFS_MAX_FILENAME) (parent : Nat)
  (flags : UInt32) (date : UInt64)

/-- A name without room for its `NUL` does not end inside its 255 bytes. -/
theorem newDnode_not_terminated (hlong : DZFS_MAX_FILENAME < name.length) (hnul : 0 ∉ name) :
    ¬ ∃ i < DZFS_MAX_FILENAME + 1, newDnode name parent flags date (1 + i) = 0 := by
  rintro ⟨i, hi, hzero⟩
  simp only [DZFS_MAX_FILENAME] at hlong hi
  rw [newDnode_header name parent flags date (by omega) (by omega), Bytes.set, if_neg (by omega),
    Bytes.blit_of_mem (by omega) (by omega)] at hzero
  exact hnul (hzero ▸ List.getElem_mem _)

include hname

/-- The name in a new block. -/
theorem newDnode_name : nameMatches (newDnode name parent flags date) name = true := by
  simp only [DZFS_MAX_FILENAME] at hname
  have hbase := fun i h1 h264 => newDnode_header name parent flags date (i := i) h1 h264
  simp only [nameMatches, decide_eq_true_eq]
  constructor
  · refine List.ext_getElem (Bytes.length_slice _ _ _) fun i hi hi' => ?_
    rw [Bytes.getElem_slice, hbase _ (by omega) (by omega), Bytes.set, if_neg (by omega),
      Bytes.blit_of_mem (by omega) (by omega)]
    simp
  · rw [hbase _ (by omega) (by omega), Bytes.set, if_pos rfl]

/-- The date in a new block. -/
theorem newDnode_date : (newDnode name parent flags date).getLE 8 256 = date.toNat := by
  simp only [DZFS_MAX_FILENAME] at hname
  have hbase : (newDnode name parent flags date).getLE 8 256
      = (Bytes.zero.setLE 8 256 date.toNat).getLE 8 256 := by
    refine Bytes.getLE_congr fun i h1 h2 => ?_
    rw [newDnode_header name parent flags date (by omega) h2, Bytes.set, if_neg (by omega),
      Bytes.blit_of_apart (Or.inr (by omega))]
  rw [hbase, Bytes.getLE_setLE_self]
  exact Nat.mod_eq_of_lt date.toNat_lt

/-- The type and the links of a new block. -/
theorem newDnode_kind (hparent : parent < 2 ^ 32) :
    if flags &&& DZFS_O_DIR ≠ 0 then EmptyFolder (newDnode name parent flags date) parent
    else EmptyFile (newDnode name parent flags date) := by
  have hlinks := newDnode_links (show name.length < 268 by
    simp only [DZFS_MAX_FILENAME] at hname
    omega) parent flags date
  have hzero : ∀ off, 268 ≤ off → (newDnode name parent flags date).getLE 4 off = 0 :=
    fun off hoff => Bytes.getLE_eq_zero fun i hi _ => hlinks i (hoff.trans hi)
  split
  · rename_i hdir
    have hblock : newDnode name parent flags date
        = ((((Bytes.zero.setLE 8 256 date.toNat).blit 1 name).set (1 + name.length) 0).set 0
          DZFS_ENTITY_FOLDER).setLE 4 SIZE_OFFSET parent := by
      unfold newDnode
      exact if_pos hdir
    refine ⟨?_, ?_, fun i _ => hzero _ (by simp only [contentOffset]; omega)⟩
    · rw [hblock, entityType, Bytes.setLE_of_apart (Or.inl (by decide)), Bytes.set, if_pos rfl]
    · rw [hblock, folderParent, Bytes.getLE_setLE_self]
      exact Nat.mod_eq_of_lt hparent
  · rename_i hdir
    have hblock : newDnode name parent flags date
        = (((Bytes.zero.setLE 8 256 date.toNat).blit 1 name).set (1 + name.length) 0).set 0
          DZFS_ENTITY_FILE := by
      unfold newDnode
      exact if_neg hdir
    refine ⟨?_, ?_, hzero _ (Nat.le_refl _),
      fun i _ => hzero _ (by simp only [directOffset]; omega)⟩
    · rw [hblock, entityType, Bytes.set, if_pos rfl]
    · simp only [DZFS_MAX_FILENAME] at hname
      rw [hblock]
      refine Bytes.getLE_eq_zero fun i h1 _ => ?_
      simp only [SIZE_OFFSET] at h1
      rw [Bytes.set, if_neg (by omega), Bytes.set, if_neg (by omega),
        Bytes.blit_of_apart (Or.inr (by omega)), Bytes.setLE_of_apart (Or.inr (by omega))]
      rfl

end

/-! ### The creation -/

section
variable {fs : Dzfs} {cur : Nat}

theorem folderContentCount_le (b : Bytes) : folderContentCount b ≤ DZFS_MAX_DIR_CONTENTS := by
  unfold folderContentCount
  cases hs : scan (fun i => contentDnode b i = 0) DZFS_MAX_DIR_CONTENTS 0 with
  | none => exact Nat.le_refl _
  | some i =>
    obtain ⟨-, hi, -⟩ := scan_eq_some hs
    simp only [Option.getD_some]
    omega

/-- The created entity is well formed if and only if its name fits and the new block is not the
folder itself. -/
theorem wellFormed_iff (hroom : Room fs cur) (hcov : covered fs ≤ 2 ^ 32) (hcur : cur < 2 ^ 32)
    (hnul : 0 ∉ name) (flags : UInt32) (date : UInt64) (parent : Nat) :
    WellFormed (createEntity fs cur (fs.disk cur) name flags date parent).2 flags date cur
        (blockAlloc fs).1 name ↔
      name ≠ [] ∧ name.length ≤ DZFS_MAX_FILENAME ∧ cur ≠ (blockAlloc fs).1 := by
  obtain ⟨-, hself, hfolder⟩ := createEntity_of_room hroom name flags date parent
  constructor
  · intro h
    have hlen : name.length ≤ DZFS_MAX_FILENAME := by
      by_contra hlong
      have hterm := h.terminated
      rw [hself] at hterm
      exact newDnode_not_terminated cur flags date (not_le.mp hlong) hnul hterm
    refine ⟨h.name_ne, hlen, fun heq => ?_⟩
    -- A block that was the folder has no entries any more.
    obtain ⟨i, -, hi⟩ := h.listed
    rw [← heq] at hself
    rw [hself, contentDnode, Bytes.getLE_eq_zero] at hi
    · exact h.ne_zero hi.symm
    · intro j hj _
      simp only [contentOffset] at hj
      simp only [DZFS_MAX_FILENAME] at hlen
      exact newDnode_links (by omega) cur flags date j (by omega)
  · rintro ⟨hne, hlen, hother⟩
    have hmatch := newDnode_name hlen cur flags date
    have hword : (blockAlloc fs).1 < 2 ^ 32 := by
      rcases blockAlloc_spec fs with hno | ⟨n, fs₁, halloc, -, hlt, -⟩
      · rw [hno]
        exact Nat.two_pow_pos 32
      · rw [halloc]
        exact lt_of_lt_of_le hlt hcov
    refine ⟨hne, ?_, ⟨name.length, Nat.lt_succ_of_le hlen, ?_⟩, ?_, ?_, hroom.2, ?_⟩
    · rw [hself]
      exact headerName_of_matches hnul hlen hmatch
    · rw [hself]
      simp only [nameMatches, decide_eq_true_eq] at hmatch
      exact hmatch.2
    · rw [hself]
      exact newDnode_date hlen cur flags date
    · rw [hself]
      exact newDnode_kind hlen cur flags date hcur
    · refine ⟨folderContentCount (fs.disk cur),
        lt_of_le_of_ne (folderContentCount_le _) hroom.1, ?_⟩
      rw [hfolder hother, contentDnode_setLE _ _ _ _ hword, if_pos rfl]

end

/-! ### The law of a creation -/

/-- When the law holds: if the open creates an entity, its name fits, and the new block is not
the folder that gets the entry. -/
def CreateOk (fs : Dzfs) (path : List UInt8) (relativeTo : Nat) : Prop :=
  ∀ cur name, pathEnd fs path relativeTo = .missing cur name → Room fs cur →
    name ≠ [] ∧ name.length ≤ DZFS_MAX_FILENAME ∧ cur ≠ (blockAlloc fs).1

section
variable {fs : Dzfs} {path : List UInt8} {relativeTo : Nat} {flags : UInt32} {date : UInt64}

/-- The law of an open that creates nothing. -/
theorem CreateLaw.of_plain {out out' : OpenOut}
    (hopen : dzfsOpenRelative fs flags date path relativeTo = (out, fs))
    (hplain : dzfsOpenRelative fs 0 date path relativeTo = (out', fs))
    (hsame : out'.result = .OK → out = out') (hok : out.result = .OK → out'.result = .OK) :
    CreateLaw fs path relativeTo flags date := by
  refine ⟨fun _ => by rw [hopen], fun h => ?_, fun h hno => ?_⟩
  · rw [hplain] at h ⊢
    rw [hopen, hsame h]
  · rw [hopen] at h
    rw [hplain] at hno
    exact absurd (hok h) hno

/-- The law of an open whose walk ends at a missing name. -/
theorem createLaw_of_missing {cur start : Nat} (hcreate : flags &&& DZFS_O_CREATE ≠ 0)
    (hopen : ∀ flags, dzfsOpenRelative fs flags date path relativeTo
      = openAt fs flags date start (.missing cur name)) (hlast : (parts path).getLast? = some name)
    (hnul : 0 ∉ name) (hcov : covered fs ≤ 2 ^ 32) (hcur : cur < 2 ^ 32) :
    CreateLaw fs path relativeTo flags date ↔ (Room fs cur →
      name ≠ [] ∧ name.length ≤ DZFS_MAX_FILENAME ∧ cur ≠ (blockAlloc fs).1) := by
  have hplain : dzfsOpenRelative fs 0 date path relativeTo
      = (⟨.ERR_NOT_FOUND, none, some start⟩, fs) := by
    rw [hopen 0, openAt, if_neg (by decide)]
  have hthis : dzfsOpenRelative fs flags date path relativeTo
      = createEntity fs cur (fs.disk cur) name flags date start := by
    rw [hopen flags, openAt, if_pos hcreate]
  by_cases hroom : Room fs cur
  · have hiff := wellFormed_iff hroom hcov hcur hnul flags date start
    obtain ⟨hout, -, -⟩ := createEntity_of_room hroom name flags date start
    constructor
    · intro hlaw _
      obtain ⟨n, cur', name', hout', hlast', hwell⟩ := hlaw.created
        (by rw [hthis, hout]) (by rw [hplain]; simp)
      rw [hthis, hout] at hout'
      obtain ⟨-, hn, hc⟩ := OpenOut.mk.inj hout'
      obtain rfl := Option.some.inj hn
      obtain rfl := Option.some.inj hc
      obtain rfl := Option.some.inj (hlast.symm.trans hlast')
      rw [hthis] at hwell
      exact hiff.mp hwell
    · intro h
      refine ⟨fun hfail => ?_, fun hok => ?_, fun _ _ => ?_⟩
      · rw [hthis, hout] at hfail
        exact absurd rfl hfail
      · rw [hplain] at hok
        cases hok
      · rw [hthis]
        exact ⟨_, _, name, hout, hlast, hiff.mpr (h hroom)⟩
  · obtain ⟨hres, hfs⟩ := createEntity_of_no_room hroom name flags date start
    refine iff_of_true ?_ fun h => absurd h hroom
    refine CreateLaw.of_plain (hthis.trans (Prod.ext rfl hfs)) hplain (fun h => by cases h)
      fun h => absurd h hres

end

/-- An open with `DZFS_O_CREATE` keeps the law of a creation if and only if `CreateOk` holds of
the state and the path, in every state of every run of any calls from a formatted disk. -/
theorem create_wellFormed_iff {disk : Nat → Bytes} {blocks : Nat} {date₀ : UInt64} {fs : Dzfs}
    (hlt : blocks < 2 ^ 32) (hnew : dzfsNew disk blocks date₀ = (.OK, fs)) {s : FsState}
    (hs : Reachable (fun _ _ => True) (newState fs) s) {path : List UInt8} (hnul : 0 ∉ path)
    {relativeTo : Nat} (hrel : relativeTo ≠ 0) (hrel32 : relativeTo < 2 ^ 32) {flags : UInt32}
    (hcreate : flags &&& DZFS_O_CREATE ≠ 0) (date : UInt64) :
    CreateLaw s.fs path relativeTo flags date ↔ CreateOk s.fs path relativeTo := by
  -- The variables of the file system are those of the formatted disk.
  obtain ⟨hF, hR⟩ := hs.sameVars
  obtain ⟨hnewF, hnewR⟩ := dzfsNew_vars hnew
  have hbitmap : s.fs.freeBitmapBlocks < 2 ^ 17 := by
    have hF' : s.fs.freeBitmapBlocks = bitmapBlocksFor blocks := hF.trans hnewF
    rcases bitmapBlocksFor_spec hlt (Nat.zero_lt_of_lt (dzfsNew_ok hnew).1) with
      ⟨hzero, -⟩ | ⟨-, h17, -⟩
    · omega
    · omega
  have hroot : s.fs.rootDnode = s.fs.freeBitmapBlocks + 2 := by
    rw [hR, hF]
    exact hnewR
  have hcov : covered s.fs ≤ 2 ^ 32 := by
    simp only [covered, DZFS_BITSET_COVERED_BLOCKS, DZFS_BLOCK_SIZE]
    omega
  have hopen := fun flags =>
    dzfsOpenRelative_eq (show s.fs.rootDnode ≠ 0 by omega) flags date path hrel
  by_cases hslashes : path ≠ [] ∧ (openStart s.fs path relativeTo).2 = []
  · simp only [if_pos hslashes] at hopen
    refine iff_of_true (CreateLaw.of_plain (hopen flags) (hopen 0) (fun _ => rfl) fun h => h) ?_
    intro cur name hend
    rw [pathEnd, hslashes.2] at hend
    cases hend
  simp only [if_neg hslashes] at hopen
  cases hend : pathEnd s.fs path relativeTo with
  | self folder =>
    simp only [hend, openAt] at hopen
    refine iff_of_true (CreateLaw.of_plain (hopen flags) (hopen 0) (fun _ => rfl) fun h => h) ?_
    intro cur name hcur
    cases hend.symm.trans hcur
  | found folder dnode =>
    simp only [hend, openAt] at hopen
    refine iff_of_true (CreateLaw.of_plain (hopen flags) (hopen 0) (fun _ => rfl) fun h => h) ?_
    intro cur name hcur
    cases hend.symm.trans hcur
  | nowhere =>
    simp only [hend, openAt] at hopen
    refine iff_of_true (CreateLaw.of_plain (hopen flags) (hopen 0) (fun _ => rfl) fun h => h) ?_
    intro cur name hcur
    cases hend.symm.trans hcur
  | missing cur name =>
    simp only [hend] at hopen
    obtain ⟨hlast, -⟩ := pathEnd_missing hend
    -- Every folder of the walk comes from a field of 32 bits.
    have hcur : cur < 2 ^ 32 := by
      have hup : ∀ f, f < 2 ^ 32 → goUp s.fs f < 2 ^ 32 := by
        intro f hf
        unfold goUp
        split
        · exact Bytes.getLE_lt _ 4 _
        · exact hf
      have hroot32 : s.fs.rootDnode < 2 ^ 32 := by omega
      exact pathEnd_folder (P := fun f => f < 2 ^ 32)
        (fun f name _ _ _ => lookupFrom_lt s.fs (s.fs.disk f) name _ 0)
        (upFolders_of_goUp hup hroot32 hrel32) hroot32 hrel32
        (congrArg PathEnd.folder hend)
    have hname : 0 ∉ name := fun h => hnul (mem_parts (List.mem_of_getLast? hlast) h).1
    rw [createLaw_of_missing hcreate hopen hlast hname hcov hcur]
    constructor
    · intro h cur' name' hend'
      obtain ⟨rfl, rfl⟩ := PathEnd.missing.inj (hend.symm.trans hend')
      exact h
    · intro h
      exact h cur name hend

/-- The creation of the file `a` on a formatted disk. -/
theorem create_wellFormed_iff_file :
    CreateLaw formattedDisk [97] 3 1 0 ↔ CreateOk formattedDisk [97] 3 :=
  create_wellFormed_iff (s := newState formattedDisk) (by decide) formattedDisk_new
    .start (by decide) (by decide) (by decide) (by decide) 0

/-- A name of 255 bytes has no room for its `NUL`. -/
theorem create_longName : ¬ CreateLaw formattedDisk (List.replicate 255 97) 3 1 0 := by
  intro hlaw
  have hok : (dzfsOpenRelative formattedDisk 1 0 (List.replicate 255 97) 3).1
      = ⟨.OK, some 4, some 3⟩ := by decide +kernel
  have hno : (dzfsOpenRelative formattedDisk 0 0 (List.replicate 255 97) 3).1.result ≠ .OK := by
    decide +kernel
  obtain ⟨n, cur, name, hout, -, hwell⟩ := hlaw.created (by rw [hok]) hno
  rw [hok] at hout
  obtain ⟨-, hn, -⟩ := OpenOut.mk.inj hout
  obtain rfl := Option.some.inj hn
  have hterm := hwell.terminated
  revert hterm
  decide +kernel

end DzOS.Proofs.Fs
