import DzOS.Proofs.Fs.Invariant

/-!
# `DzOS.Proofs.Fs.Entities`: creating, deleting and moving entities

`createEntity_creation`, `dzfsDelete_unlinked` and `dzfsMove_cases` say what the three operations
do to the invariant. A creation adds an entity to a folder. A deletion takes an entity out of its
folder and out of the file system. A move takes an entity from one folder to another, after
the deletion of the entity that it replaces.

A move with a new name writes the block of the entity as it was before the move. When the
entity is itself one of the two folders, that block has the old entries. So the invariant
survives such a move only if the entity is neither of the two folders.
-/

set_option autoImplicit false

namespace DzOS.Proofs.Fs

open DzOS.Lib DzOS.Fs

variable {i parent e left cur f new old : Nat} {b : Bytes} {ptr : Nat → Nat} {r : DzfsResult}
  {name : List UInt8} {date : UInt64} {flags : UInt32} {freed : List Nat}

section
variable {fs fs' : Dzfs} {E : Finset Nat} {ls : Nat → List Nat} {d n : Nat}

theorem Dzfs.writeBlock_comm {m : Nat} (h : m ≠ n) (b b' : Bytes) :
    (fs.writeBlock m b).writeBlock n b' = (fs.writeBlock n b').writeBlock m b := by
  simp only [Dzfs.writeBlock, Function.update_comm h]

/-- The entity `n` is in the folder `f`. -/
structure InFolder (fs : Dzfs) (E : Finset Nat) (ls : Nat → List Nat) (n f : Nat) : Prop where
  mem : f ∈ E
  folder : entityType (fs.disk f) = DZFS_ENTITY_FOLDER
  listed : n ∈ ls f

theorem Inv.entity_of_listed (h : Inv fs E ls) (hn : n ∈ ls f) :
    n ∈ E ∧ n ≠ fs.rootDnode := h.listing.owns.used f n hn

theorem Inv.folder_of_listed (h : Inv fs E ls) (hn : n ∈ ls f) :
    f ∈ E ∧ entityType (fs.disk f) = DZFS_ENTITY_FOLDER := by
  by_contra hno
  rw [not_and_or] at hno
  rw [h.unlisted f hno] at hn
  cases hn

/-! ### Creation -/

theorem newDnode_type (name : List UInt8) (parent : Nat) (flags : UInt32) (date : UInt64) :
    entityType (newDnode name parent flags date) = DZFS_ENTITY_FILE ∨
      entityType (newDnode name parent flags date) = DZFS_ENTITY_FOLDER := by
  unfold newDnode
  simp only
  split
  · exact Or.inr rfl
  · exact Or.inl rfl

/-- A new dnode has no links, as long as its name ends in front of them. -/
theorem newDnode_links (hname : name.length < 268) (parent : Nat) (flags : UInt32) (date : UInt64)
    (i : Nat) (hi : 268 ≤ i) : newDnode name parent flags date i = 0 := by
  have hzero : i ≠ 0 := by omega
  have hbase : ((Bytes.zero.setLE 8 256 date.toNat).blit 1 name).set (1 + name.length) 0 i = 0 := by
    rw [Bytes.set]
    split
    · rfl
    · rw [Bytes.blit_of_apart (by omega), Bytes.setLE_of_apart (by omega)]
      rfl
  unfold newDnode
  split
  · rw [Bytes.setLE_of_apart (Or.inr (by simp only [SIZE_OFFSET]; omega)), Bytes.set,
      if_neg hzero, hbase]
  · rw [Bytes.set, if_neg hzero, hbase]

/-- A new file was not opened as a folder. -/
theorem newDnode_flags (hfile : entityType (newDnode name parent flags date) = DZFS_ENTITY_FILE) :
    flags &&& DZFS_O_DIR = 0 := by
  by_contra hdir
  have htype : entityType (newDnode name parent flags date) = DZFS_ENTITY_FOLDER := by
    unfold newDnode
    rw [if_pos hdir]
    rfl
  exact file_ne_folder hfile htype

/-- A new file is empty, as long as its name ends in front of the size. -/
theorem newDnode_size (hflags : flags &&& DZFS_O_DIR = 0) (hname : name.length < SIZE_OFFSET) :
    fileSize (newDnode name parent flags date) = 0 := by
  have hblock : newDnode name parent flags date =
      (((Bytes.zero.setLE 8 256 date.toNat).blit 1 name).set (1 + name.length) 0).set 0
        DZFS_ENTITY_FILE := if_neg (not_not_intro hflags)
  refine Bytes.getLE_eq_zero fun i hi _ => ?_
  simp only [SIZE_OFFSET] at hname hi
  rw [hblock, Bytes.set, if_neg (by omega), Bytes.set]
  split
  · rfl
  · rw [Bytes.blit_of_apart (by omega), Bytes.setLE_of_apart (by omega)]
    rfl

/-- The parent of a new folder is the folder where it was created. -/
theorem newDnode_parent (hparent : parent < 2 ^ 32)
    (hfolder : entityType (newDnode name parent flags date) = DZFS_ENTITY_FOLDER) :
    folderParent (newDnode name parent flags date) = parent := by
  unfold newDnode at hfolder ⊢
  simp only at hfolder ⊢
  split
  · rw [folderParent, Bytes.getLE_setLE_self]
    exact Nat.mod_eq_of_lt hparent
  · rename_i hfile
    rw [if_neg hfile] at hfolder
    exact absurd hfolder (file_ne_folder rfl)

/-- The folder `cur` has room for an entry, and there is a free block. -/
def Room (fs : Dzfs) (cur : Nat) : Prop :=
  folderContentCount (fs.disk cur) ≠ DZFS_MAX_DIR_CONTENTS ∧ (blockAlloc fs).1 ≠ 0

instance (fs : Dzfs) (cur : Nat) : Decidable (Room fs cur) :=
  inferInstanceAs (Decidable (_ ∧ _))

/-- A creation in a full folder. -/
theorem createEntity_of_folder_full
    (hfull : folderContentCount (fs.disk cur) = DZFS_MAX_DIR_CONTENTS) (name : List UInt8)
    (flags : UInt32) (date : UInt64) (parent : Nat) :
    createEntity fs cur (fs.disk cur) name flags date parent
      = (⟨.ERR_LIMIT, none, some parent⟩, fs) := by
  unfold createEntity
  exact if_pos hfull

/-- A creation on a full disk. -/
theorem createEntity_of_disk_full (hroom : folderContentCount (fs.disk cur) ≠ DZFS_MAX_DIR_CONTENTS)
    (hfull : (blockAlloc fs).1 = 0) (name : List UInt8) (flags : UInt32) (date : UInt64)
    (parent : Nat) : createEntity fs cur (fs.disk cur) name flags date parent
      = (⟨.ERR_FULL, some 0, some parent⟩, fs) := by
  unfold createEntity
  simp only
  rw [if_neg hroom]
  rcases blockAlloc_spec fs with hno | ⟨n, fs₁, halloc, hn, -⟩
  · rw [hno]
  · rw [halloc] at hfull
    exact absurd hfull hn

/-- Without room, a creation fails and writes nothing. -/
theorem createEntity_of_no_room (hroom : ¬ Room fs cur) (name : List UInt8) (flags : UInt32)
    (date : UInt64) (parent : Nat) :
    (createEntity fs cur (fs.disk cur) name flags date parent).1.result ≠ .OK ∧
      (createEntity fs cur (fs.disk cur) name flags date parent).2 = fs := by
  by_cases hfull : folderContentCount (fs.disk cur) = DZFS_MAX_DIR_CONTENTS
  · rw [createEntity_of_folder_full hfull]
    exact ⟨by simp, rfl⟩
  · have halloc : (blockAlloc fs).1 = 0 := by
      by_contra hfree
      exact hroom ⟨hfull, hfree⟩
    rw [createEntity_of_disk_full hfull halloc]
    exact ⟨by simp, rfl⟩

/-- A creation with room: an entry in the folder, and a dnode in the new block. -/
theorem createEntity_eq (hroom : Room fs cur) (name : List UInt8) (flags : UInt32)
    (date : UInt64) (parent : Nat) :
    createEntity fs cur (fs.disk cur) name flags date parent
      = (⟨.OK, some (blockAlloc fs).1, some cur⟩,
        ((blockAlloc fs).2.writeBlock cur ((fs.disk cur).setLE 4
          (contentOffset (folderContentCount (fs.disk cur))) (blockAlloc fs).1)).writeBlock
        (blockAlloc fs).1 (newDnode name cur flags date)) := by
  obtain ⟨hfull, hfree⟩ := hroom
  unfold createEntity
  simp only
  rw [if_neg hfull]
  rcases halloc : blockAlloc fs with ⟨n, fs₁⟩
  rw [halloc] at hfree
  obtain ⟨n, rfl⟩ := Nat.exists_eq_succ_of_ne_zero hfree
  rfl

/-- With room, the new block is the first free one, and the folder gets an entry for it. -/
theorem createEntity_of_room (hroom : Room fs cur) (name : List UInt8) (flags : UInt32)
    (date : UInt64) (parent : Nat) :
    (createEntity fs cur (fs.disk cur) name flags date parent).1
        = ⟨.OK, some (blockAlloc fs).1, some cur⟩ ∧
      (createEntity fs cur (fs.disk cur) name flags date parent).2.disk (blockAlloc fs).1
        = newDnode name cur flags date ∧
      (cur ≠ (blockAlloc fs).1 →
        (createEntity fs cur (fs.disk cur) name flags date parent).2.disk cur
          = (fs.disk cur).setLE 4 (contentOffset (folderContentCount (fs.disk cur)))
            (blockAlloc fs).1) := by
  rw [createEntity_eq hroom]
  refine ⟨rfl, Function.update_self _ _ _, fun hne => ?_⟩
  exact (Function.update_of_ne hne _ _).trans (Function.update_self _ _ _)

/-- What the creation of the entity `n` in the folder `cur` does when it succeeds. -/
structure Creation (fs fs' : Dzfs) (E : Finset Nat) (ls : Nat → List Nat) (cur n : Nat)
    (name : List UInt8) (flags : UInt32) (date : UInt64) : Prop where
  room : Room fs cur
  not_mem : n ∉ E
  ne_zero : n ≠ 0
  free : bit fs n = true
  inv : Inv fs' (insert n E) (Function.update ls cur (ls cur ++ [n]))
  not_holds : ∀ p, ¬ Holds fs.disk E p n
  block : fs'.disk n = newDnode name cur flags date
  links : ∀ i, 268 ≤ i → fs'.disk n i = 0
  folder : fs'.disk cur = (fs.disk cur).setLE 4 (contentOffset (ls cur).length) n
  disk : ∀ m, m < 2 ∨ fs.rootDnode ≤ m → m ≠ cur → m ≠ n → fs'.disk m = fs.disk m
  only : covered fs' = covered fs ∧ fs'.rootDnode = fs.rootDnode
  bits : ∀ m < covered fs, bit fs' m = (bit fs m && decide (m ≠ n))

/-- `createEntity` fails and changes nothing, or it adds an entity to the folder. -/
theorem createEntity_creation (h : Inv fs E ls) (hcur : cur ∈ E)
    (hfolder : entityType (fs.disk cur) = DZFS_ENTITY_FOLDER)
    (hname : Room fs cur → name.length < 268) (flags : UInt32) (date : UInt64) (parent : Nat)
    {out : OpenOut} (hc : createEntity fs cur (fs.disk cur) name flags date parent = (out, fs')) :
    (fs' = fs ∧ out.result ≠ .OK) ∨
      ∃ n, out = ⟨.OK, some n, some cur⟩ ∧ Creation fs fs' E ls cur n name flags date := by
  by_cases hroom : Room fs cur
  case neg =>
    obtain ⟨hr, hsame⟩ := createEntity_of_no_room hroom name flags date parent
    rw [hc] at hr hsame
    exact Or.inl ⟨hsame, hr⟩
  have hlists := h.lists cur hcur hfolder
  have hfull : (ls cur).length ≠ DZFS_MAX_DIR_CONTENTS := by
    rw [← hlists.count]
    exact hroom.1
  rcases blockAlloc_spec fs with hno | ⟨k, fs₁, halloc, hk, hlt, hfree, honly, hbits⟩
  · exact absurd (congrArg Prod.fst hno) hroom.2
  obtain ⟨k, rfl⟩ := Nat.exists_eq_succ_of_ne_zero hk
  unfold createEntity at hc
  simp only [hlists.count] at hc
  rw [if_neg hfull, halloc] at hc
  obtain ⟨rfl, rfl⟩ := hc
  obtain ⟨hcore, hfresh⟩ := h.toCore.alloc hlt hfree honly fun m _ => hbits m
  have hnmem : k + 1 ∉ E := hfresh.not_mem
  have hne : cur ≠ k + 1 := by
    rintro rfl
    exact hnmem hcur
  have hold : ∀ m, m < 2 ∨ fs.rootDnode ≤ m → fs₁.disk m = fs.disk m := fun m hm =>
    honly.disk m (by rw [← h.root_eq]; exact hm)
  have hcurdisk : fs₁.disk cur = fs.disk cur := hold cur (Or.inr (h.root_le hcur))
  -- The dnode first, then the entry of the folder: the two writes commute.
  have hadd := hcore.addEntity hfresh (newDnode_type name cur flags date)
    (newDnode_links (hname hroom) cur flags date)
  have hword : k + 1 < 2 ^ 32 := by
    have hle := h.covered_le
    omega
  have happend := hlists.append (lt_of_le_of_ne hlists.length_le hfull) hk hword
  have hcurnew : (fs₁.writeBlock (k + 1) (newDnode name cur flags date)).disk cur
      = fs.disk cur := (Function.update_of_ne hne _ _).trans hcurdisk
  have htype : entityType ((fs.disk cur).setLE 4 (contentOffset (ls cur).length) (k + 1))
      = DZFS_ENTITY_FOLDER := by
    rw [← hfolder]
    exact Bytes.setLE_of_apart (Or.inl (by simp only [contentOffset]; omega))
  have hwrite := hadd.writeFolder (Finset.mem_insert_of_mem hcur)
    (by rw [hcurnew]; exact hfolder) htype happend
  have hblock : ((fs₁.writeBlock cur ((fs.disk cur).setLE 4 (contentOffset (ls cur).length)
      (k + 1))).writeBlock (k + 1) (newDnode name cur flags date)).disk (k + 1)
      = newDnode name cur flags date := Function.update_self _ _ _
  refine Or.inr ⟨k + 1, rfl, hroom, hnmem, hk, hfree, ?_, fun p hp => ?_, hblock, fun i hi => ?_,
    ?_, fun m hm hmc hmn => ?_, ⟨honly.covered, honly.rootDnode⟩, fun m hm => ?_⟩
  · rw [Dzfs.writeBlock_comm hne]
    refine ⟨hwrite, ?_⟩
    have hroot : fs₁.rootDnode = fs.rootDnode := honly.rootDnode
    refine h.listing.append (fun g hg => hnmem (h.entity_of_listed hg).1) (fun m hm => ?_) ?_
    · simp only [Dzfs.writeBlock, hroot]
      exact ⟨Finset.mem_insert_of_mem hm.1, hm.2⟩
    · simp only [Dzfs.writeBlock, hroot]
      refine ⟨Finset.mem_insert_self _ _, ?_⟩
      intro heq
      exact hnmem (heq ▸ h.root_mem)
  · rw [(h.blocks.used p _ hp).2.2] at hfree
    cases hfree
  · rw [hblock]
    exact newDnode_links (hname hroom) cur flags date i hi
  · exact (Function.update_of_ne hne _ _).trans (Function.update_self _ _ _)
  · exact (Function.update_of_ne hmn _ _).trans
      ((Function.update_of_ne hmc _ _).trans (hold m hm))
  · -- Neither write goes to the bitmap.
    have harea : ∀ m, fs.rootDnode ≤ m → fs₁.freeBitmapBlocks + 2 ≤ m := fun m hm => by
      rw [honly.freeBitmapBlocks, ← h.root_eq]
      exact hm
    have hm₁ : m < covered fs₁ := honly.covered ▸ hm
    have hfirst := bit_writeBlock (harea _ (h.root_le hcur))
      ((fs.disk cur).setLE 4 (contentOffset (ls cur).length) (k + 1)) hm₁
    refine (bit_writeBlock ?_ _ (by rw [covered_writeBlock]; exact hm₁)).trans
      (hfirst.trans (hbits m))
    exact harea _ (honly.rootDnode ▸ hfresh.used.1)

/-- A creation keeps the headers of the old entities. -/
theorem Creation.header_eq (h : Inv fs E ls) (hc : Creation fs fs' E ls cur n name flags date)
    (he : e ∈ E) (hi : i < 268) : fs'.disk e i = fs.disk e i := by
  have hen : e ≠ n := by
    rintro rfl
    exact hc.not_mem he
  by_cases hec : e = cur
  · rw [hec, hc.folder]
    refine Bytes.setLE_of_apart (Or.inl ?_)
    simp only [contentOffset]
    omega
  · rw [hc.disk e (Or.inr (h.root_le he)) hec hen]

/-- A creation changes no place that holds a block. -/
theorem Creation.holds_iff (h : Inv fs E ls) (hcur : cur ∈ E)
    (hfolder : entityType (fs.disk cur) = DZFS_ENTITY_FOLDER)
    (hc : Creation fs fs' E ls cur n name flags date) (p : Place) (m : Nat) :
    Holds fs'.disk E p m ↔ Holds fs.disk E p m := by
  have hne : ∀ e ∈ E, e ≠ n := by
    rintro e he rfl
    exact hc.not_mem he
  refine Holds.congr_iff (fun e he => hc.header_eq h he (by decide)) (fun e he hfile => ?_)
    (fun e he hfile hnz => ?_) p m
  · refine SameLinks.of_eq (hc.disk e (Or.inr (h.root_le he)) ?_ (hne e he))
    rintro rfl
    exact file_ne_folder hfile hfolder
  · obtain ⟨hnot, hroot⟩ := h.indirect_spec he hfile hnz
    refine hc.disk _ (Or.inr hroot) ?_ ?_
    · intro heq
      exact hnot (heq ▸ hcur)
    · intro heq
      exact hc.not_holds (.indirect e) ⟨he, hfile, heq.symm, heq ▸ hnz⟩

/-! ### Deletion -/

/-- The pointers in front of the first 0, from the index `i` on. -/
def untilZero (ptr : Nat → Nat) : Nat → Nat → List Nat
  | 0, _ => []
  | left + 1, i => if ptr i = 0 then [] else ptr i :: untilZero ptr left (i + 1)

theorem mem_untilZero (h : n ∈ untilZero ptr left i) :
    ∃ j, i ≤ j ∧ j < i + left ∧ ptr j = n ∧ n ≠ 0 := by
  induction left generalizing i with
  | zero => cases h
  | succ left ih =>
    unfold untilZero at h
    split at h
    · cases h
    · rename_i hne
      rcases List.mem_cons.mp h with rfl | h
      · exact ⟨i, Nat.le_refl i, by omega, rfl, hne⟩
      · obtain ⟨j, hle, hlt, hj⟩ := ih h
        exact ⟨j, by omega, by omega, hj⟩

/-- A pointer with no 0 in front of it. -/
theorem mem_untilZero_of {j : Nat} (hle : i ≤ j) (hlt : j < i + left)
    (hne : ∀ k, i ≤ k → k ≤ j → ptr k ≠ 0) : ptr j ∈ untilZero ptr left i := by
  induction left generalizing i with
  | zero => omega
  | succ left ih =>
    unfold untilZero
    rw [if_neg (hne i (Nat.le_refl i) hle)]
    rcases Nat.eq_or_lt_of_le hle with rfl | hlt'
    · exact List.mem_cons_self
    · exact List.mem_cons_of_mem _ (ih hlt' (by omega) fun k hk => hne k (by omega))

/-- `freeUntilZero` frees these blocks. -/
theorem freeUntilZero_eq (fs : Dzfs) (ptr : Nat → Nat) (left i : Nat) :
    freeUntilZero fs ptr left i = (untilZero ptr left i).foldl blockFree fs := by
  induction left generalizing fs i with
  | zero => rfl
  | succ left ih =>
    unfold freeUntilZero untilZero
    split
    · rfl
    · rw [List.foldl_cons, ih]

/-- The blocks that `dzfsDelete` frees for a file with the dnode block `b`, up to the dnode. -/
def freedBlocks (fs : Dzfs) (b : Bytes) : List Nat :=
  (if fileIndirect b ≠ 0 then
    untilZero (indirectEntry (fs.disk (fileIndirect b))) DZFS_INDIRECT_BLOCK_COUNT 0
  else []) ++ untilZero (fileDirect b) DZFS_DIRECT_BLOCKS 0

theorem freeFileBlocks_eq (fs : Dzfs) (b : Bytes) :
    freeFileBlocks fs b = (freedBlocks fs b).foldl blockFree fs := by
  unfold freeFileBlocks freedBlocks
  simp only [freeUntilZero_eq]
  rw [List.foldl_append]
  split
  · rfl
  · rfl

/-- A freed block is a content block of the file. -/
theorem holds_of_freed (hd : d ∈ E) (hfile : entityType (fs.disk d) = DZFS_ENTITY_FILE)
    (hn : n ∈ freedBlocks fs (fs.disk d)) :
    ∃ p : Place, p.entity = d ∧ p ≠ .indirect d ∧ p ≠ .dnode d ∧ Holds fs.disk E p n := by
  unfold freedBlocks at hn
  rcases List.mem_append.mp hn with hn | hn
  · split at hn
    · rename_i hne
      obtain ⟨j, -, hj, hjn, hnz⟩ := mem_untilZero hn
      exact ⟨.entry d j, rfl, by simp, by simp, hd, hfile, hne, by omega, hjn.symm, hnz⟩
    · cases hn
  · obtain ⟨j, -, hj, hjn, hnz⟩ := mem_untilZero hn
    exact ⟨.direct d j, rfl, by simp, by simp, hd, hfile, by omega, hjn.symm, hnz⟩

/-- What a deletion of the entity `d` from the folder `f` does when it succeeds. -/
structure Deleted (fs fs' : Dzfs) (E : Finset Nat) (ls : Nat → List Nat) (d f : Nat) : Prop where
  ne : d ≠ f
  empty : ls d = []
  inv : ∃ l : List Nat, l.Perm ((ls f).erase d) ∧ Inv fs' (E.erase d) (Function.update ls f l)
  disk : ∀ m, m < 2 ∨ fs.rootDnode ≤ m → m ≠ f → fs'.disk m = fs.disk m
  type : entityType (fs'.disk f) = DZFS_ENTITY_FOLDER

/-- What else such a deletion says: the header of the folder stays, and the bits that are set
are those of the dnode and of the blocks in `freed`. -/
structure Unlinked (fs fs' : Dzfs) (E : Finset Nat) (ls : Nat → List Nat) (d f : Nat)
    (freed : List Nat) : Prop extends Deleted fs fs' E ls d f where
  header : ∀ i < 268, fs'.disk f i = fs.disk f i
  only : covered fs' = covered fs ∧ fs'.rootDnode = fs.rootDnode
  bits : ∀ m < covered fs, bit fs' m = (bit fs m || decide (m ∈ freed) || decide (m = d))

/-- The end of `dzfsDelete`, when the blocks in `freed` of the entity are free already. -/
theorem unlinkDnode_unlinked (h : Inv fs E ls) (hf : InFolder fs E ls d f) (hempty : ls d = [])
    (hfreed : ∀ n ∈ freed, ∃ p : Place, p.entity = d ∧ Holds fs.disk E p n) :
    ∃ fs', unlinkDnode (freed.foldl blockFree fs) d f = (.OK, fs') ∧
      Unlinked fs fs' E ls d f freed := by
  obtain ⟨hd, hdroot⟩ := h.entity_of_listed hf.listed
  have hdf : d ≠ f := by
    rintro rfl
    have hmem := hf.listed
    rw [hempty] at hmem
    cases hmem
  have honly : BitsOnly fs (freed.foldl blockFree fs) := freeAll_bitsOnly fun n hn => by
    obtain ⟨p, -, hp⟩ := hfreed n hn
    exact (h.blocks.used p n hp).2.1
  have hbit := bit_freeAll fs freed
  generalize freed.foldl blockFree fs = fs₁ at honly hbit ⊢
  have hold : ∀ m, m < 2 ∨ fs.rootDnode ≤ m → fs₁.disk m = fs.disk m := fun m hm =>
    honly.disk m (by rw [← h.root_eq]; exact hm)
  have hfdisk : fs₁.disk f = fs.disk f := hold f (Or.inr (h.root_le hf.mem))
  obtain ⟨b, l, hrem, hlists, hperm, hkeep⟩ :=
    (h.lists f hf.mem hf.folder).remove hf.listed
  have htype : entityType b = DZFS_ENTITY_FOLDER := (hkeep 0 (by decide)).trans hf.folder
  have hcov : covered (fs₁.writeBlock f b) = covered fs := honly.covered
  have hself : ∀ fs : Dzfs, (fs.writeBlock f b).disk f = b := fun fs =>
    Function.update_self _ _ _
  have hother : ∀ (fs : Dzfs) (m : Nat), m ≠ f → (fs.writeBlock f b).disk m = fs.disk m :=
    fun fs m hm => Function.update_of_ne hm _ _
  have hdcov : d < covered (fs₁.writeBlock f b) := by
    rw [hcov]
    exact (h.mem_used hd).2.1
  obtain ⟨honly', hbit'⟩ := blockFree_spec hdcov
  have hfroot : ∀ fs₁ : Dzfs, fs₁.freeBitmapBlocks = fs.freeBitmapBlocks →
      fs₁.freeBitmapBlocks + 2 ≤ f := by
    intro fs₁ hF
    rw [hF, ← h.root_eq]
    exact h.root_le hf.mem
  have hbits : ∀ m < covered fs, bit (blockFree (fs₁.writeBlock f b) d) m
      = (bit fs m || decide (m ∈ freed) || decide (m = d)) := by
    intro m hm
    rw [hbit' m, bit_writeBlock (hfroot fs₁ honly.freeBitmapBlocks) b
      (by rw [honly.covered]; exact hm), hbit m]
  -- Against the disk with the new folder, only bits of the entity have changed.
  have hdisk : ∀ m, m < 2 ∨ fs.rootDnode ≤ m →
      (blockFree (fs₁.writeBlock f b) d).disk m = (fs.writeBlock f b).disk m := by
    intro m hm
    rw [honly'.disk m (by
      simp only [Dzfs.writeBlock, honly.freeBitmapBlocks, ← h.root_eq]
      exact hm)]
    by_cases hmf : m = f
    · rw [hmf, hself, hself]
    · rw [hother _ m hmf, hother _ m hmf, hold m hm]
  have honly₂ : BitsOnly (fs.writeBlock f b) (blockFree (fs₁.writeBlock f b) d) :=
    ⟨honly'.freeBitmapBlocks.trans honly.freeBitmapBlocks,
      honly'.rootDnode.trans honly.rootDnode,
      fun m hm => hdisk m (by rw [h.root_eq]; exact hm)⟩
  have hset : ∀ m < covered fs, bit (fs.writeBlock f b) m = false →
      bit (blockFree (fs₁.writeBlock f b) d) m = true →
      ∃ p : Place, p.entity = d ∧ Holds (fs.writeBlock f b).disk E p m := by
    intro m hm hclear hmbit
    rw [bit_writeBlock (hfroot fs rfl) b hm] at hclear
    rw [hbits m hm, hclear, Bool.false_or, Bool.or_eq_true, decide_eq_true_eq,
      decide_eq_true_eq] at hmbit
    have hheld : ∃ p : Place, p.entity = d ∧ Holds fs.disk E p m := by
      rcases hmbit with hmem | rfl
      · exact hfreed m hmem
      · exact ⟨.dnode m, rfl, hd, rfl⟩
    obtain ⟨p, hp, hpm⟩ := hheld
    exact ⟨p, hp, (h.toCore.holds_writeFolder hf.mem hf.folder htype p m).mpr hpm⟩
  have hcore := (h.toCore.writeFolder hf.mem hf.folder htype hlists).removeEntity hdroot
    (by rw [Function.update_of_ne hdf, hempty]) honly₂ hset
  have hblock : (blockFree (fs₁.writeBlock f b) d).disk f = b := by
    rw [hdisk f (Or.inr (h.root_le hf.mem)), hself]
  refine ⟨blockFree (fs₁.writeBlock f b) d, ?_, ⟨hdf, hempty, ⟨l, hperm, hcore, ?_⟩,
    fun m hm hmf => (hdisk m hm).trans (hother fs m hmf), by rw [hblock]; exact htype⟩,
    fun i hi => by rw [hblock]; exact hkeep i hi, ⟨honly₂.covered, honly₂.rootDnode⟩, hbits⟩
  · unfold unlinkDnode
    simp only [Dzfs.readBlock, hfdisk, hf.folder, ne_eq, not_true_eq_false, if_false, hrem]
  · rw [honly₂.rootDnode]
    refine h.listing.erase hperm (fun m hm hu => ?_) hf.listed
    exact ⟨Finset.mem_erase.mpr ⟨hm, hu.1⟩, hu.2⟩

/-- A deletion keeps the headers of the entities. -/
theorem Unlinked.header_eq (h : Inv fs E ls) (hu : Unlinked fs fs' E ls d f freed) (he : e ∈ E)
    (hi : i < 268) : fs'.disk e i = fs.disk e i := by
  by_cases hef : e = f
  · rw [hef]
    exact hu.header i hi
  · rw [hu.disk e (Or.inr (h.root_le he)) hef]

/-- A deletion changes no place that holds a block. -/
theorem Unlinked.holds_iff (h : Inv fs E ls) (hf : InFolder fs E ls d f)
    (hu : Unlinked fs fs' E ls d f freed) (p : Place) (m : Nat) :
    Holds fs'.disk E p m ↔ Holds fs.disk E p m := by
  refine Holds.congr_iff (fun e he => hu.header_eq h he (by decide)) (fun e he hfile => ?_)
    (fun e he hfile hnz => ?_) p m
  · refine SameLinks.of_eq (hu.disk e (Or.inr (h.root_le he)) ?_)
    rintro rfl
    exact file_ne_folder hfile hf.folder
  · obtain ⟨hnot, hroot⟩ := h.indirect_spec he hfile hnz
    refine hu.disk _ (Or.inr hroot) ?_
    intro heq
    exact hnot (heq ▸ hf.mem)

/-- The blocks that `dzfsDelete` frees for the entity `d`, up to its dnode. -/
def released (fs : Dzfs) (d : Nat) : List Nat :=
  if entityType (fs.disk d) = DZFS_ENTITY_FILE then freedBlocks fs (fs.disk d) else []

/-- `dzfsDelete` of an entity that is in the given folder fails and changes nothing, or the
entity goes, and its blocks are free. -/
theorem dzfsDelete_unlinked (h : Inv fs E ls) (hf : InFolder fs E ls d f)
    (hdel : dzfsDelete fs d f = (r, fs')) :
    (fs' = fs ∧ r ≠ .OK) ∨ r = .OK ∧ Unlinked fs fs' E ls d f (released fs d) := by
  obtain ⟨hd, hdroot⟩ := h.entity_of_listed hf.listed
  unfold dzfsDelete at hdel
  rw [if_neg hdroot] at hdel
  simp only [Dzfs.readBlock] at hdel
  rcases h.typed d hd with hfile | hfolder
  · rw [if_pos hfile, freeFileBlocks_eq] at hdel
    rw [released, if_pos hfile]
    obtain ⟨fs'', hun, hunlinked⟩ := unlinkDnode_unlinked h hf
      (h.unlisted d (Or.inr (file_ne_folder hfile))) fun n hn => by
        obtain ⟨p, hp, -, -, hpn⟩ := holds_of_freed hd hfile hn
        exact ⟨p, hp, hpn⟩
    rw [hun] at hdel
    obtain ⟨rfl, rfl⟩ := hdel
    exact Or.inr ⟨rfl, hunlinked⟩
  · have hnot : entityType (fs.disk d) ≠ DZFS_ENTITY_FILE := fun hfile =>
      file_ne_folder hfile hfolder
    rw [if_neg hnot, if_pos hfolder] at hdel
    rw [released, if_neg hnot]
    cases hscan : scan (fun i => contentDnode (fs.disk d) i ≠ 0) DZFS_MAX_DIR_CONTENTS 0 with
    | some i =>
      rw [hscan] at hdel
      obtain ⟨rfl, rfl⟩ := hdel
      exact Or.inl ⟨rfl, by simp⟩
    | none =>
      rw [hscan] at hdel
      have hnone : ∀ n ∈ ([] : List Nat), ∃ p : Place, p.entity = d ∧ Holds fs.disk E p n :=
        fun n hn => by cases hn
      obtain ⟨fs'', hun, hunlinked⟩ :=
        unlinkDnode_unlinked h hf ((h.lists d hd hfolder).eq_nil hscan) hnone
      rw [List.foldl_nil] at hun
      simp only [Option.isSome_none, Bool.false_eq_true, if_false, hun] at hdel
      obtain ⟨rfl, rfl⟩ := hdel
      exact Or.inr ⟨rfl, hunlinked⟩

/-- `dzfsDelete` of an entity that is in the given folder fails and changes nothing, or the
entity goes. -/
theorem dzfsDelete_spec (h : Inv fs E ls) (hf : InFolder fs E ls d f)
    (hdel : dzfsDelete fs d f = (r, fs')) :
    (fs' = fs ∧ r ≠ .OK) ∨ r = .OK ∧ Deleted fs fs' E ls d f := by
  rcases dzfsDelete_unlinked h hf hdel with hfail | ⟨hr, hunlinked⟩
  · exact Or.inl hfail
  · exact Or.inr ⟨hr, hunlinked.toDeleted⟩

/-! ### Names -/

/-- The C string at the offset `i` of a block, up to its `NUL`. -/
theorem cstring_eq (name : List UInt8) (left i : Nat) (hleft : name.length < left)
    (hbytes : ∀ (k : Nat) (hk : k < name.length), b (i + k) = name[k])
    (hnul : b (i + name.length) = 0) (hname : 0 ∉ name) : cstring b left i = name := by
  induction name generalizing left i with
  | nil =>
    obtain ⟨left, rfl⟩ := Nat.exists_eq_succ_of_ne_zero (Nat.ne_of_gt hleft)
    unfold cstring
    rw [if_pos (by simpa using hnul)]
  | cons c name ih =>
    obtain ⟨left, rfl⟩ := Nat.exists_eq_succ_of_ne_zero (Nat.ne_of_gt (Nat.zero_lt_of_lt hleft))
    have hc : b i = c := hbytes 0 (by simp)
    have hcz : c ≠ 0 := by
      rintro rfl
      exact hname (by simp)
    unfold cstring
    rw [hc, if_neg hcz]
    congr 1
    refine ih left (i + 1) (by simp at hleft; omega) (fun k hk => ?_) ?_ fun hmem =>
      hname (List.mem_cons_of_mem _ hmem)
    · have hbyte := hbytes (k + 1) (by simpa using hk)
      rw [Nat.add_right_comm, Nat.add_assoc, hbyte]
      rfl
    · rw [← hnul]
      congr 1
      simp only [List.length_cons]
      omega

section
variable {b : Bytes} {name : List UInt8} (hname : 0 ∉ name)
  (hlen : name.length ≤ DZFS_MAX_FILENAME)

include hname hlen

theorem headerName_of_matches (h : nameMatches b name = true) : headerName b = name := by
  simp only [nameMatches, decide_eq_true_eq] at h
  obtain ⟨hslice, hnul⟩ := h
  refine cstring_eq name _ 1 ?_ (fun k hk => ?_) hnul hname
  · simp only [DZFS_MAX_FILENAME, DZFS_BLOCK_SIZE] at hlen ⊢
    omega
  · have hget := Bytes.getElem_slice b 1 name.length k (by simpa using hk)
    simpa [hslice] using hget.symm

theorem headerName_renamed : headerName (renamed b (some name)) = name := by
  refine cstring_eq name _ 1 ?_ (fun k hk => ?_) ?_ hname
  · simp only [DZFS_MAX_FILENAME, DZFS_BLOCK_SIZE] at hlen ⊢
    omega
  · simp only [renamed, Bytes.set]
    rw [if_neg (by omega), Bytes.blit_of_mem (by omega) (by omega)]
    simp
  · simp [renamed, Bytes.set]

omit hname in
/-- A new name does not change the links. -/
theorem renamed_links : SameLinks b (renamed b (some name)) := by
  simp only [DZFS_MAX_FILENAME] at hlen
  refine ⟨?_, fun i hi => ?_⟩
  · simp only [renamed, Bytes.set]
    rw [if_neg (by omega), Bytes.blit_of_apart (by omega)]
  · simp only [renamed, Bytes.set]
    rw [if_neg (by omega), Bytes.blit_of_apart (by omega)]

omit hname in
theorem renamed_parent : folderParent (renamed b (some name)) = folderParent b := by
  simp only [DZFS_MAX_FILENAME] at hlen
  refine Bytes.getLE_congr fun i hi _ => ?_
  simp only [SIZE_OFFSET] at hi
  simp only [renamed, Bytes.set]
  rw [if_neg (by omega), Bytes.blit_of_apart (by omega)]

end

/-! ### Moves -/

/-- What a move of the entity `d` does when it succeeds: the entity enters the new folder and
leaves the old one. -/
structure Moved (fs fs' : Dzfs) (E : Finset Nat) (ls : Nat → List Nat) (d old new : Nat) :
    Prop where
  inv : ∃ l : List Nat, l.Perm ((Function.update ls new (ls new ++ [d]) old).erase d) ∧
    Inv fs' E (Function.update (Function.update ls new (ls new ++ [d])) old l)
  same : SameBlocks fs fs' E

/-- The end of a move fails in a full folder and changes nothing, or it moves the entity. -/
theorem enterNewParent_moved (h : Inv fs E ls) (hold : InFolder fs E ls d old) (hnew : new ∈ E)
    (hfolder : entityType (fs.disk new) = DZFS_ENTITY_FOLDER) (newName : Option (List UInt8))
    (hb : newName.isSome → SameLinks (fs.disk d) b ∧ folderParent b = folderParent (fs.disk d) ∧
      d ≠ old ∧ d ≠ new) :
    if (ls new).length = DZFS_MAX_DIR_CONTENTS then
      enterNewParent fs d old new newName b = (.ERR_LIMIT, fs)
    else ∃ fs', enterNewParent fs d old new newName b = (.OK, fs') ∧
      Moved fs fs' E ls d old new := by
  obtain ⟨hd, hdroot⟩ := h.entity_of_listed hold.listed
  have hlists := h.lists new hnew hfolder
  unfold enterNewParent
  simp only [hlists.count]
  split
  · rfl
  rename_i hfull
  have happend := hlists.append (lt_of_le_of_ne hlists.length_le hfull) (h.ne_zero hd)
    (h.lt_word hd)
  have hkeep₁ : ∀ i < 268, (fs.disk new).setLE 4 (contentOffset (ls new).length) d i
      = fs.disk new i := by
    intro i hi
    refine Bytes.setLE_of_apart (Or.inl ?_)
    simp only [contentOffset]
    omega
  have htype : entityType ((fs.disk new).setLE 4 (contentOffset (ls new).length) d)
      = DZFS_ENTITY_FOLDER := (hkeep₁ 0 (by decide)).trans hfolder
  have hcore := h.toCore.writeFolder hnew hfolder htype happend
  have hsame := SameBlocks.writeFolder h.toCore hnew hfolder hkeep₁
  generalize hfs₁ : fs.writeBlock new
    ((fs.disk new).setLE 4 (contentOffset (ls new).length) d) = fs₁ at hcore hsame ⊢
  have hR : fs₁.rootDnode = fs.rootDnode := hsame.only.2
  -- The entity is in the old folder, also when that is the new folder.
  have hlisted : d ∈ Function.update ls new (ls new ++ [d]) old := by
    by_cases hon : old = new
    · subst hon
      simp
    · rw [Function.update_of_ne hon]
      exact hold.listed
  have holdfolder : entityType (fs₁.disk old) = DZFS_ENTITY_FOLDER :=
    (hsame.type old).trans hold.folder
  obtain ⟨b', l, hrem, hl, hperm, hkeep⟩ := (hcore.lists old hold.mem holdfolder).remove hlisted
  have htype' : entityType b' = DZFS_ENTITY_FOLDER := (hkeep 0 (by decide)).trans holdfolder
  have hcore' := hcore.writeFolder hold.mem holdfolder htype' hl
  have hsame' := SameBlocks.writeFolder hcore hold.mem holdfolder hkeep
  have hlisting := h.listing.transfer (g := new) hold.listed hperm
  unfold leaveOldParent
  simp only [holdfolder, ne_eq, not_true_eq_false, if_false, hrem]
  cases newName with
  | none =>
    refine ⟨_, rfl, ⟨l, hperm, hcore', ?_⟩, hsame.trans hsame'⟩
    simp only [Option.isSome_none, Bool.false_eq_true, if_false, Dzfs.writeBlock, hR]
    exact hlisting
  | some name =>
    obtain ⟨hlinks, hparent, hdold, hdnew⟩ := hb rfl
    have hdisk : (fs₁.writeBlock old b').disk d = fs.disk d := by
      rw [← hfs₁]
      exact (Function.update_of_ne hdold _ _).trans (Function.update_of_ne hdnew _ _)
    rw [← hdisk] at hlinks hparent
    have hsame'' := SameBlocks.write hcore' hd hlinks.type hparent
      (hcore'.holds_writeHeader hd hlinks)
    refine ⟨_, rfl, ⟨l, hperm, hcore'.writeHeader hd hlinks, ?_⟩,
      (hsame.trans hsame').trans hsame''⟩
    simp only [Option.isSome_some, if_true, Dzfs.writeBlock, hR]
    exact hlisting

/-- The entity that a move would replace, or 0. -/
def replaced (fs : Dzfs) (d new : Nat) (newName : Option (List UInt8)) : Nat :=
  folderLookupName fs (fs.readBlock new) (headerName (renamed (fs.readBlock d) newName))

/-- The entities after `dzfsMove`: those before it, without the entity that it replaced. -/
def entitiesAfterMove (fs : Dzfs) (E : Finset Nat) (d old new : Nat)
    (newName : Option (List UInt8)) : Finset Nat :=
  if (old = new ∧ (newName = none ∨ newName = some (headerName (fs.readBlock d)))) ∨
      entityType (fs.readBlock new) ≠ DZFS_ENTITY_FOLDER ∨
      (newName.map List.length).getD 0 > DZFS_MAX_FILENAME ∨ replaced fs d new newName = 0 ∨
      (dzfsDelete fs (replaced fs d new newName) new).1 ≠ .OK then E
  else E.erase (replaced fs d new newName)

/-- The ways a move can go: nothing changes, the entity moves, or it moves after the entity
`e` that it replaces is gone. -/
inductive MoveCase (fs fs' : Dzfs) (E E' : Finset Nat) (ls : Nat → List Nat) (d old new : Nat) :
    Prop where
  | same : fs' = fs → E' = E → MoveCase fs fs' E E' ls d old new
  | moved : Moved fs fs' E ls d old new → E' = E → MoveCase fs fs' E E' ls d old new
  | replaced {fs₁ : Dzfs} (e : Nat) (l : List Nat) : e ∈ ls new → e ≠ d →
      Unlinked fs fs₁ E ls e new (released fs e) → l.Perm ((ls new).erase e) →
      Inv fs₁ (E.erase e) (Function.update ls new l) →
      InFolder fs₁ (E.erase e) (Function.update ls new l) d old →
      Moved fs₁ fs' (E.erase e) (Function.update ls new l) d old new → E' = E.erase e →
      MoveCase fs fs' E E' ls d old new

/-- The same ways, with the result `r` and the end of the move in each of them. -/
inductive MoveStep (fs fs' : Dzfs) (E E' : Finset Nat) (ls : Nat → List Nat) (d old new : Nat)
    (newName : Option (List UInt8)) (r : DzfsResult) : Prop where
  | same : fs' = fs → E' = E →
      (r = .OK → old = new ∧ (newName = none ∨ newName = some (headerName (fs.disk d)))) →
      MoveStep fs fs' E E' ls d old new newName r
  | moved : r = .OK → (∀ name ∈ newName, name.length ≤ DZFS_MAX_FILENAME) →
      replaced fs d new newName = 0 →
      enterNewParent fs d old new newName (renamed (fs.disk d) newName) = (.OK, fs') →
      Moved fs fs' E ls d old new → E' = E → MoveStep fs fs' E E' ls d old new newName r
  | replaced {fs₁ : Dzfs} (l : List Nat) : r = .OK →
      (∀ name ∈ newName, name.length ≤ DZFS_MAX_FILENAME) →
      replaced fs d new newName ≠ 0 → replaced fs d new newName ∈ ls new →
      replaced fs d new newName ≠ d →
      Unlinked fs fs₁ E ls (replaced fs d new newName) new
        (released fs (replaced fs d new newName)) →
      l.Perm ((ls new).erase (replaced fs d new newName)) →
      Inv fs₁ (E.erase (replaced fs d new newName)) (Function.update ls new l) →
      InFolder fs₁ (E.erase (replaced fs d new newName)) (Function.update ls new l) d old →
      enterNewParent fs₁ d old new newName (renamed (fs.disk d) newName) = (.OK, fs') →
      Moved fs₁ fs' (E.erase (replaced fs d new newName)) (Function.update ls new l) d old new →
      E' = E.erase (replaced fs d new newName) → MoveStep fs fs' E E' ls d old new newName r

section

variable (h : Inv fs E ls) (hold : InFolder fs E ls d old) (hnew : new ∈ E)
  (hfolder : entityType (fs.disk new) = DZFS_ENTITY_FOLDER) (newName : Option (List UInt8))
  (hnul : ∀ name ∈ newName, 0 ∉ name) (hsafe : newName.isSome → d ≠ old ∧ d ≠ new)

include h hold hnew hfolder hnul hsafe

/-- The steps of `dzfsMove`. A move with a new name must not move a folder into or out of
itself. -/
theorem dzfsMove_steps :
    MoveStep fs (dzfsMove fs d old new newName).2 E (entitiesAfterMove fs E d old new newName) ls
      d old new newName (dzfsMove fs d old new newName).1 := by
  unfold dzfsMove entitiesAfterMove
  simp only
  by_cases hsame : old = new ∧ (newName = none ∨ newName = some (headerName (fs.readBlock d)))
  · rw [if_pos hsame, if_pos (Or.inl hsame)]
    exact .same rfl rfl fun _ => hsame
  rw [if_neg hsame, if_neg (not_not_intro hfolder)]
  by_cases hlong : (newName.map List.length).getD 0 > DZFS_MAX_FILENAME
  · rw [if_pos hlong, if_pos (Or.inr (Or.inr (Or.inl hlong)))]
    exact .same rfl rfl (by simp)
  rw [if_neg hlong]
  have hfits : ∀ name ∈ newName, name.length ≤ DZFS_MAX_FILENAME := by
    rintro name rfl
    simpa using hlong
  have hlinks : newName.isSome → SameLinks (fs.disk d) (renamed (fs.readBlock d) newName) ∧
      folderParent (renamed (fs.readBlock d) newName) = folderParent (fs.disk d) := by
    cases newName with
    | none => intro hno; cases hno
    | some name => exact fun _ => ⟨renamed_links (hfits name rfl), renamed_parent (hfits name rfl)⟩
  change MoveStep fs (if replaced fs d new newName ≠ 0 then _ else _ : DzfsResult × Dzfs).2 E _ ls
    d old new newName (if replaced fs d new newName ≠ 0 then _ else _ : DzfsResult × Dzfs).1
  by_cases hrep : replaced fs d new newName = 0
  · rw [if_neg (not_not_intro hrep), if_pos (Or.inr (Or.inr (Or.inr (Or.inl hrep))))]
    have henter := enterNewParent_moved h hold hnew hfolder newName
      (b := renamed (fs.readBlock d) newName)
      fun hsome => ⟨(hlinks hsome).1, (hlinks hsome).2, hsafe hsome⟩
    split at henter
    · rw [henter]
      exact .same rfl rfl (by simp)
    · obtain ⟨fs', hok, hmoved⟩ := henter
      rw [hok]
      exact .moved rfl hfits hrep hok hmoved rfl
  rw [if_pos hrep]
  have hlists := h.lists new hnew hfolder
  have hmem : replaced fs d new newName ∈ ls new := hlists.lookup_mem hrep
  have hne : replaced fs d new newName ≠ d := by
    -- In another folder the entity is not listed. In its own folder it has another name.
    intro heq
    have hon : old = new := h.listing.owns.inj _ _ _ hold.listed (heq ▸ hmem)
    have hmatch := lookupFrom_matches fs (fs.readBlock new) _ DZFS_MAX_DIR_CONTENTS 0 hrep
    change nameMatches (fs.disk (replaced fs d new newName)) _ = true at hmatch
    rw [heq] at hmatch
    cases newName with
    | none => exact hsame ⟨hon, Or.inl rfl⟩
    | some name =>
      rw [headerName_renamed (hnul name rfl) (hfits name rfl)] at hmatch
      have hheader := headerName_of_matches (hnul name rfl) (hfits name rfl) hmatch
      exact hsame ⟨hon, Or.inr (by rw [hheader])⟩
  rcases hdel : dzfsDelete fs (replaced fs d new newName) new with ⟨r, fs₁⟩
  have hdel' : dzfsDelete fs (folderLookupName fs (fs.readBlock new)
    (headerName (renamed (fs.readBlock d) newName))) new = (r, fs₁) := hdel
  rw [hdel']
  rcases dzfsDelete_unlinked h ⟨hnew, hfolder, hmem⟩ hdel with ⟨rfl, hr⟩ | ⟨rfl, hgone⟩
  · rw [if_pos (Or.inr (Or.inr (Or.inr (Or.inr hr))))]
    cases r with
    | OK => exact absurd rfl hr
    | ERR_ARGUMENT => exact .same rfl rfl (by simp)
    | ERR_LIMIT => exact .same rfl rfl (by simp)
    | ERR_NOT_FOUND => exact .same rfl rfl (by simp)
    | ERR_FULL => exact .same rfl rfl (by simp)
    | ERR_NOT_EMPTY => exact .same rfl rfl (by simp)
    | ERR_TOO_SMALL => exact .same rfl rfl (by simp)
  have hcond : ¬ ((old = new ∧ (newName = none ∨ newName = some (headerName (fs.readBlock d)))) ∨
      entityType (fs.readBlock new) ≠ DZFS_ENTITY_FOLDER ∨
      (newName.map List.length).getD 0 > DZFS_MAX_FILENAME ∨ replaced fs d new newName = 0 ∨
      DzfsResult.OK ≠ DzfsResult.OK) := by
    simp only [not_or]
    exact ⟨hsame, not_not_intro hfolder, hlong, hrep, by simp⟩
  rw [if_neg hcond]
  obtain ⟨l, hperm, hinv⟩ := hgone.inv
  -- The replaced entity is neither of the folders: it lists nothing.
  have holdne : old ≠ replaced fs d new newName := by
    intro heq
    have hlisted := hold.listed
    rw [heq, hgone.empty] at hlisted
    cases hlisted
  have hlisted : d ∈ Function.update ls new l old := by
    by_cases hon : old = new
    · subst hon
      rw [Function.update_self, hperm.mem_iff]
      exact (List.mem_erase_of_ne hne.symm).mpr hold.listed
    · rw [Function.update_of_ne hon]
      exact hold.listed
  have holdfolder : entityType (fs₁.disk old) = DZFS_ENTITY_FOLDER := by
    by_cases hon : old = new
    · rw [hon]
      exact hgone.type
    · rw [hgone.disk old (Or.inr (h.root_le hold.mem)) hon]
      exact hold.folder
  have hin : InFolder fs₁ (E.erase (replaced fs d new newName)) (Function.update ls new l) d old :=
    ⟨Finset.mem_erase.mpr ⟨holdne, hold.mem⟩, holdfolder, hlisted⟩
  have henter := enterNewParent_moved hinv hin
    (Finset.mem_erase.mpr ⟨hgone.ne.symm, hnew⟩) hgone.type newName
    (b := renamed (fs.readBlock d) newName) fun hsome => by
      obtain ⟨hdold, hdnew⟩ := hsafe hsome
      rw [hgone.disk d (Or.inr (h.root_le (h.entity_of_listed hold.listed).1)) hdnew]
      exact ⟨(hlinks hsome).1, (hlinks hsome).2, hdold, hdnew⟩
  -- The deletion made room in the folder.
  have hroom : (Function.update ls new l new).length ≠ DZFS_MAX_DIR_CONTENTS := by
    have hlen := hperm.length_eq
    have hpos := List.length_pos_of_mem hmem
    have hle := hlists.length_le
    rw [List.length_erase_of_mem hmem] at hlen
    rw [Function.update_self]
    omega
  rw [if_neg hroom] at henter
  obtain ⟨fs', hok, hmoved⟩ := henter
  simp only [hok]
  exact .replaced l rfl hfits hrep hmem hne hgone hperm hinv hin hok hmoved rfl

/-- The cases of `dzfsMove`. A move with a new name must not move a folder into or out of
itself. -/
theorem dzfsMove_cases :
    MoveCase fs (dzfsMove fs d old new newName).2 E (entitiesAfterMove fs E d old new newName) ls
      d old new := by
  rcases dzfsMove_steps h hold hnew hfolder newName hnul hsafe with
    ⟨hfs, hE, -⟩ | ⟨-, -, -, -, hmoved, hE⟩ |
      ⟨l, -, -, -, hmem, hne, hgone, hperm, hinv, hin, -, hmoved, hE⟩
  · exact .same hfs hE
  · exact .moved hmoved hE
  · exact .replaced _ l hmem hne hgone hperm hinv hin hmoved hE

/-- `dzfsMove` keeps the invariant, whatever it returns. A move with a new name must not move
a folder into or out of itself. -/
theorem dzfsMove_inv :
    ∃ ls', Inv (dzfsMove fs d old new newName).2 (entitiesAfterMove fs E d old new newName)
      ls' := by
  rcases dzfsMove_cases h hold hnew hfolder newName hnul hsafe with
    ⟨hfs, hE⟩ | ⟨hmoved, hE⟩ | ⟨e, l, -, -, -, -, -, -, hmoved, hE⟩
  · rw [hfs, hE]
    exact ⟨ls, h⟩
  · obtain ⟨l, -, hinv⟩ := hmoved.inv
    rw [hE]
    exact ⟨_, hinv⟩
  · obtain ⟨l', -, hinv⟩ := hmoved.inv
    rw [hE]
    exact ⟨_, hinv⟩

end

end

end DzOS.Proofs.Fs
