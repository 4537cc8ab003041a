import DzOS.Lib.FileStore
import DzOS.Proofs.Fs.MoveFile

/-!
# `DzOS.Proofs.Fs.StoreRefinement`: dzFS is a store of named files

The abstract level is a `NamedStore`: dnodes with a parent, a name, and for a file its size and its
known bytes. `storeStep` says what a call does to it, from nothing but the arguments of the call and
what it returns. The level below is the disk with its bitmap, its folders and its pointers.

A write is not the plain one. It adds the length of its data to the size, and at the offset 0 it
clears the rest of the first block (`written`). When the disk is full, the bytes in its range are
not known any more (`spoiled`).

`Represents` relates the two levels, each call keeps it (`Represents.step`), and so
`dzfs_refines_store` says for every run of sound calls that the entities, the names, the sizes and
the known bytes are those of the store.
-/

set_option autoImplicit false

namespace DzOS.Proofs.Fs

open DzOS.Lib DzOS.Fs

variable {new old cur : Nat} {b : Bytes} {date : UInt64} {flags : UInt32} {path name : List UInt8}
  {newName : Option (List UInt8)}

/-! ### The abstract calls -/

/-- A store with dnodes, names of bytes, and bytes. -/
abbrev FsStore : Type := NamedStore Nat (List UInt8) UInt8

/-- What a call returns. -/
def outcome (s : FsState) : Call → OpenOut
  | .openRelative path relativeTo flags date => (dzfsOpenRelative s.fs flags date path relativeTo).1
  | .openAbsolute path flags date => (dzfsOpenAbsolute s.fs flags date path).1
  | .write dnode data offset => ⟨(dzfsWrite s.fs dnode data offset).1, none, none⟩
  | .delete dnode parentDnode => ⟨(dzfsDelete s.fs dnode parentDnode).1, none, none⟩
  | .move dnode oldParent newParent newName =>
    ⟨(dzfsMove s.fs dnode oldParent newParent newName).1, none, none⟩

/-- A new entity in the folder `parent`. Its name is the last part of the path. -/
def newEntity (parent : Nat) (path : List UInt8) (flags : UInt32) :
    Entity Nat (List UInt8) UInt8 where
  parent := parent
  name := (parts path).getLast?.getD []
  content := if flags &&& DZFS_O_DIR ≠ 0 then none else some Content.empty

/-- The positions that a write of `len` bytes at the offset 0 clears, up to its own range: those of
the first block. -/
def Cleared (len offset pos : Nat) : Prop := offset = 0 ∧ 0 < len ∧ pos < DZFS_BLOCK_SIZE

instance (len offset : Nat) : DecidablePred (Cleared len offset) := fun _ =>
  inferInstanceAs (Decidable (_ ∧ _ ∧ _))

/-- A file after a write that succeeds. -/
def written (data : List UInt8) (offset : Nat) (c : Content UInt8) : Content UInt8 :=
  ((c.fill (Cleared data.length offset) 0).put data offset).resize
    ((c.size + data.length) % 2 ^ 32)

/-- The positions that a write may touch. -/
def InReach (len offset pos : Nat) : Prop :=
  (offset ≤ pos ∧ pos < offset + len) ∨ Cleared len offset pos

instance (len offset : Nat) : DecidablePred (InReach len offset) := fun _ =>
  inferInstanceAs (Decidable (_ ∨ _))

/-- A file after a write that stopped at a full disk. -/
def spoiled (len offset : Nat) (c : Content UInt8) : Content UInt8 := c.forget (InReach len offset)

/-- What an open does to the store. -/
def storeOpen (t : FsStore) (path : List UInt8) (flags : UInt32) (out : OpenOut) : FsStore :=
  match out with
  | ⟨.OK, some dnode, some parent⟩ => t.create dnode (newEntity parent path flags)
  | _ => t

/-- What a write does to the store. -/
def storeWrite (t : FsStore) (dnode : Nat) (data : List UInt8) (offset : Nat) :
    DzfsResult → FsStore
  | .OK => t.modify dnode (written data offset)
  | .ERR_FULL => t.modify dnode (spoiled data.length offset)
  | _ => t

/-- What a deletion does to the store. -/
def storeDelete (t : FsStore) (dnode : Nat) (result : DzfsResult) : FsStore :=
  if result = .OK then t.remove dnode else t

/-- What a move does to the store. Without a new name, the entity keeps the one that it has. -/
def storeMove (t : FsStore) (dnode newParent : Nat) (newName : Option (List UInt8))
    (result : DzfsResult) : FsStore :=
  if result = .OK then
    t.move dnode newParent (newName.getD (((t dnode).map Entity.name).getD []))
  else t

/-- What a call does to the store, by what it returns. -/
def storeStep (t : FsStore) (out : OpenOut) : Call → FsStore
  | .openRelative path _ flags _ => storeOpen t path flags out
  | .openAbsolute path flags _ => storeOpen t path flags out
  | .write dnode data offset => storeWrite t dnode data offset out.result
  | .delete dnode _ => storeDelete t dnode out.result
  | .move dnode _ newParent newName => storeMove t dnode newParent newName out.result

/-- The store after the calls of a run. -/
def storeRun : FsState → FsStore → List Call → FsStore
  | _, t, [] => t
  | s, t, c :: calls => storeRun (exec s c) (storeStep t (outcome s c) c) calls

/-- The store of a formatted disk. No dnode is 0, so the root folder is in no folder. -/
def rootStore (fs : Dzfs) : FsStore := fun n =>
  if n = fs.rootDnode then some ⟨0, [SLASH], none⟩ else none

/-! ### The bytes of a file -/

/-- The file `d` has the size and the known bytes of `c`. The known bytes are in blocks that are
allocated. -/
structure HasContent (fs : Dzfs) (d : Nat) (c : Content UInt8) : Prop where
  size : fileSize (fs.disk d) = c.size
  known : ∀ pos b, c.known pos = some b → pos < DZFS_MAX_FILESIZE ∧
    readContentBlock (fs.disk d) (indirectOf fs d) (pos / DZFS_BLOCK_SIZE) ≠ 0 ∧
    byteAt fs d pos = b

section
variable {fs fs' : Dzfs} {E : Finset Nat} {ls : Nat → List Nat} {c : Content UInt8}
  {d f n : Nat}

/-- A file keeps its bytes when the blocks that it holds do, up to the header of its dnode. -/
theorem HasContent.frame (h : HasContent fs d c) (hd : d ∈ E)
    (hfile : entityType (fs.disk d) = DZFS_ENTITY_FILE)
    (hlinks : SameLinks (fs.disk d) (fs'.disk d))
    (hsize : fileSize (fs'.disk d) = fileSize (fs.disk d))
    (hkeep : ∀ p n, p.entity = d → p ≠ .dnode d → Holds fs.disk E p n → fs'.disk n = fs.disk n)
    (hboot : fs'.disk 0 = fs.disk 0) : HasContent fs' d c where
  size := hsize.trans h.size
  known pos b hb := by
    obtain ⟨hpos, hne, hbyte⟩ := h.known pos b hb
    have hind : indirectOf fs' d = indirectOf fs d :=
      indirectOf_congr hlinks.indirect fun hne =>
        hkeep (.indirect d) _ rfl (by simp) ⟨hd, hfile, rfl, hne⟩
    refine ⟨hpos, ?_, (byteAt_frame hd hfile hlinks hkeep hboot hpos).trans hbyte⟩
    rw [hind, readContentBlock_links hlinks]
    exact hne

/-- A file keeps its bytes when the blocks that it holds do. -/
theorem HasContent.of_held (h : HasContent fs d c) (hd : d ∈ E)
    (hfile : entityType (fs.disk d) = DZFS_ENTITY_FILE)
    (hkeep : ∀ p n, p.entity = d → Holds fs.disk E p n → fs'.disk n = fs.disk n)
    (hboot : fs'.disk 0 = fs.disk 0) : HasContent fs' d c := by
  have hdnode : fs'.disk d = fs.disk d := hkeep (.dnode d) d rfl ⟨hd, rfl⟩
  exact h.frame hd hfile (SameLinks.of_eq hdnode) (congrArg fileSize hdnode)
    (fun p n hp _ hn => hkeep p n hp hn) hboot

/-- A block of the file `d` is not the dnode of a folder. -/
theorem Inv.held_ne_folder (hinv : Inv fs E ls) {p : Place} (hp : p.entity = d)
    (hn : Holds fs.disk E p n) (hfile : entityType (fs.disk d) = DZFS_ENTITY_FILE) (hf : f ∈ E)
    (hfolder : entityType (fs.disk f) = DZFS_ENTITY_FOLDER) : n ≠ f := by
  rintro rfl
  obtain rfl := hinv.blocks.inj p (.dnode n) n hn ⟨hf, rfl⟩
  exact file_dnode_ne hfile hfolder hp.symm

/-- A file keeps the bytes that are still known. -/
theorem HasContent.forget (h : HasContent fs d c) (p : Nat → Prop) [DecidablePred p] :
    HasContent fs d (c.forget p) where
  size := h.size
  known pos b hb := by
    simp only [Content.forget] at hb
    split at hb
    · cases hb
    · exact h.known pos b hb

/-- A creation does not write to the blocks of a file. -/
theorem Creation.keeps (hinv : Inv fs E ls) (hcur : cur ∈ E)
    (hfolder : entityType (fs.disk cur) = DZFS_ENTITY_FOLDER)
    (hc : Creation fs fs' E ls cur n name flags date) (hd : d ∈ E)
    (hfile : entityType (fs.disk d) = DZFS_ENTITY_FILE) (h : HasContent fs d c) :
    HasContent fs' d c := by
  refine h.of_held hd hfile (fun p m hp hm => ?_) ?_
  · refine hc.disk m (Or.inr (hinv.blocks.used p m hm).1)
      (hinv.held_ne_folder hp hm hfile hcur hfolder) ?_
    rintro rfl
    exact hc.not_holds p hm
  · exact hc.disk 0 (Or.inl (by decide)) (hinv.ne_zero hcur).symm hc.ne_zero.symm

/-- A deletion does not write to the blocks of another file. -/
theorem Deleted.keeps (hinv : Inv fs E ls) (hf : f ∈ E)
    (hfolder : entityType (fs.disk f) = DZFS_ENTITY_FOLDER) (hdel : Deleted fs fs' E ls n f)
    (hd : d ∈ E) (hfile : entityType (fs.disk d) = DZFS_ENTITY_FILE) (h : HasContent fs d c) :
    HasContent fs' d c := by
  refine h.of_held hd hfile (fun p m hp hm => ?_) ?_
  · exact hdel.disk m (Or.inr (hinv.blocks.used p m hm).1)
      (hinv.held_ne_folder hp hm hfile hf hfolder)
  · exact hdel.disk 0 (Or.inl (by decide)) (hinv.ne_zero hf).symm

/-- The end of a move writes to two folders, and to the header of the entity that moves. -/
theorem Entered.keeps (hinv : Inv fs E ls) (hold : InFolder fs E ls n old) (hnew : new ∈ E)
    (hfolder : entityType (fs.disk new) = DZFS_ENTITY_FOLDER)
    (hfits : ∀ name ∈ newName, name.length ≤ DZFS_MAX_FILENAME)
    (hb : entityType (fs.disk n) = DZFS_ENTITY_FILE → b = fs.disk n)
    (hent : Entered fs fs' n old new newName (renamed b newName)) (hd : d ∈ E)
    (hfile : entityType (fs.disk d) = DZFS_ENTITY_FILE) (h : HasContent fs d c) :
    HasContent fs' d c := by
  have hn : n ∈ E := (hinv.entity_of_listed hold.listed).1
  have hboot : fs'.disk 0 = fs.disk 0 :=
    hent.disk 0 (hinv.ne_zero hold.mem).symm (hinv.ne_zero hnew).symm
      fun _ => (hinv.ne_zero hn).symm
  by_cases hdn : d = n
  · -- The file itself moves. A new name is in front of its size and its pointers.
    subst hdn
    rw [hb hfile] at hent
    have hself := hent.block_eq (file_dnode_ne hfile hold.folder) (file_dnode_ne hfile hfolder)
    have hren : SameLinks (fs.disk d) (renamed (fs.disk d) newName) ∧
        fileSize (renamed (fs.disk d) newName) = fileSize (fs.disk d) := by
      cases newName with
      | none => exact ⟨SameLinks.refl _, rfl⟩
      | some name => exact ⟨renamed_links (hfits name rfl), renamed_parent (hfits name rfl)⟩
    rw [← hself] at hren
    refine h.frame hd hfile hren.1 hren.2 (fun p m hp hpd hm => ?_) hboot
    refine hent.disk m (hinv.held_ne_folder hp hm hfile hold.mem hold.folder)
      (hinv.held_ne_folder hp hm hfile hnew hfolder) fun _ => ?_
    rintro rfl
    exact hpd (hinv.blocks.inj p (.dnode m) m hm ⟨hn, rfl⟩)
  · refine h.of_held hd hfile (fun p m hp hm => ?_) hboot
    refine hent.disk m (hinv.held_ne_folder hp hm hfile hold.mem hold.folder)
      (hinv.held_ne_folder hp hm hfile hnew hfolder) fun _ => ?_
    rintro rfl
    obtain rfl := hinv.blocks.inj p (.dnode m) m hm ⟨hn, rfl⟩
    exact hdn hp.symm

/-! ### Writes -/

variable {data : List UInt8} {offset : Nat}

/-- A write to another file does not write to the blocks of a file. -/
theorem dzfsWrite_keeps_other (hinv : Inv fs E ls) (hn : n ∈ E)
    (hlt : data.length + offset < 2 ^ 64) (hd : d ∈ E)
    (hfile : entityType (fs.disk d) = DZFS_ENTITY_FILE) (hdn : d ≠ n) (h : HasContent fs d c) :
    HasContent (dzfsWrite fs n data offset).2 d c := by
  rcases hw : dzfsWrite fs n data offset with ⟨r, fs'⟩
  rcases dzfsWrite_cases hinv.toCore hn hlt hw with
    ⟨rfl, -⟩ | ⟨-, -, -, st, hst, ⟨-, rfl⟩ | ⟨-, rfl, -⟩⟩
  · exact h
  · exact h.of_held hd hfile
      (fun p m hp hm => hst.kept p m hm (Or.inl (by rw [hp]; exact hdn))) hst.boot
  · refine h.of_held hd hfile (fun p m hp hm => hst.finish_kept _ hm (by rw [hp]; exact hdn)) ?_
    have hpos : ∀ p m, WHolds fs.disk E n st.dnodeBlock st.indirectBlock p m → m ≠ 0 := by
      intro p m hp
      have hle := (hst.owns.used p m hp).1
      have htwo := hinv.two_le
      rw [hst.rootDnode] at hle
      omega
    rw [finishWrite_disk_other n st _ (hpos (.dnode n) n (Or.inr ⟨rfl, rfl⟩)).symm
      fun hne => hne.symm]
    exact hst.boot

/-- A write that succeeds makes its data known. -/
theorem HasContent.written (hinv : Inv fs E ls) (hd : d ∈ E) (hlt : data.length + offset < 2 ^ 64)
    (hw : dzfsWrite fs d data offset = (.OK, fs')) (h : HasContent fs d c) :
    HasContent fs' d (written data offset c) := by
  rcases dzfsWrite_cases hinv.toCore hd hlt hw with
    ⟨-, hr⟩ | ⟨hfile, hmax, -, st, hst, ⟨hr, -⟩ | ⟨-, rfl, hloop⟩⟩
  · exact absurd rfl hr
  · cases hr
  have hbound : offset + data.length ≤ DZFS_MAX_FILESIZE := by omega
  obtain ⟨hfilled, hdone⟩ := writeLoop_filled hinv.toCore hd hfile hbound data.length
    (Writing.start hinv.toCore hd hfile Bytes.zero data offset) (Filled.init fs d data offset)
    (Nat.le_refl _) hloop
  have hend : st.offset = offset + data.length := by
    have hlen := hfilled.end_eq
    rw [hdone, List.length_nil] at hlen
    omega
  have hwritten := dzfsWrite_written hinv.toCore hd hbound hw
  refine ⟨?_, fun pos b hb => ?_⟩
  · rw [hwritten.size, h.size]
    rfl
  rw [hst.finish_block]
  simp only [Fs.written, Content.resize, Content.put, Content.fill] at hb
  split at hb
  · -- A position of the data.
    rename_i hin
    have hbyte := hwritten.written pos hin.1 hin.2
    exact ⟨by omega, hfilled.allocated pos hin.1 (by omega),
      Option.some.inj (hbyte.symm.trans hb)⟩
  · -- A position that was known before.
    rename_i hout
    obtain ⟨b₀, hb₀, hval⟩ : ∃ b₀, c.known pos = some b₀ ∧
        b = if Cleared data.length offset pos then 0 else b₀ := by
      split at hb
      · rename_i hclear
        obtain ⟨b₀, hb₀, rfl⟩ := Option.map_eq_some_iff.mp hb
        exact ⟨b₀, hb₀, (if_pos hclear).symm⟩
      · rename_i hclear
        exact ⟨b, hb, (if_neg hclear).symm⟩
    obtain ⟨hpos, hne, hbyte⟩ := h.known pos b₀ hb₀
    refine ⟨hpos, ?_, ?_⟩
    · rw [hst.memBlock_of_old hd hfile (index_lt hpos) hne]
      exact hne
    · rw [hwritten.kept pos hpos (by omega) (Or.inl hne), hbyte, hval]
      rfl

/-- A write that stops at a full disk spoils the bytes in its reach, and no others. -/
theorem HasContent.spoiled (hinv : Inv fs E ls) (hd : d ∈ E) (hlt : data.length + offset < 2 ^ 64)
    (hw : dzfsWrite fs d data offset = (.ERR_FULL, fs')) (h : HasContent fs d c) :
    HasContent fs' d (spoiled data.length offset c) := by
  by_cases hacc : Accepted fs d data offset
  case neg =>
    have hsame := (dzfsWrite_of_not_accepted hacc).2
    rw [hw] at hsame
    rw [show fs' = fs from hsame]
    exact h.forget _
  have hshort : Short fs d data offset := by
    by_contra henough
    have hok := dzfsWrite_enough hinv.toCore hd hacc hlt henough
    rw [hw] at hok
    cases hok
  obtain ⟨last, st, hw', hstuck⟩ := dzfsWrite_short hinv.toCore hd hacc hshort
  obtain rfl := (Prod.mk.inj (hw.symm.trans hw')).2
  have hfile := hacc.1
  obtain ⟨hdnode, hind⟩ := hstuck.kept hd hfile
  refine ⟨(congrArg fileSize hdnode).trans h.size, fun pos b hb => ?_⟩
  simp only [Fs.spoiled, Content.forget] at hb
  split at hb
  · cases hb
  rename_i hout
  obtain ⟨hpos, hne, hbyte⟩ := h.known pos b hb
  have hidx := index_lt hpos
  have hstart := hstuck.filled.start_le
  have hend := hstuck.filled.end_eq
  -- The block of the position was allocated before, and the loop did not write to the position.
  have hkept := hstuck.filled.kept pos hpos (by simp only [InReach] at hout; omega) (Or.inl hne)
  rw [if_neg (by simp only [InReach, Cleared] at hout; omega)] at hkept
  have hblock := hstuck.writing.memBlock_of_old hd hfile hidx hne
  have hdisk := hstuck.only.disk _ (hstuck.writing.memBlock_area hinv.toCore hidx)
  refine ⟨hpos, ?_, ?_⟩
  · rw [hdnode, hind]
    exact hne
  · rw [← hbyte, ← hkept]
    unfold byteAt memByte contentByte
    rw [hdnode, hind, ← hblock, hdisk]
    rfl

end

/-! ### The relation -/

/-- The entities of the store have their type, and the files their bytes. -/
structure Contents (t : FsStore) (fs : Dzfs) : Prop where
  folder : ∀ n e, t n = some e → e.content = none →
    entityType (fs.disk n) = DZFS_ENTITY_FOLDER
  file : ∀ n e c, t n = some e → e.content = some c →
    entityType (fs.disk n) = DZFS_ENTITY_FILE ∧ HasContent fs n c

/-- The store `t` says what the disk has, whose folders have the lists `ls`. -/
structure Represents (t : FsStore) (s : FsState) (ls : Nat → List Nat) : Prop
    extends Contents t s.fs where
  inv : Inv s.fs s.entities ls
  names : UniqueNames s.fs ls
  mem_iff : ∀ n, (t n).isSome ↔ n ∈ s.entities
  root : ∀ e, t s.fs.rootDnode = some e → e.parent = 0
  listed : ∀ n e, t n = some e → n ≠ s.fs.rootDnode →
    n ∈ ls e.parent ∧ headerName (s.fs.disk n) = e.name

section
variable {t t' : FsStore} {s : FsState} {fs' : Dzfs} {ls : Nat → List Nat} {d f n : Nat}
  {e : Entity Nat (List UInt8) UInt8}

theorem Represents.mem (h : Represents t s ls) (he : t n = some e) : n ∈ s.entities :=
  (h.mem_iff n).mp (by rw [he]; rfl)

theorem Represents.eq_none (h : Represents t s ls) (hn : n ∉ s.entities) : t n = none := by
  by_contra hne
  exact hn ((h.mem_iff n).mp (Option.isSome_iff_ne_none.mpr hne))

/-- Entities that keep their type and their bytes, and maybe have another parent or name. -/
theorem Represents.contents (h : Represents t s ls)
    (hsub : ∀ n e, t' n = some e → ∃ e₀, t n = some e₀ ∧ e.content = e₀.content)
    (htype : ∀ n ∈ s.entities, entityType (fs'.disk n) = entityType (s.fs.disk n))
    (hkeep : ∀ n ∈ s.entities, entityType (s.fs.disk n) = DZFS_ENTITY_FILE → ∀ c,
      HasContent s.fs n c → HasContent fs' n c) : Contents t' fs' where
  folder n e he hc := by
    obtain ⟨e₀, he₀, hcontent⟩ := hsub n e he
    rw [htype n (h.mem he₀)]
    exact h.folder n e₀ he₀ (hcontent.symm.trans hc)
  file n e c he hc := by
    obtain ⟨e₀, he₀, hcontent⟩ := hsub n e he
    obtain ⟨hfile, hbytes⟩ := h.file n e₀ c he₀ (hcontent.symm.trans hc)
    have hn := h.mem he₀
    exact ⟨(htype n hn).trans hfile, hkeep n hn hfile c hbytes⟩

/-! ### Opens -/

/-- A creation adds its entity to the store. -/
theorem Represents.create (h : Represents t s ls) (hcur : IsFolder s cur)
    (hc : Creation s.fs fs' s.entities ls cur n name flags date) (hno : 0 ∉ name)
    (hlen : name.length ≤ DZFS_MAX_FILENAME)
    (hmissing : folderLookupName s.fs (s.fs.disk cur) name = 0)
    (hlast : (parts path).getLast? = some name) :
    Represents (t.create n (newEntity cur path flags)) ⟨fs', insert n s.entities⟩
      (Function.update ls cur (ls cur ++ [n])) := by
  have hnone := h.eq_none hc.not_mem
  have hne : ∀ {m}, m ∈ s.entities → m ≠ n := by
    rintro m hm rfl
    exact hc.not_mem hm
  have hroot := hc.only.2
  have hname : (newEntity cur path flags).name = name := by
    rw [newEntity, hlast]
    rfl
  have hold : Contents t fs' := h.contents (fun m e he => ⟨e, he, rfl⟩)
    (fun m hm => hc.header_eq h.inv hm (by decide))
    fun m hm hfile c hbytes => hc.keeps h.inv hcur.1 hcur.2 hm hfile hbytes
  have hkind := newDnode_kind hlen cur flags date (h.inv.lt_word hcur.1)
  rw [← hc.block] at hkind
  rw [NamedStore.create_of_none hnone]
  -- An entity of the new store is the new one, or it was there.
  have hcases : ∀ {m e}, Function.update t n (some (newEntity cur path flags)) m = some e →
      (m = n ∧ e = newEntity cur path flags) ∨ (m ≠ n ∧ t m = some e) := by
    intro m e he
    by_cases hm : m = n
    · subst hm
      rw [Function.update_self] at he
      exact Or.inl ⟨rfl, (Option.some.inj he).symm⟩
    · rw [Function.update_of_ne hm] at he
      exact Or.inr ⟨hm, he⟩
  refine ⟨⟨fun m e he hcontent => ?_, fun m e c he hcontent => ?_⟩, hc.inv,
    h.names.create h.inv hcur.1 hcur.2 hc hno hlen hmissing, fun m => ?_, fun e he => ?_,
    fun m e he hmr => ?_⟩
  · rcases hcases he with ⟨rfl, rfl⟩ | ⟨-, he⟩
    · simp only [newEntity] at hcontent
      split at hcontent
      · rename_i hdir
        rw [if_pos hdir] at hkind
        exact hkind.type
      · cases hcontent
    · exact hold.folder m e he hcontent
  · rcases hcases he with ⟨rfl, rfl⟩ | ⟨-, he⟩
    · simp only [newEntity] at hcontent
      split at hcontent
      · cases hcontent
      · rename_i hdir
        rw [if_neg hdir] at hkind
        cases hcontent
        refine ⟨hkind.type, hkind.size, fun pos b hb => ?_⟩
        cases hb
    · exact hold.file m e c he hcontent
  · simp only [Finset.mem_insert]
    by_cases hm : m = n
    · subst hm
      simp
    · rw [Function.update_of_ne hm, h.mem_iff]
      simp [hm]
  · simp only [hroot] at he
    rw [Function.update_of_ne (hne h.inv.root_mem)] at he
    exact h.root e he
  · simp only [hroot] at hmr
    rcases hcases he with ⟨rfl, rfl⟩ | ⟨hmn, he⟩
    · refine ⟨(mem_update_append ls cur m).mpr (Or.inr ⟨rfl, rfl⟩), ?_⟩
      rw [hname]
      simp only [hc.block]
      exact headerName_of_matches hno hlen (newDnode_name hlen cur flags date)
    · obtain ⟨hin, hnm⟩ := h.listed m e he hmr
      refine ⟨(mem_update_append ls cur n).mpr (Or.inl hin), ?_⟩
      rw [← hnm]
      exact headerName_congr (fun i hi => hc.header_eq h.inv (h.mem he) (hi.trans (by decide)))
        (h.names.short _ m hin)

/-- An open that creates nothing leaves the store as it is. -/
theorem Represents.storeOpen_same (h : Represents t s ls) {out : OpenOut}
    (hok : out.result = .OK → ∃ n ∈ s.entities, out.dnode = some n) :
    storeOpen t path flags out = t := by
  unfold storeOpen
  split
  · obtain ⟨n, hn, heq⟩ := hok rfl
    obtain rfl := Option.some.inj heq
    exact NamedStore.create_of_isSome ((h.mem_iff _).mpr hn)
  · rfl

/-- An open of a path, where the store gets the name from a path with the same last part. -/
theorem Represents.open (h : Represents t s ls) {path' : List UInt8} {relativeTo : Nat}
    (hc : Sound s (.openRelative path relativeTo flags date))
    (hlast : ∀ name, (parts path).getLast? = some name → (parts path').getLast? = some name) :
    ∃ ls', Represents
      (storeOpen t path' flags (dzfsOpenRelative s.fs flags date path relativeTo).1)
      (exec s (.openRelative path relativeTo flags date)) ls' := by
  obtain ⟨⟨hrel, hfits⟩, hdots, hnul⟩ := hc
  rcases ho : dzfsOpenRelative s.fs flags date path relativeTo with ⟨out, fs'⟩
  rw [exec_openRelative ho]
  rcases dzfsOpenRelative_creation h.inv hrel hfits.newNameFits hdots ho with
    ⟨rfl, hok⟩ | ⟨cur, n, name, hend, -, hcur, rfl, hnew⟩
  · rw [entitiesAfterOpen_same hok, h.storeOpen_same hok]
    exact ⟨ls, h⟩
  · obtain ⟨hname, hmissing⟩ := pathEnd_missing hend
    have hpart := List.mem_of_getLast? hname
    exact ⟨_, h.create hcur hnew (fun hz => hnul (mem_parts hpart hz).1) (hfits.parts hpart)
      hmissing (hlast name hname)⟩

theorem Represents.openAbsolute (h : Represents t s ls)
    (hc : Sound s (.openAbsolute path flags date)) :
    ∃ ls', Represents (storeOpen t path flags (dzfsOpenAbsolute s.fs flags date path).1)
      (exec s (.openAbsolute path flags date)) ls' := by
  rcases dzfsOpenAbsolute_cases s.fs flags date path with ⟨hsame, hok⟩ | ⟨rest, rfl, heq⟩
  · have hroot : (dzfsOpenAbsolute s.fs flags date path).1.result = .OK →
        ∃ n ∈ s.entities, (dzfsOpenAbsolute s.fs flags date path).1.dnode = some n :=
      fun hr => ⟨_, h.inv.root_mem, hok hr⟩
    have hexec : exec s (.openAbsolute path flags date) = s := by
      simp only [exec, hsame, entitiesAfterOpen_same hroot]
    rw [hexec, h.storeOpen_same hroot]
    exact ⟨ls, h⟩
  · obtain ⟨hfits, hdots, hnul⟩ := hc
    have hexec : exec s (.openAbsolute (SLASH :: rest) flags date)
        = exec s (.openRelative rest s.fs.rootDnode flags date) := by
      simp only [exec, heq]
    rw [hexec, heq]
    refine h.open ⟨⟨⟨h.inv.root_mem, h.inv.root_folder⟩, hfits.drop 1⟩, hdots,
      fun hz => hnul (List.mem_cons_of_mem _ hz)⟩ fun name => getLast?_parts_slash

/-! ### Writes -/

/-- A write changes the content of its file. -/
theorem Represents.write (h : Represents t s ls) {data : List UInt8} {offset : Nat}
    (hlt : data.length + offset < 2 ^ 64) (hd : d ∈ s.entities) :
    Represents (storeWrite t d data offset (dzfsWrite s.fs d data offset).1)
      (exec s (.write d data offset)) ls := by
  have hheader : ∀ m ∈ s.entities, ∀ i < SIZE_OFFSET,
      (dzfsWrite s.fs d data offset).2.disk m i = s.fs.disk m i :=
    fun m hm i hi => dzfsWrite_header h.inv.toCore hd hlt hm hi
  have hroot : (dzfsWrite s.fs d data offset).2.rootDnode = s.fs.rootDnode :=
    (dzfsWrite_vars s.fs d data offset).2
  have hother : ∀ m ∈ s.entities, m ≠ d → entityType (s.fs.disk m) = DZFS_ENTITY_FILE → ∀ c,
      HasContent s.fs m c → HasContent (dzfsWrite s.fs d data offset).2 m c :=
    fun m hm hmd hfile c hbytes => dzfsWrite_keeps_other h.inv hd hlt hm hfile hmd hbytes
  -- What the write does to the content of its file.
  obtain ⟨g, hstore, hself⟩ : ∃ g : Content UInt8 → Content UInt8,
      storeWrite t d data offset (dzfsWrite s.fs d data offset).1 = t.modify d g ∧
        ∀ c, HasContent s.fs d c → HasContent (dzfsWrite s.fs d data offset).2 d (g c) := by
    have hnothing : (dzfsWrite s.fs d data offset).2 = s.fs →
        ∀ c, HasContent s.fs d c → HasContent (dzfsWrite s.fs d data offset).2 d c := by
      intro hsame c hc
      rw [hsame]
      exact hc
    have hid : t.modify d id = t := by
      unfold NamedStore.modify
      simp
    rcases hw : dzfsWrite s.fs d data offset with ⟨r, fs'⟩
    have hcases := dzfsWrite_cases h.inv.toCore hd hlt hw
    cases r with
    | OK => exact ⟨_, rfl, fun c hc => hc.written h.inv hd hlt hw⟩
    | ERR_FULL => exact ⟨_, rfl, fun c hc => hc.spoiled h.inv hd hlt hw⟩
    | ERR_ARGUMENT | ERR_LIMIT | ERR_NOT_FOUND | ERR_NOT_EMPTY | ERR_TOO_SMALL =>
      rcases hcases with ⟨rfl, -⟩ | ⟨-, -, -, st, -, ⟨hr, -⟩ | ⟨hr, -⟩⟩
      · exact ⟨id, hid.symm, fun c hc => hc⟩
      · cases hr
      · cases hr
  rw [hstore]
  have hinv := dzfsWrite_inv h.inv hd hlt
  refine ⟨⟨fun m e he hcontent => ?_, fun m e c he hcontent => ?_⟩, hinv,
    h.names.mono (fun _ _ hm => hm) fun f m hm => hheader m (h.inv.entity_of_listed hm).1,
    fun m => ?_, fun e he => ?_, fun m e he hmr => ?_⟩
  · obtain ⟨e₀, he₀, -, -, hc⟩ := NamedStore.modify_eq_some he
    refine (hheader m (h.mem he₀) 0 (by decide)).trans (h.folder m e₀ he₀ ?_)
    rw [hcontent] at hc
    split at hc
    · exact Option.map_eq_none_iff.mp hc.symm
    · exact hc.symm
  · obtain ⟨e₀, he₀, -, -, hc⟩ := NamedStore.modify_eq_some he
    rw [hcontent] at hc
    have hm := h.mem he₀
    have htype := hheader m hm 0 (by decide)
    split at hc
    · rename_i hmd
      subst hmd
      obtain ⟨c₀, hc₀, rfl⟩ := Option.map_eq_some_iff.mp hc.symm
      obtain ⟨hfile, hbytes⟩ := h.file m e₀ c₀ he₀ hc₀
      exact ⟨htype.trans hfile, hself c₀ hbytes⟩
    · rename_i hmd
      obtain ⟨hfile, hbytes⟩ := h.file m e₀ c he₀ hc.symm
      exact ⟨htype.trans hfile, hother m hm hmd hfile c hbytes⟩
  · rw [NamedStore.modify_isSome]
    exact h.mem_iff m
  · obtain ⟨e₀, he₀, hparent, -⟩ := NamedStore.modify_eq_some he
    rw [hparent]
    refine h.root e₀ ?_
    rw [← hroot]
    exact he₀
  · obtain ⟨e₀, he₀, hparent, hname, -⟩ := NamedStore.modify_eq_some he
    obtain ⟨hin, hnm⟩ := h.listed m e₀ he₀ fun heq => hmr (heq.trans hroot.symm)
    rw [hparent, hname, ← hnm]
    exact ⟨hin, headerName_congr (hheader m (h.mem he₀)) (h.names.short _ m hin)⟩

/-! ### Deletions -/

/-- A deletion removes its entity from the store. -/
theorem Represents.remove (h : Represents t s ls) (hf : InFolder s.fs s.entities ls d f)
    {freed l : List Nat} (hu : Unlinked s.fs fs' s.entities ls d f freed)
    (hperm : l.Perm ((ls f).erase d))
    (hinv : Inv fs' (s.entities.erase d) (Function.update ls f l)) :
    Represents (t.remove d) ⟨fs', s.entities.erase d⟩ (Function.update ls f l) := by
  have hsub : ∀ {m e}, t.remove d m = some e → m ≠ d ∧ t m = some e := by
    intro m e he
    by_cases hm : m = d
    · subst hm
      rw [NamedStore.remove, Function.update_self] at he
      cases he
    · rw [NamedStore.remove, Function.update_of_ne hm] at he
      exact ⟨hm, he⟩
  refine ⟨h.contents (fun m e he => ⟨e, (hsub he).2, rfl⟩)
      (fun m hm => hu.header_eq h.inv hm (by decide))
      fun m hm hfile c hbytes => hu.toDeleted.keeps h.inv hf.mem hf.folder hm hfile hbytes,
    hinv, h.names.unlinked h.inv hf hu hperm, fun m => ?_, fun e he => ?_, fun m e he hmr => ?_⟩
  · rw [Finset.mem_erase]
    by_cases hm : m = d
    · subst hm
      simp [NamedStore.remove]
    · rw [NamedStore.remove, Function.update_of_ne hm, h.mem_iff]
      simp [hm]
  · simp only [hu.only.2] at he
    exact h.root e (hsub he).2
  · obtain ⟨hmd, he⟩ := hsub he
    simp only [hu.only.2] at hmr
    obtain ⟨hin, hnm⟩ := h.listed m e he hmr
    refine ⟨(h.inv.listing.mem_erase hperm hf.listed).mpr ⟨hin, hmd⟩, ?_⟩
    rw [← hnm]
    exact headerName_congr (fun i hi => hu.header_eq h.inv (h.mem he) (hi.trans (by decide)))
      (h.names.short _ m hin)

theorem Represents.delete (h : Represents t s ls) (hc : Valid s (.delete d f)) :
    ∃ ls', Represents (storeDelete t d (dzfsDelete s.fs d f).1) (exec s (.delete d f)) ls' := by
  have hf := hc.2.inFolder h.inv hc.1
  simp only [exec, storeDelete]
  rcases dzfsDelete_unlinked h.inv hf (Prod.mk.eta (p := dzfsDelete s.fs d f)).symm with
    ⟨hsame, hr⟩ | ⟨hr, hu⟩
  · simp only [if_neg hr, hsame]
    exact ⟨ls, h⟩
  · obtain ⟨l, hperm, hinv⟩ := hu.inv
    simp only [if_pos hr]
    exact ⟨_, h.remove hf hu hperm hinv⟩

/-! ### Moves -/

section

variable (h : Represents t s ls)

include h

/-- The name that an entity has after a move. -/
theorem Represents.name_of_listed (hf : InFolder s.fs s.entities ls d f) :
    ∃ e, t d = some e ∧ e.parent = f ∧ e.name = headerName (s.fs.disk d) := by
  obtain ⟨hd, hroot⟩ := h.inv.entity_of_listed hf.listed
  obtain ⟨e, he⟩ := Option.isSome_iff_exists.mp ((h.mem_iff d).mpr hd)
  obtain ⟨hin, hname⟩ := h.listed d e he hroot
  exact ⟨e, he, h.inv.listing.owns.inj _ _ _ hin hf.listed, hname.symm⟩

/-- The entities of the store with a given folder as their parent are its entries. -/
theorem Represents.listed_of_parent (hf : f ∈ s.entities) (he : t n = some e)
    (hparent : e.parent = f) : n ∈ ls f ∧ headerName (s.fs.disk n) = e.name := by
  have hroot : n ≠ s.fs.rootDnode := by
    rintro rfl
    exact h.inv.ne_zero hf (hparent.symm.trans (h.root e he))
  rw [← hparent]
  exact h.listed n e he hroot

/-- The end of a move, when no entry of the new folder has the name. -/
theorem Represents.enter (hold : InFolder s.fs s.entities ls d old) (hnew : IsFolder s new)
    (hnul : ∀ name ∈ newName, 0 ∉ name) (hfits : ∀ name ∈ newName, name.length ≤ DZFS_MAX_FILENAME)
    (hb : entityType (s.fs.disk d) = DZFS_ENTITY_FILE → b = s.fs.disk d)
    (hname : newName = none → headerName (s.fs.disk d) = headerName b)
    (hent : Entered s.fs fs' d old new newName (renamed b newName))
    (hm : Moved s.fs fs' s.entities ls d old new)
    (hfree : ∀ m ∈ ls new, headerName (s.fs.disk m) ≠ headerName (renamed b newName)) :
    ∃ ls', Represents (t.move d new (newName.getD (((t d).map Entity.name).getD [])))
      ⟨fs', s.entities⟩ ls' := by
  obtain ⟨e, he, hparent, hen⟩ := h.name_of_listed hold
  obtain ⟨hd, hdroot⟩ := h.inv.entity_of_listed hold.listed
  have hshort := h.names.short old d hold.listed
  have hself := hent.name_eq hshort hname
  have hrenamed : headerName (renamed b newName) = newName.getD e.name := by
    rw [(renamed_spec hnul hfits).2.2, hen]
    cases newName with
    | none => exact (hname rfl).symm
    | some name => rfl
  have hlen : (headerName (renamed b newName)).length ≤ DZFS_MAX_FILENAME := by
    rw [hrenamed]
    cases newName with
    | none => exact hen ▸ hshort
    | some name => exact hfits name rfl
  have hstore : t.move d new (newName.getD (((t d).map Entity.name).getD []))
      = t.move d new (newName.getD e.name) := by
    rw [he]
    rfl
  have hsub : ∀ {m e'}, t.move d new (newName.getD e.name) m = some e' →
      (m = d ∧ e' = { e with parent := new, name := newName.getD e.name }) ∨
        (m ≠ d ∧ t m = some e') := fun hmove =>
    ((NamedStore.move_eq_some he).mp hmove).imp_right fun hother => ⟨hother.1, hother.2.1⟩
  obtain ⟨l, hperm, hinv⟩ := hm.inv
  have hmem := fun {g m : Nat} => h.inv.listing.mem_transfer (k := g) (m := m) hold.listed hperm
  rw [hstore]
  refine ⟨_, h.contents (fun m e' he' => ?_) (fun m _ => hm.same.type m)
      fun m hm hfile c hbytes =>
        hent.keeps h.inv hold hnew.1 hnew.2 hfits hb hm hfile hbytes,
    hinv, ?_, fun m => ?_, fun e' he' => ?_, fun m e' he' hmr => ?_⟩
  · rcases hsub he' with ⟨rfl, rfl⟩ | ⟨-, he'⟩
    · exact ⟨e, he, rfl⟩
    · exact ⟨e', he', rfl⟩
  · refine h.names.put (f := new) (n := d) (fun g m hmem' => hmem.mp hmem')
      (fun g m _ hmd => hent.header m fun _ => hmd) ?_ fun m hin => ?_
    · simp only [hself]
      exact hlen
    · simp only [hself]
      exact hfree m hin
  · rw [← h.mem_iff]
    constructor
    · intro hsome
      obtain ⟨e', he'⟩ := Option.isSome_iff_exists.mp hsome
      rcases hsub he' with ⟨rfl, -⟩ | ⟨-, he'⟩
      · rw [he]
        rfl
      · rw [he']
        rfl
    · intro hsome
      obtain ⟨e', he'⟩ := Option.isSome_iff_exists.mp hsome
      by_cases hmd : m = d
      · rw [Option.isSome_iff_exists]
        exact ⟨_, (NamedStore.move_eq_some he).mpr (Or.inl ⟨hmd, rfl⟩)⟩
      · -- No other entity has the name in the new folder.
        refine Option.isSome_iff_exists.mpr ⟨e', (NamedStore.move_eq_some he).mpr
          (Or.inr ⟨hmd, he', ?_⟩)⟩
        rintro ⟨hpar, hnm⟩
        obtain ⟨hin, hhead⟩ := h.listed_of_parent hnew.1 he' hpar
        exact hfree m hin (hhead.trans (hnm.trans hrenamed.symm))
  · simp only [hm.same.only.2] at he'
    rcases hsub he' with ⟨hrd, -⟩ | ⟨-, he'⟩
    · exact absurd hrd.symm hdroot
    · exact h.root e' he'
  · simp only [hm.same.only.2] at hmr
    rcases hsub he' with ⟨rfl, rfl⟩ | ⟨hmd, he'⟩
    · exact ⟨hmem.mpr (Or.inr ⟨rfl, rfl⟩), hself.trans hrenamed⟩
    · obtain ⟨hin, hhead⟩ := h.listed m e' he' hmr
      refine ⟨hmem.mpr (Or.inl ⟨hin, hmd⟩), ?_⟩
      rw [← hhead]
      exact headerName_congr (fun i hi => hent.header m (fun _ => hmd) i (hi.trans (by decide)))
        (h.names.short _ m hin)

/-- A move to the place that the entity has. -/
theorem Represents.move_same (hold : InFolder s.fs s.entities ls d f)
    (hsame : newName = none ∨ newName = some (headerName (s.fs.disk d))) :
    t.move d f (newName.getD (((t d).map Entity.name).getD [])) = t := by
  obtain ⟨e, he, hparent, hen⟩ := h.name_of_listed hold
  have hname : newName.getD (((t d).map Entity.name).getD []) = e.name := by
    rw [he]
    rcases hsame with rfl | rfl
    · rfl
    · exact hen.symm
  rw [hname]
  funext m
  by_cases hmd : m = d
  · subst hmd
    rw [NamedStore.move, if_pos rfl, he, ← hparent]
    rfl
  · rw [NamedStore.move, if_neg hmd]
    cases he' : t m with
    | none => rfl
    | some e' =>
      rw [Option.filter_some, if_pos]
      rw [decide_eq_true_eq]
      rintro ⟨hpar, hnm⟩
      -- The names of the folder are different.
      obtain ⟨hin, hhead⟩ := h.listed_of_parent hold.mem he' hpar
      exact hmd (h.names.distinct f m d hin hold.listed (hhead.trans (hnm.trans hen)))

/-- A move changes the parent and the name of its entity. -/
theorem Represents.move (hc : Sound s (.move d old new newName)) :
    ∃ ls', Represents (storeMove t d new newName (dzfsMove s.fs d old new newName).1)
      (exec s (.move d old new newName)) ls' := by
  obtain ⟨⟨hof, hnew, hlisted, hnul⟩, hsafe, -⟩ := hc
  have hold := hlisted.inFolder h.inv hof
  have hlists := h.inv.lists new hnew.1 hnew.2
  have hshort := h.names.short old d hold.listed
  simp only [exec, storeMove]
  rcases dzfsMove_steps h.inv hold hnew.1 hnew.2 newName hnul hsafe with
    ⟨hfs, hE, hok⟩ | ⟨hr, hfits, hrep, hok, hm, hE⟩ |
      @⟨fs₁, l, hr, hfits, hrep, hmem, hne, hu, hperm, hinv₁, hold₁, hok, hm, hE⟩
  · rw [hfs, hE]
    split
    · rename_i hr
      obtain ⟨rfl, hsame⟩ := hok hr
      rw [h.move_same hold hsame]
      exact ⟨ls, h⟩
    · exact ⟨ls, h⟩
  · rw [if_pos hr, hE]
    have hent := enterNewParent_entered h.inv hold hnew.1 hnew.2 hok
    refine h.enter hold hnew hnul hfits (fun _ => rfl) (fun _ => rfl) hent hm ?_
    exact (hlists.lookup_eq_zero_iff (headerName_no_nul _) (by
      rw [(renamed_spec hnul hfits).2.2]
      cases newName with
      | none => exact hshort
      | some name => exact hfits name rfl)).mp hrep
  · rw [if_pos hr, hE]
    have hlisted' : InFolder s.fs s.entities ls (replaced s.fs d new newName) new :=
      ⟨hnew.1, hnew.2, hmem⟩
    have h₁ := h.remove hlisted' hu hperm hinv₁
    have hd : d ∈ s.entities := (h.inv.entity_of_listed hold.listed).1
    have hnew₁ : IsFolder ⟨fs₁, s.entities.erase (replaced s.fs d new newName)⟩ new :=
      ⟨Finset.mem_erase.mpr ⟨hu.ne.symm, hnew.1⟩, hu.type⟩
    have hent := enterNewParent_entered hinv₁ hold₁ hnew₁.1 hnew₁.2 hok
    have hkept : headerName (fs₁.disk d) = headerName (s.fs.disk d) :=
      headerName_congr (fun i hi => hu.header_eq h.inv hd (hi.trans (by decide))) hshort
    -- The deleted entity is the one that had the name.
    have hlen : (headerName (renamed (s.fs.disk d) newName)).length ≤ DZFS_MAX_FILENAME := by
      rw [(renamed_spec hnul hfits).2.2]
      cases newName with
      | none => exact hshort
      | some name => exact hfits name rfl
    have hgone := ((h.names.lookup_iff hlists (headerName_no_nul _) hlen hrep).mp rfl).2
    obtain ⟨e, he, hparent, hen⟩ := h.name_of_listed hlisted'
    obtain ⟨e₁, he₁, -, hen₁⟩ := h.name_of_listed hold
    have hname : newName.getD (((t d).map Entity.name).getD []) = e.name := by
      rw [hen, he₁, hgone, (renamed_spec hnul hfits).2.2, ← hen₁]
      rfl
    have hsame : (t.remove (replaced s.fs d new newName)) d = t d :=
      Function.update_of_ne hne.symm _ _
    rw [hname, ← NamedStore.move_remove he hparent rfl hne, ← hname, ← hsame]
    refine h₁.enter hold₁ hnew₁ hnul hfits (fun hfile => ?_) (fun _ => hkept) hent hm ?_
    · -- The deletion wrote to the new folder, which is no file.
      refine (hu.disk d (Or.inr (h.inv.root_le hd)) ?_).symm
      exact file_dnode_ne hfile hu.type
    · rw [← hgone]
      exact h.names.free_of_unlinked h.inv hlisted' hu hperm

end

/-! ### Runs -/

/-- A call does to the store what it returns. -/
theorem Represents.step (h : Represents t s ls) {c : Call} (hc : Sound s c) :
    ∃ ls', Represents (storeStep t (outcome s c) c) (exec s c) ls' := by
  cases c with
  | openRelative path relativeTo flags date => exact h.open hc fun _ hlast => hlast
  | openAbsolute path flags date => exact h.openAbsolute hc
  | write dnode data offset => exact ⟨ls, h.write hc.1 hc.2.1⟩
  | delete dnode parentDnode => exact h.delete hc.1
  | move dnode oldParent newParent newName => exact h.move hc

/-- The store of a run says what the disk has. -/
theorem Represents.run (h : Represents t s ls) {calls : List Call} (hok : OkRun Sound s calls) :
    ∃ ls', Represents (storeRun s t calls) (calls.foldl exec s) ls' := by
  induction calls generalizing s t ls with
  | nil => exact ⟨ls, h⟩
  | cons c calls ih =>
    obtain ⟨ls', h'⟩ := h.step hok.1
    exact ih h' hok.2

/-- The store of a formatted disk. -/
theorem rootStore_represents {disk : Nat → Bytes} {blocks : Nat} {fs : Dzfs}
    (hle : blocks ≤ formatLimit) (hnew : dzfsNew disk blocks date = (.OK, fs)) :
    Represents (rootStore fs) (newState fs) fun _ => [] := by
  have hinv := (dzfsNew_formatted hle hnew).inv
  have hroot : ∀ {n e}, rootStore fs n = some e → n = fs.rootDnode ∧ e = ⟨0, [SLASH], none⟩ := by
    intro n e he
    unfold rootStore at he
    split at he
    · rename_i hn
      exact ⟨hn, (Option.some.inj he).symm⟩
    · cases he
  refine ⟨⟨fun n e he _ => ?_, fun n e c he hc => ?_⟩, hinv,
    (nameTree_newState hnew).toUniqueNames, fun n => ?_, fun e he => ?_, fun n e he hn => ?_⟩
  · rw [(hroot he).1]
    exact hinv.root_folder
  · rw [(hroot he).2] at hc
    cases hc
  · simp only [rootStore, newState, Finset.mem_singleton]
    split
    · rename_i hn
      exact iff_of_true rfl hn
    · rename_i hn
      exact iff_of_false Bool.false_ne_true hn
  · rw [(hroot he).2]
  · exact absurd (hroot he).1 hn

end

/-! ### What the calls show -/

/-- A read returns as many bytes as the size allows, and the known ones where they are. -/
structure ReadShows (c : Content UInt8) (size offset : Nat) (out : Int × List UInt8) : Prop where
  count : out.1 = Int.ofNat (readCount c.size size offset)
  length : out.2.length = readCount c.size size offset
  known : ∀ i < readCount c.size size offset, ∀ b, c.known (offset + i) = some b →
    out.2[i]? = some b

/-- The calls show what the store has: its entities with their types, the entries of the folders,
and the sizes and the bytes of the files. -/
structure Shows (t : FsStore) (s : FsState) : Prop where
  entity_iff : ∀ n, n ∈ s.entities ↔ (t n).isSome
  folder_iff : ∀ n, IsFolder s n ↔ ∃ e, t n = some e ∧ e.content = none
  file_iff : ∀ n, IsFile s n ↔ ∃ e c, t n = some e ∧ e.content = some c
  child_iff : ∀ f name n, Child s f name n ↔
    n ≠ s.fs.rootDnode ∧ ∃ e, t n = some e ∧ e.parent = f ∧ e.name = name
  size : ∀ n e c, t n = some e → e.content = some c → (dzfsStat s.fs n).2.size = c.size
  read : ∀ n e c, t n = some e → e.content = some c → ∀ size offset,
    ReadShows c size offset (dzfsRead s.fs n size offset)

section
variable {t : FsStore} {s : FsState} {ls : Nat → List Nat} {c : Content UInt8} {n : Nat}

theorem HasContent.readShows (h : HasContent s.fs n c)
    (hfile : entityType (s.fs.disk n) = DZFS_ENTITY_FILE) (size offset : Nat) :
    ReadShows c size offset (dzfsRead s.fs n size offset) := by
  rw [dzfsRead_eq hfile, h.size]
  refine ⟨rfl, by simp, fun i hi b hb => ?_⟩
  rw [List.getElem?_map, List.getElem?_range hi, ← (h.known _ b hb).2.2]
  rfl

theorem Represents.shows (h : Represents t s ls) : Shows t s where
  entity_iff n := (h.mem_iff n).symm
  folder_iff n := by
    constructor
    · rintro ⟨hn, htype⟩
      obtain ⟨e, he⟩ := Option.isSome_iff_exists.mp ((h.mem_iff n).mpr hn)
      refine ⟨e, he, ?_⟩
      cases hc : e.content with
      | none => rfl
      | some c => exact absurd htype (file_ne_folder (h.file n e c he hc).1)
    · rintro ⟨e, he, hc⟩
      exact ⟨h.mem he, h.folder n e he hc⟩
  file_iff n := by
    constructor
    · rintro ⟨hn, htype⟩
      obtain ⟨e, he⟩ := Option.isSome_iff_exists.mp ((h.mem_iff n).mpr hn)
      cases hc : e.content with
      | none => exact absurd (h.folder n e he hc) (file_ne_folder htype)
      | some c => exact ⟨e, c, he, hc⟩
    · rintro ⟨e, c, he, hc⟩
      exact ⟨h.mem he, (h.file n e c he hc).1⟩
  child_iff f name n := by
    rw [h.inv.child_iff]
    constructor
    · rintro ⟨hin, rfl⟩
      have hf := h.inv.folder_of_listed hin
      obtain ⟨e, he, hparent, hname⟩ := h.name_of_listed ⟨hf.1, hf.2, hin⟩
      exact ⟨(h.inv.entity_of_listed hin).2, e, he, hparent, hname⟩
    · rintro ⟨hroot, e, he, rfl, rfl⟩
      exact h.listed n e he hroot
  size n e c he hc := by
    obtain ⟨hfile, hbytes⟩ := h.file n e c he hc
    rw [dzfsStat_file_size hfile]
    exact hbytes.size
  read n e c he hc size offset := by
    obtain ⟨hfile, hbytes⟩ := h.file n e c he hc
    exact hbytes.readShows hfile size offset

end

/-- dzFS refines the store. After every run of sound calls from a formatted disk, the entities with
their types, the entries of the folders with their names, the sizes and the known bytes of the files
are those of the store that the same calls lead to. -/
theorem dzfs_refines_store {disk : Nat → Bytes} {blocks : Nat} {date : UInt64} {fs : Dzfs}
    (hle : blocks ≤ formatLimit) (hnew : dzfsNew disk blocks date = (.OK, fs))
    (calls : List Call) (hok : OkRun Sound (newState fs) calls) :
    Shows (storeRun (newState fs) (rootStore fs) calls) (calls.foldl exec (newState fs)) := by
  obtain ⟨ls, h⟩ := (rootStore_represents hle hnew).run hok
  exact h.shows

/-- The folder `a` with the file `a/b`, which is written twice, and a move of the file to the root
folder. -/
def storeCalls : List Call :=
  [.openRelative [97] 3 3 0, .openAbsolute [47, 97, 47, 98] 1 0, .write 5 [65, 66] 0,
    .write 5 [67] 1, .move 5 4 3 (some [99])]

theorem dzfs_refines_store_run :
    Shows (storeRun (newState formattedDisk) (rootStore formattedDisk) storeCalls)
      (storeCalls.foldl exec (newState formattedDisk)) :=
  dzfs_refines_store (show 32768 ≤ formatLimit by decide) formattedDisk_new
    storeCalls (by decide +kernel)

end DzOS.Proofs.Fs
