import DzOS.Fs.Syscall
import DzOS.Proofs.Fs.Descriptors
import DzOS.Proofs.Fs.Names

/-!
# `DzOS.Proofs.Fs.Readdir`: a process reads a directory

`fs_readdir` writes records of different lengths into a buffer, and the process walks through the
buffer from record to record. `decodeDirents` is this walk. A record has `stride` bytes, and the
process takes them from the name that it finds.

The names come from a `struct dzFSStat`, whose array has 255 bytes. The entities of a disk can have
longer names, since nothing stops `dzfs_open_relative` from creating them. Their characters go on in
the creation date and the size on the disk. In the struct the creation date and the size follow the
array too, but behind them it has other members than the block. So the record has `shownOf` instead
of the entry, with a name that differs from the 268th character of a file on, and from the 264th one
of a folder on (`shownOf_eq_iff`).

`readdirLoop_spec` is the loop of the source: it writes as many of the shown entries as `fitting`
counts, and only inside the buffer, and the walk finds these entries. A name starts in front of the
end of the struct, so a record is written in two overlapping parts, and a record is read with the
bytes behind it already changed.

`sys_readdir` keeps the number of entries that it has delivered in the offset of the descriptor.
`readAll` calls it again and again, and `readAll_spec` says that a process with large enough
buffers gets every entry once, in order, and 0 from then on. `directory_readBack_iff` has both, for
exactly the directories whose entries are shown as they are.
-/

set_option autoImplicit false

namespace DzOS.Proofs.Fs

open DzOS.Lib DzOS.Fs DzOS.Fs.Syscall

variable {o a len x buffer f : Nat} {fs : Dzfs} {b b' mem' mem : Bytes} {fd : Fin MAX_OPEN_FILES}
  {stat : DzfsStat} {type : UInt8}

/-! ### Directories and records -/

/-- An entry of a directory. -/
structure Dirent where
  name : List UInt8
  type : UInt8
  size : Nat
  creationDate : Nat
  deriving DecidableEq, Repr

variable {es : List Dirent} {results : List (Int × List Dirent)}

/-- The entry that a block with an entity is. -/
def entryOf (b : Bytes) : Dirent where
  name := headerName b
  type := if entityType b = DZFS_ENTITY_FILE then DT_FILE else DT_DIR
  size := if entityType b = DZFS_ENTITY_FILE then fileSize b else folderContentCount b
  creationDate := b.getLE 8 256

/-- The folder `f` is a directory with the entities `children`. -/
structure IsDirectory (fs : Dzfs) (f : Nat) (children : List Nat) : Prop where
  folder : entityType (fs.disk f) = DZFS_ENTITY_FOLDER
  lists : Lists (fs.disk f) children

/-- The block has an entity: a file or a folder. -/
def IsEntity (b : Bytes) : Prop :=
  entityType b = DZFS_ENTITY_FILE ∨ entityType b = DZFS_ENTITY_FOLDER

/-- The members of `struct dzFSStat` behind the creation date, for the folder `d` with the block
`b`. -/
def folderTail (b : Bytes) (d : Nat) : Bytes :=
  let t := Bytes.zero.setLE 4 264 (folderContentCount b)
  let t := t.setLE 4 268 (folderParent b)
  t.setLE 4 272 d

/-- The entity `d` is shown with its name. The name of a file has at most 267 characters, up to the
end of the field with the size. The name of a folder has at most 262, or its characters from the
264th on happen to be the bytes of the members behind the creation date. -/
def Shown (fs : Dzfs) (d : Nat) : Prop :=
  (entityType (fs.disk d) = DZFS_ENTITY_FILE ∧ (headerName (fs.disk d)).length ≤ 267) ∨
    (entityType (fs.disk d) = DZFS_ENTITY_FOLDER ∧
      ((headerName (fs.disk d)).length ≤ 262 ∨
        (headerName (fs.disk d)).drop 263 = cstring (folderTail (fs.disk d) d) 16 264))

instance (fs : Dzfs) (d : Nat) : Decidable (Shown fs d) :=
  inferInstanceAs (Decidable ((_ ∧ _) ∨ (_ ∧ (_ ∨ _))))

/-- The entries of a directory. -/
def entriesOf (fs : Dzfs) (children : List Nat) : List Dirent :=
  children.map fun d => entryOf (fs.disk d)

/-- The entry that `fs_readdir` shows for an entity. -/
def shownOf (fs : Dzfs) (d : Nat) : Dirent :=
  { entryOf (fs.disk d) with name := nameOfStat (dzfsStat fs d).2 }

/-- The record at an address. No name in a record is longer than the struct that it comes from. -/
def direntAt (mem : Bytes) (a : Nat) : Dirent where
  name := cstring mem sizeofDzfsStat (a + DIRENT_NAME)
  type := mem (a + DIRENT_TYPE)
  size := mem.getLE 4 (a + DIRENT_SIZE)
  creationDate := mem.getLE 8 a

/-- The distance from a record to the next one. -/
def stride (e : Dirent) : Nat := sizeofDirent + e.name.length

/-- The walk through `k` records. -/
def decodeDirents (mem : Bytes) : Nat → Nat → List Dirent
  | 0, _ => []
  | k + 1, a => direntAt mem a :: decodeDirents mem k (a + stride (direntAt mem a))

/-- How many of the entries fit in a buffer. -/
def fitting : Nat → List Dirent → Nat
  | _, [] => 0
  | len, e :: es => if stride e < len then fitting (len - stride e) es + 1 else 0

theorem fitting_le (len : Nat) (es : List Dirent) : fitting len es ≤ es.length := by
  induction es generalizing len with
  | nil => exact le_rfl
  | cons e es ih =>
    rw [fitting]
    split
    · exact Nat.succ_le_succ (ih _)
    · exact Nat.zero_le _

/-- The first entry fits in a large buffer. -/
theorem fitting_pos (hne : es ≠ []) (hlarge : ∀ e ∈ es, stride e < len) : 0 < fitting len es := by
  cases es with
  | nil => exact absurd rfl hne
  | cons e es =>
    rw [fitting, if_pos (hlarge e (by simp))]
    exact Nat.succ_pos _

/-! ### Names in memory -/

/-- A name depends on its own bytes and its `NUL`. -/
theorem cstring_congr (left i : Nat)
    (h : ∀ a, i ≤ a → a < i + left → a ≤ i + (cstring b left i).length → b' a = b a) :
    cstring b' left i = cstring b left i := by
  induction left generalizing i with
  | zero => rfl
  | succ left ih =>
    have hi : b' i = b i := h i le_rfl (by omega) (by omega)
    rw [cstring] at h ⊢
    rw [cstring, hi]
    by_cases hz : b i = 0
    · rw [if_pos hz, if_pos hz]
    · rw [if_neg hz] at h
      rw [if_neg hz, if_neg hz]
      congr 1
      apply ih
      intro a h1 h2 h3
      exact h a (by omega) (by omega) (by simp only [List.length_cons]; omega)

/-- No character of a name is the `NUL`. -/
theorem zero_notMem_cstring (b : Bytes) (left i : Nat) : (0 : UInt8) ∉ cstring b left i := by
  induction left generalizing i with
  | zero => exact List.not_mem_nil
  | succ left ih =>
    rw [cstring]
    by_cases hz : b i = 0
    · rw [if_pos hz]
      exact List.not_mem_nil
    · rw [if_neg hz, List.mem_cons, not_or]
      exact ⟨fun hzero => hz hzero.symm, ih (i + 1)⟩

theorem length_cstring_le (b : Bytes) (left i : Nat) : (cstring b left i).length ≤ left := by
  induction left generalizing i with
  | zero => exact le_rfl
  | succ left ih =>
    rw [cstring]
    split
    · exact Nat.zero_le _
    · exact Nat.succ_le_succ (ih _)

/-- A name that may go on behind its first `k` characters. -/
theorem cstring_add (b : Bytes) (k left i : Nat) :
    cstring b (k + left) i
      = cstring b k i ++ if (cstring b k i).length = k then cstring b left (i + k) else [] := by
  induction k generalizing i with
  | zero => simp [cstring]
  | succ k ih =>
    rw [Nat.succ_add_eq_add_succ, Nat.add_succ, cstring, cstring]
    by_cases hz : b i = 0
    · simp [hz]
    · have hplace : i + 1 + k = i + (k + 1) := by omega
      rw [if_neg hz, if_neg hz, ih (i + 1), List.cons_append, hplace]
      simp only [List.length_cons, Nat.add_right_cancel_iff]

/-- Two names with the same first `k` characters are the same if they end there, or if the rest is
the same. -/
theorem cstring_eq_iff (b b' : Bytes) (k left left' i : Nat)
    (h : ∀ a, i ≤ a → a < i + k → b' a = b a) :
    cstring b' (k + left') i = cstring b (k + left) i ↔
      (cstring b (k + left) i).length < k ∨
        cstring b' left' (i + k) = (cstring b (k + left) i).drop k := by
  have hfirst : cstring b' k i = cstring b k i := cstring_congr k i fun a h1 h2 _ => h a h1 h2
  have hle := length_cstring_le b k i
  rw [cstring_add, cstring_add, hfirst]
  by_cases hlong : (cstring b k i).length = k
  · have hdrop : (cstring b k i ++ cstring b left (i + k)).drop k = cstring b left (i + k) := by
      rw [List.drop_append_of_le_length (Nat.le_of_eq hlong.symm),
        List.drop_of_length_le (by omega), List.nil_append]
    rw [if_pos hlong, if_pos hlong, hdrop, List.append_cancel_left_eq, List.length_append, hlong,
      or_iff_right (by omega)]
  · rw [if_neg hlong, if_neg hlong, List.append_nil]
    exact iff_of_true rfl (Or.inl (by omega))

/-- A record depends on its own bytes only. -/
theorem direntAt_congr (h : ∀ x, a ≤ x → x < a + stride (direntAt mem a) → mem' x = mem x) :
    direntAt mem' a = direntAt mem a := by
  have hstride : stride (direntAt mem a) =
      16 + (cstring mem sizeofDzfsStat (a + DIRENT_NAME)).length := rfl
  rw [hstride] at h
  unfold direntAt
  rw [Dirent.mk.injEq]
  refine ⟨?_, ?_, ?_, ?_⟩
  · apply cstring_congr
    intro x h1 _ h2
    simp only [DIRENT_NAME] at h1 h2
    exact h x (by omega) (by simp only [DIRENT_NAME]; omega)
  · exact h _ (by omega) (by simp only [DIRENT_TYPE]; omega)
  · apply Bytes.getLE_congr
    intro x h1 h2
    simp only [DIRENT_SIZE] at h1 h2
    exact h x (by omega) (by omega)
  · apply Bytes.getLE_congr
    intro x h1 h2
    exact h x (by omega) (by omega)

/-! ### The name in `struct dzFSStat` -/

section

variable {fs : Dzfs} {f d : Nat} {children : List Nat}

/-- The name ends in the struct. -/
theorem nameOfStat_length_lt (stat : DzfsStat) :
    (nameOfStat stat).length < sizeofDzfsStat := by
  have hle : (nameOfStat stat).length ≤ 279 := length_cstring_le (statBytes stat) 279 1
  exact Nat.lt_of_le_of_lt hle (by decide)

/-- Up to the creation date the struct has the bytes of the block. -/
theorem statBytes_front (fs : Dzfs) (d : Nat) (hlo : 1 ≤ x) (hhi : x < 264) :
    statBytes (dzfsStat fs d).2 x = fs.disk d x := by
  have hname : (dzfsStat fs d).2.name = (fs.disk d).slice 1 255 := by
    unfold dzfsStat
    dsimp only
    split
    · rfl
    · split
      · rfl
      · rfl
  have hdate : (dzfsStat fs d).2.creationDate = (fs.disk d).getLE 8 256 := by
    unfold dzfsStat
    dsimp only
    split
    · rfl
    · split
      · rfl
      · rfl
  have hlen : ((fs.disk d).slice 1 255).length = 255 := Bytes.length_slice _ _ _
  unfold statBytes
  rw [Bytes.setLE_of_apart (Or.inl (by omega)), Bytes.setLE_of_apart (Or.inl (by omega)),
    Bytes.setLE_of_apart (Or.inl (by omega)), hname, hdate]
  by_cases harray : x < 256
  · rw [Bytes.setLE_of_apart (Or.inl harray), Bytes.blit_of_mem hlo (by omega),
      Bytes.getElem_slice, Nat.add_sub_cancel' hlo]
  · exact Bytes.setLE_getLE_of_mem (by omega) (by omega)

/-- For a file it has those of the size too, and then the parent 0. -/
theorem statBytes_file (hfile : entityType (fs.disk d) = DZFS_ENTITY_FILE) :
    (∀ x, 264 ≤ x → x < 268 → statBytes (dzfsStat fs d).2 x = fs.disk d x) ∧
      statBytes (dzfsStat fs d).2 268 = 0 := by
  have hsize : (dzfsStat fs d).2.size = (fs.disk d).getLE 4 264 := by
    unfold dzfsStat
    dsimp only [Dzfs.readBlock]
    rw [if_pos hfile]
    rfl
  have hparent : (dzfsStat fs d).2.parent = 0 := by
    unfold dzfsStat
    dsimp only [Dzfs.readBlock]
    rw [if_pos hfile]
  unfold statBytes
  constructor
  · intro x h1 h2
    rw [Bytes.setLE_of_apart (Or.inl (by omega)), Bytes.setLE_of_apart (Or.inl (by omega)), hsize]
    exact Bytes.setLE_getLE_of_mem h1 (by omega)
  · rw [Bytes.setLE_of_apart (Or.inl (by decide)), hparent]
    rfl

/-- For a folder it has the number of its entities, the parent and the dnode. -/
theorem statBytes_folder (hfolder : entityType (fs.disk d) = DZFS_ENTITY_FOLDER) (hlo : 264 ≤ x) :
    statBytes (dzfsStat fs d).2 x = folderTail (fs.disk d) d x := by
  have hne : DZFS_ENTITY_FOLDER ≠ DZFS_ENTITY_FILE := by decide
  have hstat : (dzfsStat fs d).2 = ⟨DZFS_ENTITY_FOLDER, (fs.disk d).slice 1 255,
      (fs.disk d).getLE 8 256, folderContentCount (fs.disk d), folderParent (fs.disk d), d⟩ := by
    unfold dzfsStat
    dsimp only [Dzfs.readBlock]
    rw [hfolder, if_neg hne, if_pos rfl]
    rfl
  have hlen : ((fs.disk d).slice 1 255).length = 255 := Bytes.length_slice _ _ _
  rw [hstat]
  unfold statBytes folderTail
  -- The two stores differ below the members only.
  have hbelow : (((Bytes.zero.set 0 DZFS_ENTITY_FOLDER).blit 1 ((fs.disk d).slice 1 255)).setLE 8
      256 ((fs.disk d).getLE 8 256)) x = Bytes.zero x := by
    rw [Bytes.setLE_of_apart (Or.inr (by omega)), Bytes.blit_of_apart (Or.inr (by omega))]
    exact if_neg (by omega)
  unfold Bytes.setLE at hbelow ⊢
  dsimp only at hbelow ⊢
  rw [hbelow]

/-- The name in the struct is the name of the entity. -/
theorem nameOfStat_eq_iff (h : IsEntity (fs.disk d)) :
    nameOfStat (dzfsStat fs d).2 = headerName (fs.disk d) ↔ Shown fs d := by
  unfold Shown
  rcases h with hfile | hfolder
  · obtain ⟨hsize, hparent⟩ := statBytes_file hfile
    have hne : entityType (fs.disk d) ≠ DZFS_ENTITY_FOLDER := fun hfolder =>
      file_ne_folder hfile hfolder
    have hrest : cstring (statBytes (dzfsStat fs d).2) 12 268 = [] := by
      rw [cstring, if_pos hparent]
    rw [and_iff_right hfile, or_iff_left (fun hcontra => hne hcontra.1)]
    have heq := cstring_eq_iff (fs.disk d) (statBytes (dzfsStat fs d).2) 267 3828 12 1
      fun a h1 h2 => by
        by_cases hfront : a < 264
        · exact statBytes_front fs d h1 hfront
        · exact hsize a (by omega) (by omega)
    change nameOfStat (dzfsStat fs d).2 = headerName (fs.disk d) ↔
      (headerName (fs.disk d)).length < 267 ∨ _ = (headerName (fs.disk d)).drop 267 at heq
    rw [heq, hrest, eq_comm, List.drop_eq_nil_iff]
    omega
  · have hne : entityType (fs.disk d) ≠ DZFS_ENTITY_FILE := fun hfile =>
      file_ne_folder hfile hfolder
    have htail : cstring (statBytes (dzfsStat fs d).2) 16 264
        = cstring (folderTail (fs.disk d) d) 16 264 :=
      cstring_congr 16 264 fun a h1 _ _ => statBytes_folder hfolder h1
    rw [or_iff_right (fun hcontra => hne hcontra.1), and_iff_right hfolder]
    have heq := cstring_eq_iff (fs.disk d) (statBytes (dzfsStat fs d).2) 263 3832 16 1
      fun a h1 h2 => statBytes_front fs d h1 (by omega)
    change nameOfStat (dzfsStat fs d).2 = headerName (fs.disk d) ↔
      (headerName (fs.disk d)).length < 263 ∨ _ = (headerName (fs.disk d)).drop 263 at heq
    rw [heq, htail, Nat.lt_succ_iff, eq_comm (a := cstring _ _ _)]

theorem Shown.isEntity (h : Shown fs d) : IsEntity (fs.disk d) := h.imp And.left And.left

/-- An entity is shown as its entry. -/
theorem shownOf_eq_iff (h : IsEntity (fs.disk d)) :
    shownOf fs d = entryOf (fs.disk d) ↔ Shown fs d := by
  rw [← nameOfStat_eq_iff h]
  unfold shownOf entryOf
  simp only [Dirent.mk.injEq, and_true]

/-! ### One record -/

/-- `dzfs_stat` fills its record with the entry that is shown. -/
theorem stat_entry (htype : IsEntity (fs.disk d)) :
    direntType (dzfsStat fs d).2.type = some (shownOf fs d).type ∧
      (dzfsStat fs d).2.size = (shownOf fs d).size ∧
      (dzfsStat fs d).2.creationDate = (shownOf fs d).creationDate := by
  unfold shownOf dzfsStat entryOf direntType
  rcases htype with hfile | hfolder
  · simp [hfile]
  · have hno : entityType (fs.disk d) ≠ DZFS_ENTITY_FILE := fun hfile =>
      file_ne_folder hfile hfolder
    have hne : DZFS_ENTITY_FOLDER ≠ DZFS_ENTITY_FILE := by decide
    simp [hfolder, hne]

end

/-- The bytes that are written for an entry are inside its record. -/
theorem writeDirent_of_apart (h : x < a ∨ a + (sizeofDirent + (nameOfStat stat).length) ≤ x) :
    writeDirent mem a type stat x = mem x := by
  simp only [sizeofDirent] at h
  have hlen : (nameOfStat stat ++ [0]).length = (nameOfStat stat).length + 1 := by simp
  have hname : x < a + 13 ∨ a + 13 + (nameOfStat stat ++ [0]).length ≤ x := by omega
  have hsize : x < a + 8 ∨ a + 8 + 4 ≤ x := by omega
  have hdate : x < a ∨ a + 8 ≤ x := by omega
  have htype : x ≠ a + 12 := by omega
  unfold writeDirent
  simp only [DIRENT_NAME, DIRENT_SIZE, DIRENT_TYPE]
  rw [Bytes.blit_of_apart hname, Bytes.setLE_of_apart hsize, Bytes.setLE_of_apart hdate]
  exact if_neg htype

/-- The record that is written for an entry. -/
theorem direntAt_writeDirent (hname : (nameOfStat stat).length < sizeofDzfsStat)
    (hsize : stat.size < 2 ^ 32) (hdate : stat.creationDate < 2 ^ 64) :
    direntAt (writeDirent mem a type stat) a =
      ⟨nameOfStat stat, type, stat.size, stat.creationDate⟩ := by
  have hlen : (nameOfStat stat ++ [0]).length = (nameOfStat stat).length + 1 := by simp
  have hno : (0 : UInt8) ∉ nameOfStat stat := zero_notMem_cstring _ _ _
  -- The name is written last, and it is behind the other fields.
  have hfront : ∀ x, x < a + 13 → writeDirent mem a type stat x =
      (((mem.set (a + 12) type).setLE 8 a stat.creationDate).setLE 4 (a + 8) stat.size) x := by
    intro x hx
    exact Bytes.blit_of_apart (Or.inl hx)
  have hback : ∀ (k : Nat) (hk : k < (nameOfStat stat ++ [0]).length),
      writeDirent mem a type stat (a + 13 + k) = (nameOfStat stat ++ [0])[k] := by
    intro k hk
    have hend : a + 13 + k < a + 13 + (nameOfStat stat ++ [0]).length := by omega
    refine (Bytes.blit_of_mem (Nat.le_add_right _ _) hend).trans ?_
    congr 1
    omega
  simp only [direntAt, DIRENT_NAME, DIRENT_SIZE, DIRENT_TYPE, Dirent.mk.injEq]
  refine ⟨?_, ?_, ?_, ?_⟩
  · apply cstring_eq _ _ _ (by omega)
    · intro k hk
      rw [hback k (by omega)]
      simp [hk]
    · rw [hback _ (by omega)]
      simp
    · exact hno
  · rw [hfront (a + 12) (by omega), Bytes.setLE_of_apart (by right; omega),
      Bytes.setLE_of_apart (by right; omega)]
    exact if_pos rfl
  · have hword : (writeDirent mem a type stat).getLE 4 (a + 8) = _ :=
      Bytes.getLE_congr fun x _ h2 => hfront x (by omega)
    rw [hword, Bytes.getLE_setLE_self]
    exact Nat.mod_eq_of_lt (by simpa using hsize)
  · have hword : (writeDirent mem a type stat).getLE 8 a = _ :=
      Bytes.getLE_congr fun x _ h2 => hfront x (by omega)
    rw [hword, Bytes.getLE_setLE_of_apart (by left; omega), Bytes.getLE_setLE_self]
    exact Nat.mod_eq_of_lt (by simpa using hdate)

/-! ### One call -/

section

variable {fs : Dzfs} {f d : Nat} {children : List Nat}

/-- The numbers of an entry fit their fields. -/
theorem entryOf_bounds (b : Bytes) :
    (entryOf b).size < 2 ^ 32 ∧ (entryOf b).creationDate < 2 ^ 64 := by
  constructor
  · unfold entryOf
    simp only
    split
    · exact Bytes.getLE_lt b 4 SIZE_OFFSET
    · have hle := folderContentCount_le b
      simp only [DZFS_MAX_DIR_CONTENTS] at hle
      omega
  · exact Bytes.getLE_lt b 8 256

/-- The loop reports the end of the directory. -/
theorem readDir_end (h : IsDirectory fs f children) (ho : children.length ≤ o) :
    dzfsReadDir fs f o = (.ERR_LIMIT, none) := by
  rw [h.lists.readDir h.folder, if_neg (not_lt.mpr ho)]

/-- The loop reads an entry. -/
theorem readDir_entry (h : IsDirectory fs f children) (ho : o < children.length) :
    dzfsReadDir fs f o
      = ((dzfsStat fs children[o]).1, some (dzfsStat fs children[o]).2) := by
  rw [h.lists.readDir h.folder, if_pos ho, List.getD_eq_getElem _ _ ho]

/-- The entries that are shown for a directory. -/
def shownIn (fs : Dzfs) (children : List Nat) : List Dirent := children.map (shownOf fs)

theorem shownIn_eq (h : ∀ d ∈ children, Shown fs d) :
    shownIn fs children = entriesOf fs children :=
  List.map_congr_left fun d hd => (shownOf_eq_iff (h d hd).isEntity).mpr (h d hd)

/-- The record of an entry in the buffer, when only bytes behind it are written later. -/
theorem direntAt_kept (h : IsEntity (fs.disk d)) (hframe : ∀ x < buffer + stride (shownOf fs d),
      mem' x = writeDirent mem buffer (shownOf fs d).type (dzfsStat fs d).2 x) :
    direntAt mem' buffer = shownOf fs d := by
  obtain ⟨-, hsize, hdate⟩ := stat_entry h
  have hbounds := entryOf_bounds (fs.disk d)
  have hwritten : direntAt (writeDirent mem buffer (shownOf fs d).type (dzfsStat fs d).2) buffer
      = shownOf fs d := by
    rw [direntAt_writeDirent (nameOfStat_length_lt _), hsize, hdate]
    · rfl
    · rw [hsize]
      exact hbounds.1
    · rw [hdate]
      exact hbounds.2
  -- Decoding reads the bytes of the record only.
  rw [← hwritten]
  apply direntAt_congr
  intro x _ hx
  rw [hwritten] at hx
  exact hframe x hx

/-- The loop of `fs_readdir` from the entry `o` on. -/
theorem readdirLoop_spec (h : IsDirectory fs f children)
    (htyped : ∀ d ∈ children, IsEntity (fs.disk d)) (left : Nat) (mem : Bytes)
    (buffer len o read : Nat) (hleft : children.length < o + left) :
    ∃ mem', readdirLoop fs f left mem buffer len o read =
        .ok (((read + fitting len ((shownIn fs children).drop o) : Nat) : Int), mem') ∧
      (∀ x, x < buffer ∨ buffer + len ≤ x → mem' x = mem x) ∧
      decodeDirents mem' (fitting len ((shownIn fs children).drop o)) buffer =
        ((shownIn fs children).drop o).take (fitting len ((shownIn fs children).drop o)) := by
  have hlength : (shownIn fs children).length = children.length := by simp [shownIn]
  induction left generalizing mem buffer len o read with
  | zero =>
    -- The loop has ended before.
    rw [List.drop_eq_nil_of_le (by omega)]
    exact ⟨mem, rfl, fun _ _ => rfl, rfl⟩
  | succ left ih =>
    rw [readdirLoop]
    by_cases ho : o < children.length
    · have hentity := htyped _ (List.getElem_mem ho)
      obtain ⟨htype, -, -⟩ := stat_entry hentity
      have hbound : o < (shownIn fs children).length := by omega
      have hentry : (shownIn fs children)[o] = shownOf fs children[o] := by
        simp [shownIn]
      have hdrop := List.drop_eq_getElem_cons hbound
      rw [hentry] at hdrop
      generalize hes : (shownIn fs children).drop (o + 1) = es at hdrop
      have hstride : sizeofDirent + (nameOfStat (dzfsStat fs children[o]).2).length
          = stride (shownOf fs children[o]) := rfl
      rw [readDir_entry h ho, dzfsStat_ok hentity, hdrop]
      simp only [hstride]
      generalize he : shownOf fs children[o] = e at htype hdrop hstride
      by_cases hfit : stride e < len
      · -- The entry fits, and the loop goes on behind its record.
        rw [if_neg (by omega), htype, fitting, if_pos hfit]
        simp only
        obtain ⟨mem', hloop, hframe, hdecode⟩ := ih (writeDirent mem buffer e.type
          (dzfsStat fs children[o]).2) (buffer + stride e) (len - stride e) (o + 1) (read + 1)
          (by omega)
        rw [hes] at hloop hdecode
        refine ⟨mem', ?_, ?_, ?_⟩
        · rw [hloop]
          congr 3
          omega
        · intro x hx
          rw [hframe x (by omega)]
          exact writeDirent_of_apart (by rw [hstride]; omega)
        · -- The rest of the loop writes behind the record.
          have hrecord : direntAt mem' buffer = e := by
            rw [← he]
            apply direntAt_kept hentity
            rw [he]
            intro x hx
            exact hframe x (by omega)
          rw [decodeDirents, hrecord, hdecode, List.take_succ_cons]
      · -- The buffer is full, and this entry is left for the next call.
        rw [if_pos (by omega), fitting, if_neg hfit]
        exact ⟨mem, rfl, fun _ _ => rfl, rfl⟩
    · rw [readDir_end h (by omega), List.drop_eq_nil_of_le (by omega)]
      exact ⟨mem, rfl, fun _ _ => rfl, rfl⟩

/-- The entries from an offset on. -/
def entriesFrom (entries : List Dirent) (offset : Int) : List Dirent :=
  if 0 ≤ offset then entries.drop offset.toNat else []

/-- What one call of `fs_readdir` does: it returns `k`, it writes inside the buffer only, and the
walk through the buffer finds the `k` entries from the offset on. It stops before an entry only
if the rest of the buffer is too short for it. -/
def DeliversFrom (vars : FsVars) (i : InodePtr) (entries : List Dirent) (mem : Bytes)
    (buffer len : Nat) (offset : Int) : Prop :=
  ∃ (k : Nat) (mem' : Bytes), fsReaddir vars i mem buffer len offset = .ok ((k : Int), mem') ∧
    k ≤ (entriesFrom entries offset).length ∧
    (∀ x, x < buffer ∨ buffer + len ≤ x → mem' x = mem x) ∧
    decodeDirents mem' k buffer = (entriesFrom entries offset).take k ∧
    ∀ e, (entriesFrom entries offset)[k]? = some e →
      len ≤ (((entriesFrom entries offset).take k).map stride).sum + stride e

/-- The entry behind those that fit does not fit. -/
theorem fitting_stops (len : Nat) (es : List Dirent) {e : Dirent}
    (h : es[fitting len es]? = some e) :
    len ≤ ((es.take (fitting len es)).map stride).sum + stride e := by
  induction es generalizing len with
  | nil => simp at h
  | cons e' es ih =>
    rw [fitting] at h ⊢
    by_cases hfit : stride e' < len
    · rw [if_pos hfit] at h ⊢
      rw [List.getElem?_cons_succ] at h
      have hrest := ih (len - stride e') h
      rw [List.take_succ_cons, List.map_cons, List.sum_cons]
      omega
    · rw [if_neg hfit] at h ⊢
      cases h
      simp
      omega

/-- One call of `fs_readdir`. -/
theorem fsReaddir_spec {vars : FsVars} {i : InodePtr} (htype : (vars.inodes i).type = .DIRECTORY)
    (h : IsDirectory vars.fs (vars.inodes i).dnode children)
    (htyped : ∀ d ∈ children, IsEntity (vars.fs.disk d)) (mem : Bytes) (buffer len : Nat)
    {offset : Int} (hlow : -2 ^ 31 ≤ offset) (hhigh : offset < 2 ^ 31) :
    ∃ mem', fsReaddir vars i mem buffer len offset =
        .ok (((fitting len (entriesFrom (shownIn vars.fs children) offset) : Nat) : Int),
          mem') ∧
      (∀ x, x < buffer ∨ buffer + len ≤ x → mem' x = mem x) ∧
      decodeDirents mem' (fitting len (entriesFrom (shownIn vars.fs children) offset)) buffer =
        (entriesFrom (shownIn vars.fs children) offset).take
          (fitting len (entriesFrom (shownIn vars.fs children) offset)) := by
  have hlength : (shownIn vars.fs children).length = children.length := by simp [shownIn]
  have hle := h.lists.length_le
  have hdrop : entriesFrom (shownIn vars.fs children) offset =
      (shownIn vars.fs children).drop (offset % 2 ^ 64).toNat := by
    unfold entriesFrom
    by_cases h0 : 0 ≤ offset
    · rw [if_pos h0, Int.emod_eq_of_lt h0 (by omega)]
    · -- A negative offset is behind the end of every directory.
      simp only [DZFS_MAX_DIR_CONTENTS] at hle
      rw [if_neg h0, List.drop_eq_nil_of_le (by omega)]
  obtain ⟨mem', hloop, hframe, hdecode⟩ := readdirLoop_spec h htyped (DZFS_MAX_DIR_CONTENTS + 1)
    mem buffer len (offset % 2 ^ 64).toNat 0 (by omega)
  rw [hdrop]
  refine ⟨mem', ?_, hframe, hdecode⟩
  rw [fsReaddir, if_neg (by rw [htype]; simp), hloop, Nat.zero_add]

section

variable {vars : FsVars} {i : InodePtr} (htype : (vars.inodes i).type = .DIRECTORY)
  (h : IsDirectory vars.fs (vars.inodes i).dnode children)

include htype h

/-- `fs_readdir` fails at an entry that is neither a file nor a folder. -/
theorem fsReaddir_not_entity (ho : o < children.length)
    (hbad : ¬ IsEntity (vars.fs.disk children[o])) (mem : Bytes) (buffer len : Nat) :
    fsReaddir vars i mem buffer len o = .ok (-2, mem) := by
  have hle := h.lists.length_le
  simp only [DZFS_MAX_DIR_CONTENTS] at hle
  have hoffset : ((o : Int) % 2 ^ 64).toNat = o := by omega
  have hstat : (dzfsStat vars.fs children[o]).1 = .ERR_ARGUMENT := by
    unfold IsEntity at hbad
    rw [not_or] at hbad
    unfold dzfsStat
    dsimp only [Dzfs.readBlock]
    rw [if_neg hbad.1, if_neg hbad.2]
  rw [fsReaddir, if_neg (by rw [htype]; simp), readdirLoop, hoffset, readDir_entry h ho, hstat]

/-- When all entries are shown as they are, one call delivers entries of the directory. -/
theorem deliversFrom (hshown : ∀ d ∈ children, Shown vars.fs d) (mem : Bytes) (buffer len : Nat)
    {offset : Int} (hlow : -2 ^ 31 ≤ offset) (hhigh : offset < 2 ^ 31) :
    DeliversFrom vars i (entriesOf vars.fs children) mem buffer len offset := by
  obtain ⟨mem', hcall, hframe, hdecode⟩ := fsReaddir_spec htype h
    (fun d hd => (hshown d hd).isEntity) mem buffer len hlow hhigh
  rw [shownIn_eq hshown] at hcall hdecode
  exact ⟨_, mem', hcall, fitting_le len _, hframe, hdecode, fun e he => fitting_stops len _ he⟩

end

/-- All entries fit in a buffer that is longer than their records. -/
theorem fitting_of_sum_lt (h : (es.map stride).sum < len) : fitting len es = es.length := by
  induction es generalizing len with
  | nil => rfl
  | cons e es ih =>
    rw [List.map_cons, List.sum_cons] at h
    rw [fitting, if_pos (by omega), ih (by omega), List.length_cons]

/-- When each call delivers entries of the directory, they are all shown as they are: one call with
a large buffer delivers every entry. -/
theorem shown_of_deliversFrom {vars : FsVars} {i : InodePtr}
    (htype : (vars.inodes i).type = .DIRECTORY)
    (h : IsDirectory vars.fs (vars.inodes i).dnode children)
    (hall : ∀ (mem : Bytes) (buffer len : Nat) (offset : Int), -2 ^ 31 ≤ offset →
      offset < 2 ^ 31 → DeliversFrom vars i (entriesOf vars.fs children) mem buffer len offset) :
    ∀ d ∈ children, Shown vars.fs d := by
  have hle := h.lists.length_le
  simp only [DZFS_MAX_DIR_CONTENTS] at hle
  have htyped : ∀ d ∈ children, IsEntity (vars.fs.disk d) := by
    intro d hd
    obtain ⟨o, ho, rfl⟩ := List.getElem_of_mem hd
    by_contra hbad
    obtain ⟨k, mem', hcall, -⟩ := hall Bytes.zero 0 0 o (by omega) (by omega)
    rw [fsReaddir_not_entity htype h ho hbad] at hcall
    have hcount := congrArg Prod.fst (Except.ok.inj hcall)
    change (-2 : Int) = k at hcount
    omega
  obtain ⟨mem', hcall, -, hdecode⟩ := fsReaddir_spec htype h htyped Bytes.zero 0
    (((shownIn vars.fs children).map stride).sum + 1) (show -2 ^ 31 ≤ (0 : Int) by decide)
    (by decide)
  obtain ⟨k, mem₂, hcall₂, -, -, hdecode₂, -⟩ := hall Bytes.zero 0
    (((shownIn vars.fs children).map stride).sum + 1) 0 (by decide) (by decide)
  have hfrom : ∀ es : List Dirent, entriesFrom es 0 = es := fun es => rfl
  have hlength : (entriesOf vars.fs children).length = (shownIn vars.fs children).length := by
    simp [entriesOf, shownIn]
  rw [hfrom, fitting_of_sum_lt (Nat.lt_succ_self _)] at hcall hdecode
  rw [hcall] at hcall₂
  obtain ⟨hk, rfl⟩ := Prod.mk.inj (Except.ok.inj hcall₂)
  obtain rfl : (shownIn vars.fs children).length = k := by omega
  rw [hdecode, hfrom, List.take_length, ← hlength, List.take_length] at hdecode₂
  intro d hd
  rw [← shownOf_eq_iff (htyped d hd)]
  exact List.map_inj_left.mp hdecode₂ d hd

end

/-! ### Repeated calls -/

/-- The descriptor `fd` is the directory `f` with the entities `children`, of which `o` have been
read. The blocks of the directory and its entities are those of the disk `fs`. -/
def OpenDirectory (fs : Dzfs) (f : Nat) (children : List Nat) (s : DescState)
    (fd : Fin MAX_OPEN_FILES) (o : Nat) : Prop :=
  ∃ i, (s.proc.openFiles fd).kind = .FD_INODE i ∧
    (s.proc.openFiles fd).offset = UInt32.ofNat o ∧ (s.vars.inodes i).type = .DIRECTORY ∧
    (s.vars.inodes i).dnode = f ∧ s.vars.fs.disk f = fs.disk f ∧
    ∀ d ∈ children, s.vars.fs.disk d = fs.disk d

/-- A call of `sys_readdir` with a buffer, and what happens between it and the next one. -/
structure ReaddirCall where
  env : CallEnv
  buffer : Nat
  len : Nat
  meanwhile : DescState → DescState

/-- The buffer is valid and longer than each entry with its name, and the directory stays as it
is until the next call. -/
structure ReaddirCall.Ok (c : ReaddirCall) (fs : Dzfs) (f : Nat) (children : List Nat)
    (fd : Fin MAX_OPEN_FILES) : Prop where
  valid : c.env.validateUserPtr c.buffer c.len true = true
  large : ∀ e ∈ entriesOf fs children, stride e < c.len
  keeps : ∀ s o, OpenDirectory fs f children s fd o →
    OpenDirectory fs f children (c.meanwhile s) fd o

/-- The calls, one after the other: what each returns, and the entries that the process finds in
its buffer then. The result is `none` when a call does not return. -/
def readAll (fd : Fin MAX_OPEN_FILES) :
    DescState → List ReaddirCall → Option (List (Int × List Dirent))
  | _, [] => some []
  | s, c :: calls =>
    match (sysReaddir s c.env fd.val c.buffer c.len).outcome with
    | .error _ => none
    | .ok (result, t) =>
      (readAll fd (c.meanwhile t) calls).map fun results =>
        (result, decodeDirents t.mem result.toNat c.buffer) :: results

/-- The results deliver each entry once and in order, and each result behind the last entry is
0. -/
def DeliversOnce (entries : List Dirent) (results : List (Int × List Dirent)) : Prop :=
  ∃ (chunks : List (List Dirent)) (m : Nat),
    results = chunks.map (fun chunk => ((chunk.length : Int), chunk)) ++ List.replicate m (0, []) ∧
    [] ∉ chunks ∧ chunks.flatten <+: entries ∧ (0 < m → chunks.flatten = entries) ∧
    (entries.length < results.length → 0 < m)

/-- A small number as an `int`. -/
theorem toInt_ofNat {n : Nat} (h : n < 2 ^ 31) : toInt (UInt32.ofNat n) = n := by
  have hnat : (UInt32.ofNat n).toNat = n := by
    rw [UInt32.toNat_ofNat']
    omega
  have hmod : Int.bmod n (2 ^ 32) = n := by
    rw [Int.bmod_def]
    split
    · omega
    · omega
  unfold toInt
  rw [hnat]
  exact hmod

section

variable {fs : Dzfs} {f : Nat} {children : List Nat}

/-- The directory of a descriptor is shown as that of the disk. -/
theorem same_directory {fs' : Dzfs} (hfolder : fs'.disk f = fs.disk f)
    (hsame : ∀ d ∈ children, fs'.disk d = fs.disk d) (hdir : IsDirectory fs f children) :
    IsDirectory fs' f children ∧ shownIn fs' children = shownIn fs children := by
  refine ⟨⟨?_, ?_⟩, List.map_congr_left fun d hd => ?_⟩
  · rw [hfolder]
    exact hdir.folder
  · rw [hfolder]
    exact hdir.lists
  · unfold shownOf dzfsStat
    simp only [Dzfs.readBlock, hsame d hd]

/-- One call of `sys_readdir`. -/
theorem sysReaddir_spec {s : DescState} (hdir : IsDirectory fs f children)
    (hshown : ∀ d ∈ children, Shown fs d) (h : OpenDirectory fs f children s fd o)
    (ho : o ≤ children.length) {env : CallEnv}
    (hvalid : env.validateUserPtr buffer len true = true) :
    ∃ t, (sysReaddir s env fd.val buffer len).outcome =
        .ok (((fitting len ((entriesOf fs children).drop o) : Nat) : Int), t) ∧
      OpenDirectory fs f children t fd (o + fitting len ((entriesOf fs children).drop o)) ∧
      decodeDirents t.mem (fitting len ((entriesOf fs children).drop o)) buffer =
        ((entriesOf fs children).drop o).take (fitting len ((entriesOf fs children).drop o)) := by
  obtain ⟨i, hkind, hoffset, htype, rfl, hfolder, hsame⟩ := h
  obtain ⟨hdir', hshown'⟩ := same_directory hfolder hsame hdir
  have hle := hdir.lists.length_le
  simp only [DZFS_MAX_DIR_CONTENTS] at hle
  have hnum : toInt (s.proc.openFiles fd).offset = (o : Int) := by
    rw [hoffset]
    exact toInt_ofNat (by omega)
  have htyped : ∀ d ∈ children, IsEntity (s.vars.fs.disk d) := by
    intro d hd
    rw [hsame d hd]
    exact (hshown d hd).isEntity
  obtain ⟨mem', hcall, -, hdecode⟩ := fsReaddir_spec htype hdir' htyped s.mem buffer len
    (show -2 ^ 31 ≤ (o : Int) by omega) (by omega)
  have hfrom : entriesFrom (shownIn s.vars.fs children) (o : Int)
      = (entriesOf fs children).drop o := by
    rw [entriesFrom, if_pos (by omega), Int.toNat_natCast, hshown', shownIn_eq hshown]
  rw [hfrom] at hcall hdecode
  generalize hk : fitting len ((entriesOf fs children).drop o) = k at hcall hdecode
  rw [← hnum] at hcall
  have hfd : openFd (fd.val : Int) = some fd := by
    have hlt := fd.isLt
    rw [openFd, dif_pos ⟨by omega, by omega⟩]
    simp
  unfold sysReaddir
  rw [Descriptors.withFile_fin hfd (by simp), if_neg (by rw [hkind]; simp)]
  simp only [hkind, hfd, hvalid, hcall, Bool.not_true, Bool.false_eq_true, if_false]
  by_cases hz : k = 0
  · -- The offset of the descriptor stays.
    subst hz
    exact ⟨_, if_pos (by simp), ⟨i, hkind, hoffset, htype, rfl, hfolder, hsame⟩, hdecode⟩
  · refine ⟨_, if_neg (by omega), ⟨i, ?_, ?_, htype, rfl, hfolder, hsame⟩, hdecode⟩
    · show (Function.update s.proc.openFiles fd _ fd).kind = _
      rw [Function.update_self]
    · show (Function.update s.proc.openFiles fd _ fd).offset = _
      rw [Function.update_self, hoffset, Int.toNat_natCast, UInt32.ofNat_add]

end

/-- A call that delivers some entries, before a run that delivers the others. -/
theorem DeliversOnce.chunk {entries chunk : List Dirent} (h : DeliversOnce entries results)
    (hne : chunk ≠ []) :
    DeliversOnce (chunk ++ entries) (((chunk.length : Int), chunk) :: results) := by
  obtain ⟨chunks, m, hresults, hnil, hfront, hall, hlong⟩ := h
  refine ⟨chunk :: chunks, m, ?_, ?_, ?_, ?_, ?_⟩
  · rw [hresults]
    rfl
  · simp only [List.mem_cons, not_or]
    exact ⟨hne.symm, hnil⟩
  · rw [List.flatten_cons]
    exact (List.prefix_append_right_inj _).mpr hfront
  · intro hm
    rw [List.flatten_cons, hall hm]
  · intro hlen
    have hpos := List.length_pos_iff.mpr hne
    simp only [List.length_append, List.length_cons] at hlen
    exact hlong (by omega)

/-- A call behind the last entry. -/
theorem DeliversOnce.done (h : DeliversOnce [] results) : DeliversOnce [] ((0, []) :: results) := by
  obtain ⟨chunks, m, hresults, hnil, hfront, -, -⟩ := h
  -- A chunk has an entry, and there is none left.
  have hchunks : chunks = [] := by
    cases chunks with
    | nil => rfl
    | cons chunk chunks =>
      rw [List.prefix_nil, List.flatten_cons, List.append_eq_nil_iff] at hfront
      exact absurd (by simp [hfront.1]) hnil
  subst hchunks
  refine ⟨[], m + 1, ?_, hnil, List.nil_prefix, fun _ => rfl, fun _ => Nat.succ_pos m⟩
  rw [hresults, List.replicate_succ]
  rfl

/-- The calls deliver the entries that are left. -/
theorem readAll_spec {children : List Nat} (hdir : IsDirectory fs f children)
    (hshown : ∀ d ∈ children, Shown fs d) (calls : List ReaddirCall)
    (hcalls : ∀ c ∈ calls, c.Ok fs f children fd) (s : DescState) (o : Nat)
    (ho : o ≤ children.length) (h : OpenDirectory fs f children s fd o) :
    ∃ results, readAll fd s calls = some results ∧ results.length = calls.length ∧
      DeliversOnce ((entriesOf fs children).drop o) results := by
  induction calls generalizing s o with
  | nil =>
    refine ⟨[], rfl, rfl, [], 0, rfl, by simp, List.nil_prefix, fun hm => absurd hm (by simp),
      fun hlen => absurd hlen (by simp)⟩
  | cons c calls ih =>
    have hc := hcalls c List.mem_cons_self
    obtain ⟨t, hcall, hopen, hdecode⟩ := sysReaddir_spec hdir hshown h ho hc.valid
    have hlength : (entriesOf fs children).length = children.length := by simp [entriesOf]
    have hle := fitting_le c.len ((entriesOf fs children).drop o)
    rw [List.length_drop] at hle
    generalize hk : fitting c.len ((entriesOf fs children).drop o) = k at hcall hopen hdecode hle
    obtain ⟨results, hrun, hcount, honce⟩ :=
      ih (fun c' hc' => hcalls c' (List.mem_cons_of_mem _ hc'))
      (c.meanwhile t) (o + k) (by omega) (hc.keeps t _ hopen)
    refine ⟨((k : Int), ((entriesOf fs children).drop o).take k) :: results, ?_, ?_, ?_⟩
    · rw [readAll, hcall]
      simp only [Int.toNat_natCast]
      rw [hrun, hdecode]
      rfl
    · rw [List.length_cons, List.length_cons, hcount]
    · by_cases hnil : (entriesOf fs children).drop o = []
      · -- Every entry has been delivered, so this call returns 0.
        have hz : k = 0 := by
          rw [hnil] at hk
          exact hk.symm
        subst hz
        rw [Nat.add_zero, hnil] at honce
        rw [hnil]
        exact honce.done
      · -- The buffer is longer than the next entry, so the call delivers some.
        have hpos : 0 < k := by
          rw [← hk]
          exact fitting_pos hnil fun e he => hc.large e (List.mem_of_mem_drop he)
        have hlen : (((entriesOf fs children).drop o).take k).length = k := by
          rw [List.length_take, List.length_drop]
          omega
        have hne : ((entriesOf fs children).drop o).take k ≠ [] := by
          intro hempty
          rw [hempty] at hlen
          simp at hlen
          omega
        have hchunk := honce.chunk hne
        rw [hlen, ← List.drop_drop, List.take_append_drop] at hchunk
        exact hchunk

/-! ### The result -/

/-- A directory can be read back from the buffers of a process exactly if its entries are shown with
their names: from one call of `fs_readdir` with any buffer and offset, and from calls of
`sys_readdir` with large buffers. -/
theorem directory_readBack_iff {vars : FsVars} {i : InodePtr} {children : List Nat}
    (htype : (vars.inodes i).type = .DIRECTORY)
    (hdir : IsDirectory vars.fs (vars.inodes i).dnode children) :
    ((∀ (mem : Bytes) (buffer len : Nat) (offset : Int), -2 ^ 31 ≤ offset → offset < 2 ^ 31 →
        DeliversFrom vars i (entriesOf vars.fs children) mem buffer len offset) ∧
      ∀ (s : DescState) (fd : Fin MAX_OPEN_FILES) (calls : List ReaddirCall),
        OpenDirectory vars.fs (vars.inodes i).dnode children s fd 0 →
        (∀ c ∈ calls, c.Ok vars.fs (vars.inodes i).dnode children fd) →
        ∃ results, readAll fd s calls = some results ∧ results.length = calls.length ∧
          DeliversOnce (entriesOf vars.fs children) results) ↔
      ∀ d ∈ children, Shown vars.fs d := by
  constructor
  · rintro ⟨hall, -⟩
    exact shown_of_deliversFrom htype hdir hall
  · intro hshown
    constructor
    · intro mem buffer len offset hlow hhigh
      exact deliversFrom htype hdir hshown mem buffer len hlow hhigh
    · intro s fd calls hopen hcalls
      exact readAll_spec hdir hshown calls hcalls s 0 (Nat.zero_le _) hopen

/-- A disk with the folder 4, in which the file 5 has the name `a`. -/
def oneFileDisk : Dzfs where
  disk n := if n = 4 then (Bytes.zero.set 0 DZFS_ENTITY_FOLDER).setLE 4 (contentOffset 0) 5
    else (Bytes.zero.set 0 DZFS_ENTITY_FILE).set 1 97
  freeBitmapBlocks := 1
  rootDnode := 4

/-- The folder is open. -/
def oneFileVars : FsVars where
  fs := oneFileDisk
  inodes _ := ⟨.DIRECTORY, 4, 4, 1, 1⟩

theorem oneFile_isDirectory : IsDirectory oneFileDisk 4 [5] where
  folder := by decide
  lists := by
    constructor
    · decide
    · intro i hi
      show contentDnode ((Bytes.zero.set 0 DZFS_ENTITY_FOLDER).setLE 4 (contentOffset 0) 5) i = _
      rw [contentDnode_setLE _ _ _ _ (by decide)]
      by_cases hz : i = 0
      · subst hz
        rfl
      · rw [if_neg hz]
        have hzero : contentDnode (Bytes.zero.set 0 DZFS_ENTITY_FOLDER) i = 0 := by
          apply Bytes.getLE_eq_zero
          intro j hj _
          simp only [contentOffset] at hj
          exact if_neg (by omega)
        rw [hzero]
        simp [hz]
    · decide
/-- A process that has opened the folder as its descriptor 3. -/
def oneFileProcess : DescState where
  vars := oneFileVars
  proc := ⟨fun _ => ⟨.FD_INODE ⟨0, maxInodes_pos⟩, 0, true, false⟩, ⟨0, maxInodes_pos⟩⟩
  initialDataSegment := 0
  mem := Bytes.zero
  aligned := zero_aligned

/-- A call with a buffer of 64 bytes. -/
def call64 : ReaddirCall := ⟨⟨fun _ _ _ => true, fun _ => 0, fun _ mem => mem⟩, 4096, 64, id⟩

theorem directory_readBack_iff_oneFile :
    DeliversFrom oneFileVars ⟨0, by decide⟩ [⟨[97], DT_FILE, 0, 0⟩] Bytes.zero 4096 64 0 ∧
      ∃ results, readAll ⟨3, by decide⟩ oneFileProcess [call64, call64] = some results ∧
        results.length = 2 ∧ DeliversOnce [⟨[97], DT_FILE, 0, 0⟩] results := by
  have hentries : entriesOf oneFileDisk [5] = [⟨[97], DT_FILE, 0, 0⟩] := by decide
  have hread := (@directory_readBack_iff oneFileVars ⟨0, by decide⟩ [5] rfl
    oneFile_isDirectory).mpr (by decide)
  rw [← hentries]
  constructor
  · exact hread.1 Bytes.zero 4096 64 0 (by decide) (by decide)
  · refine hread.2 oneFileProcess ⟨3, by decide⟩ [call64, call64]
      ⟨⟨0, by decide⟩, rfl, rfl, rfl, rfl, rfl, fun _ _ => rfl⟩ ?_
    intro c hc
    have hcall : c = call64 := by simpa using hc
    rw [hcall]
    constructor
    · rfl
    · show ∀ e ∈ entriesOf oneFileDisk [5], stride e < 64
      rw [hentries]
      decide
    · intro s o h
      exact h

/-- The disk behind the creation of a file whose name has 300 letters, in the root folder 3 of a
formatted disk. -/
def longNameDisk : Dzfs :=
  (dzfsOpenRelative formattedDisk 1 0 (List.replicate 300 97) 3).2

/-- The root folder of a formatted disk is open. -/
def rootVars (fs : Dzfs) : FsVars where
  fs := fs
  inodes _ := ⟨.DIRECTORY, 3, 0, 1, 1⟩

theorem longName_isDirectory : IsDirectory longNameDisk 3 [4] where
  folder := by decide +kernel
  lists := {
    length_le := by decide
    word := by decide +kernel
    ne_zero := by decide }

/-- A call that delivers the one entry of a folder, with a name of 267 characters at most, shows the
entry as it is. -/
theorem DeliversFrom.shown (hdir : IsDirectory fs 3 [4]) (h : IsEntity (fs.disk 4))
    (hname : (shownOf fs 4).name.length ≤ 267)
    (hdelivers : DeliversFrom (rootVars fs) ⟨0, by decide⟩ (entriesOf fs [4]) Bytes.zero 4096 1024
      0) : shownOf fs 4 = entryOf (fs.disk 4) := by
  obtain ⟨k, mem', hcall, -, -, hdecode, -⟩ := hdelivers
  have hlist : shownIn fs [4] = [shownOf fs 4] := rfl
  have hfit : fitting 1024 [shownOf fs 4] = 1 := by
    unfold fitting stride
    rw [if_pos (by simp only [sizeofDirent]; omega)]
    rfl
  have hfrom : ∀ es : List Dirent, entriesFrom es 0 = es := fun es => rfl
  have htyped : ∀ d ∈ [4], IsEntity (fs.disk d) := by
    intro d hd
    rw [List.mem_singleton.mp hd]
    exact h
  obtain ⟨mem₂, hcall₂, -, hdecode₂⟩ := @fsReaddir_spec [4] (rootVars fs) ⟨0, by decide⟩ rfl hdir
    htyped Bytes.zero 4096 1024 0 (by decide) (by decide)
  have hfs : (rootVars fs).fs = fs := rfl
  rw [hfs, hfrom, hlist, hfit] at hcall₂ hdecode₂
  rw [hcall₂] at hcall
  obtain ⟨hk, rfl⟩ := Prod.mk.inj (Except.ok.inj hcall)
  obtain rfl : 1 = k := by omega
  rw [hdecode₂] at hdecode
  exact (List.cons.inj hdecode).1

/-- The file is created, but `fs_readdir` cuts its name at the 267th letter. -/
theorem longName_not_readBack :
    (dzfsOpenRelative formattedDisk 1 0 (List.replicate 300 97) 3).1 = ⟨.OK, some 4, some 3⟩ ∧
      IsDirectory longNameDisk 3 [4] ∧ (headerName (longNameDisk.disk 4)).length = 300 ∧
      (shownOf longNameDisk 4).name.length = 267 ∧
      ¬ DeliversFrom (rootVars longNameDisk) ⟨0, by decide⟩ (entriesOf longNameDisk [4]) Bytes.zero
        4096 1024 0 := by
  have hdir := longName_isDirectory
  have hentity : IsEntity (longNameDisk.disk 4) := Or.inl (by decide +kernel)
  have hshown : (shownOf longNameDisk 4).name.length = 267 := by decide +kernel
  have hname : (headerName (longNameDisk.disk 4)).length = 300 := by decide +kernel
  refine ⟨by decide +kernel, hdir, hname, hshown, fun hdelivers => ?_⟩
  have hsame := hdelivers.shown hdir hentity (Nat.le_of_eq hshown)
  have hentry : ∀ b, headerName b = (entryOf b).name := fun _ => rfl
  rw [hentry, ← hsame, hshown] at hname
  exact absurd hname (by decide)

/-- In the invariant of the names, each folder is a directory, and its entries are shown. -/
theorem Named.isDirectory {E : Finset Nat} {ls : Nat → List Nat} {nm : Nat → List UInt8}
    (h : Named fs E ls nm) (hf : f ∈ E) (hfolder : entityType (fs.disk f) = DZFS_ENTITY_FOLDER) :
    IsDirectory fs f (ls f) ∧ ∀ d ∈ ls f, Shown fs d := by
  refine ⟨⟨hfolder, h.lists f hf hfolder⟩, fun d hd => ?_⟩
  have hgood := h.good f d hd
  have hname := headerName_of_matches hgood.no_nul hgood.length_le (h.named f d hd)
  have hle := hgood.length_le
  simp only [DZFS_MAX_FILENAME] at hle
  unfold Shown
  rw [hname]
  rcases h.typed d (h.entity_of_listed hd).1 with hfile | hsub
  · exact Or.inl ⟨hfile, by omega⟩
  · exact Or.inr ⟨hsub, Or.inl (by omega)⟩

end DzOS.Proofs.Fs
