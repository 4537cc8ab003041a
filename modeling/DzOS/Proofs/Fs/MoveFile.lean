import DzOS.Proofs.Fs.FailedWrite
import DzOS.Proofs.Fs.Ownership
import DzOS.Proofs.Fs.PlainPath

/-!
# `DzOS.Proofs.Fs.MoveFile`: the move of a file is all-or-nothing

`dzfsMove` looks up the new name, deletes the entity that has it, appends the file to the new
folder, removes it from the old one and writes its dnode. Only the first steps can fail, and they
write nothing. `MoveLaw` states what this means for a file: an error leaves the file system as it
is, and after an `OK` the file has one entry, under its name in the new folder, with its bytes and
its size (`FileMoved`). The entity that had the name there is gone, and all others are where they
were.

`move_all_or_nothing` proves the law in every state of a run of valid and safe calls whose paths are
strings. The names of a folder are different in such a run, so that there is one entity to replace
at most. `selfMove_two_folders` is a run in which a folder moves out of itself with a new name.
After it, two folders list a file, and a move takes it out of one of them only.
-/

set_option autoImplicit false

namespace DzOS.Proofs.Fs

open DzOS.Lib DzOS.Fs

variable {date : UInt64} {fs : Dzfs}

/-- What is left of a move of the file `d` to the folder `new` with the name `name` that succeeds.
The bytes are those of the reads that stay within the limit of the pointers. -/
structure FileMoved (s s' : FsState) (d new : Nat) (name : List UInt8) : Prop where
  file : IsFile s' d
  once : ∃ k < DZFS_MAX_DIR_CONTENTS, ∀ f, IsFolder s' f → ∀ i < DZFS_MAX_DIR_CONTENTS,
    contentDnode (s'.fs.disk f) i = d ↔ f = new ∧ i = k
  child_iff : ∀ f nm m, Child s' f nm m ↔
    (f = new ∧ nm = name ∧ m = d) ∨ (Child s f nm m ∧ m ≠ d ∧ ¬ (f = new ∧ nm = name))
  replaced : ∀ e, Child s new name e → e ≠ d → ∀ f, IsFolder s' f → ¬ ListedIn s' e f
  names : ∀ e ∈ s'.entities, e ≠ d → (dzfsStat s'.fs e).2.name = (dzfsStat s.fs e).2.name
  size : (dzfsStat s'.fs d).2.size = (dzfsStat s.fs d).2.size
  read : ∀ size offset, min (fileSize (s.fs.disk d)) (offset + size) ≤ DZFS_MAX_FILESIZE →
    dzfsRead s'.fs d size offset = dzfsRead s.fs d size offset

/-- A move of the file `d` succeeds as a whole, or it changes nothing. -/
structure MoveLaw (s : FsState) (d old new : Nat) (newName : Option (List UInt8)) : Prop where
  moved : (dzfsMove s.fs d old new newName).1 = .OK →
    FileMoved s (exec s (.move d old new newName)) d new
      (newName.getD (headerName (s.fs.disk d)))
  failed : (dzfsMove s.fs d old new newName).1 ≠ .OK → (dzfsMove s.fs d old new newName).2 = s.fs

/-! ### Different names in every run -/

/-- The path of an open is a C string. -/
def StringPath : Call → Prop
  | .openRelative path _ _ _ => 0 ∉ path
  | .openAbsolute path _ _ => 0 ∉ path
  | .write _ _ _ => True
  | .delete _ _ => True
  | .move _ _ _ _ => True

instance (c : Call) : Decidable (StringPath c) :=
  match c with
  | .openRelative path _ _ _ => inferInstanceAs (Decidable (0 ∉ path))
  | .openAbsolute path _ _ => inferInstanceAs (Decidable (0 ∉ path))
  | .write _ _ _ => isTrue trivial
  | .delete _ _ => isTrue trivial
  | .move _ _ _ _ => isTrue trivial

/-- A valid and safe call, with a path that is a string. -/
def Sound (s : FsState) (c : Call) : Prop := Valid s c ∧ Safe s c ∧ StringPath c

instance (s : FsState) (c : Call) : Decidable (Sound s c) :=
  inferInstanceAs (Decidable (_ ∧ _ ∧ _))

section
variable {s : FsState} {ls : Nat → List Nat}

/-- An open keeps the names different: it creates an entity only for a name that is missing. -/
theorem UniqueNames.openRelative (h : UniqueNames s.fs ls) (hinv : Inv s.fs s.entities ls)
    {path : List UInt8} {relativeTo : Nat} {flags : UInt32}
    (hc : Sound s (.openRelative path relativeTo flags date)) :
    ∃ ls', Inv (exec s (.openRelative path relativeTo flags date)).fs
        (exec s (.openRelative path relativeTo flags date)).entities ls' ∧
      UniqueNames (exec s (.openRelative path relativeTo flags date)).fs ls' := by
  obtain ⟨⟨hrel, hfits⟩, hdots, hnul⟩ := hc
  rcases ho : dzfsOpenRelative s.fs flags date path relativeTo with ⟨out, fs'⟩
  rw [exec_openRelative ho]
  rcases dzfsOpenRelative_creation hinv hrel hfits.newNameFits hdots ho with
    ⟨rfl, hok⟩ | ⟨cur, n, name, hend, -, hcur, rfl, hnew⟩
  · rw [entitiesAfterOpen_same hok]
    exact ⟨ls, hinv, h⟩
  · obtain ⟨hlast, hmissing⟩ := pathEnd_missing hend
    have hpart := List.mem_of_getLast? hlast
    refine ⟨_, hnew.inv, h.create hinv hcur.1 hcur.2 hnew (fun hz => hnul (mem_parts hpart hz).1)
      (hfits.parts hpart) hmissing⟩

/-- A call that is valid and safe keeps the names different. -/
theorem Sound.uniqueNames {c : Call} (hc : Sound s c) (hinv : Inv s.fs s.entities ls)
    (h : UniqueNames s.fs ls) :
    ∃ ls', Inv (exec s c).fs (exec s c).entities ls' ∧ UniqueNames (exec s c).fs ls' := by
  cases c with
  | openRelative path relativeTo flags date => exact h.openRelative hinv hc
  | openAbsolute path flags date =>
    rcases exec_openAbsolute hinv.root_mem path flags date with hsame | ⟨rest, rfl, heq⟩
    · rw [hsame]
      exact ⟨ls, hinv, h⟩
    · obtain ⟨hfits, hdots, hnul⟩ := hc
      rw [heq]
      exact h.openRelative hinv ⟨⟨⟨hinv.root_mem, hinv.root_folder⟩, hfits.drop 1⟩, hdots,
        fun hz => hnul (List.mem_cons_of_mem _ hz)⟩
  | write dnode data offset =>
    refine ⟨ls, dzfsWrite_inv hinv hc.2.1 hc.1, h.mono (fun _ _ hm => hm) fun g m hm i hi => ?_⟩
    exact dzfsWrite_header hinv.toCore hc.2.1 hc.1 (hinv.entity_of_listed hm).1 hi
  | delete dnode parentDnode =>
    obtain ⟨⟨hparent, hlisted⟩, -, -⟩ := hc
    rcases hd : dzfsDelete s.fs dnode parentDnode with ⟨r, fs'⟩
    simp only [exec, hd]
    exact h.delete hinv (hlisted.inFolder hinv hparent) hd
  | move dnode oldParent newParent newName =>
    obtain ⟨⟨hold, hnew, hlisted, hnul⟩, hsafe, -⟩ := hc
    exact h.move hinv (hlisted.inFolder hinv hold) hnew.1 hnew.2 newName hnul hsafe

/-- In a run of such calls the invariant holds, and the names of each folder are different. -/
theorem Reachable.uniqueNames {disk : Nat → Bytes} {blocks : Nat} (hle : blocks ≤ formatLimit)
    (hnew : dzfsNew disk blocks date = (.OK, fs)) (hs : Reachable Sound (newState fs) s) :
    ∃ ls, Inv s.fs s.entities ls ∧ UniqueNames s.fs ls := by
  induction hs with
  | start => exact ⟨_, (dzfsNew_formatted hle hnew).inv, (nameTree_newState hnew).toUniqueNames⟩
  | call c _ hc ih =>
    obtain ⟨ls, hinv, h⟩ := ih
    exact hc.uniqueNames hinv h

end

/-! ### The move of a file -/

/-- What a move of the file `d` does when it succeeds: the entity `e` makes room for the name, or no
entity does and `e` is 0, and the file goes from the folder `old` to the folder `new`. -/
structure Relocated (fs fs' : Dzfs) (E : Finset Nat) (ls : Nat → List Nat) (d old new e : Nat)
    (name : List UInt8) : Prop where
  ne : e ≠ d
  gone : ∀ m, m ≠ 0 → m ≠ d → (e = m ↔ m ∈ ls new ∧ headerName (fs.disk m) = name)
  inv : ∃ ls', Inv fs' (E.erase e) ls' ∧
    ∀ g m, m ∈ ls' g ↔ (m ∈ ls g ∧ m ≠ d ∧ m ≠ e) ∨ (g = new ∧ m = d)
  header : ∀ m ∈ E, m ≠ d → ∀ i < SIZE_OFFSET, fs'.disk m i = fs.disk m i
  links : SameLinks (fs.disk d) (fs'.disk d)
  size : fileSize (fs'.disk d) = fileSize (fs.disk d)
  name_eq : headerName (fs'.disk d) = name
  disk : ∀ m, m < 2 ∨ fs.rootDnode ≤ m → m ≠ old → m ≠ new → m ≠ d → fs'.disk m = fs.disk m

section
variable {fs fs' : Dzfs} {E : Finset Nat} {ls : Nat → List Nat} {d old new : Nat}
  {newName : Option (List UInt8)}

/-- What a new name changes in the block of the file. -/
theorem renamed_spec {b : Bytes} (hnul : ∀ name ∈ newName, 0 ∉ name)
    (hfits : ∀ name ∈ newName, name.length ≤ DZFS_MAX_FILENAME) :
    SameLinks b (renamed b newName) ∧ fileSize (renamed b newName) = fileSize b ∧
      headerName (renamed b newName) = newName.getD (headerName b) := by
  cases newName with
  | none => exact ⟨SameLinks.refl b, rfl, rfl⟩
  | some name =>
    exact ⟨renamed_links (hfits name rfl), renamed_parent (hfits name rfl),
      headerName_renamed (hnul name rfl) (hfits name rfl)⟩

/-- The lookup of the name finds the entity that is in the way. -/
theorem UniqueNames.replaced_iff (h : UniqueNames fs ls) (hinv : Inv fs E ls)
    (hold : InFolder fs E ls d old) (hnew : new ∈ E)
    (hfolder : entityType (fs.disk new) = DZFS_ENTITY_FOLDER) (hnul : ∀ name ∈ newName, 0 ∉ name)
    (hfits : ∀ name ∈ newName, name.length ≤ DZFS_MAX_FILENAME) {m : Nat} (hm : m ≠ 0) :
    replaced fs d new newName = m ↔
      m ∈ ls new ∧ headerName (fs.disk m) = newName.getD (headerName (fs.disk d)) := by
  have hname := (renamed_spec (b := fs.disk d) hnul hfits).2.2
  have hlen : (newName.getD (headerName (fs.disk d))).length ≤ DZFS_MAX_FILENAME := by
    cases newName with
    | none => exact h.short old d hold.listed
    | some name => exact hfits name rfl
  rw [← hname] at hlen ⊢
  exact h.lookup_iff (hinv.lists new hnew hfolder) (headerName_no_nul _) hlen hm

theorem Inv.erase_zero (hinv : Inv fs E ls) : E.erase 0 = E :=
  Finset.erase_eq_of_notMem fun hz => hinv.ne_zero hz rfl

/-- A move of a file to its own place. -/
theorem relocated_same (h : UniqueNames fs ls) (hinv : Inv fs E ls)
    (hold : InFolder fs E ls d old) :
    Relocated fs fs E ls d old old 0 (headerName (fs.disk d)) := by
  have hd : d ∈ E := (hinv.entity_of_listed hold.listed).1
  refine ⟨(hinv.ne_zero hd).symm, fun m hm hmd => ⟨fun hz => absurd hz.symm hm, fun hm' => ?_⟩,
    ⟨ls, hinv.erase_zero.symm ▸ hinv, fun g m => ⟨fun hm => ?_, ?_⟩⟩, fun _ _ _ _ _ => rfl,
    SameLinks.refl _, rfl, rfl, fun _ _ _ _ _ => rfl⟩
  -- The names of the folder are different, so no other entity has this one.
  · exact absurd (h.distinct old m d hm'.1 hold.listed hm'.2) hmd
  · by_cases hmd : m = d
    · exact Or.inr ⟨hinv.listing.owns.inj _ _ _ hm (hmd ▸ hold.listed), hmd⟩
    · exact Or.inl ⟨hm, hmd, hinv.ne_zero (hinv.entity_of_listed hm).1⟩
  · rintro (⟨hm, -, -⟩ | ⟨rfl, rfl⟩)
    · exact hm
    · exact hold.listed

/-- A move of a file to a folder where the name is new. -/
theorem relocated_moved (hinv : Inv fs E ls) (hold : InFolder fs E ls d old) (hnew : new ∈ E)
    (hfolder : entityType (fs.disk new) = DZFS_ENTITY_FOLDER)
    (hfile : entityType (fs.disk d) = DZFS_ENTITY_FILE) (hnul : ∀ name ∈ newName, 0 ∉ name)
    (hfits : ∀ name ∈ newName, name.length ≤ DZFS_MAX_FILENAME)
    (hfree : ∀ m, m ≠ 0 → ¬ (m ∈ ls new ∧
      headerName (fs.disk m) = newName.getD (headerName (fs.disk d))))
    (hok : enterNewParent fs d old new newName (renamed (fs.disk d) newName) = (.OK, fs'))
    (hm : Moved fs fs' E ls d old new) :
    Relocated fs fs' E ls d old new 0 (newName.getD (headerName (fs.disk d))) := by
  have hd : d ∈ E := (hinv.entity_of_listed hold.listed).1
  obtain ⟨l, hperm, hinv'⟩ := hm.inv
  have hent := enterNewParent_entered hinv hold hnew hfolder hok
  have hself := hent.block_eq (file_dnode_ne hfile hold.folder) (file_dnode_ne hfile hfolder)
  obtain ⟨hlinks, hsize, hname⟩ := renamed_spec (b := fs.disk d) hnul hfits
  rw [← hself] at hlinks hsize hname
  refine ⟨(hinv.ne_zero hd).symm, fun m hm _ => ⟨fun hz => absurd hz.symm hm, fun hm' => ?_⟩,
    ⟨_, hinv.erase_zero.symm ▸ hinv', fun g m => ?_⟩, fun m _ hmd i hi => ?_, hlinks, hsize, hname,
    fun m _ hmo hmn hmd => hent.disk m hmo hmn fun _ => hmd⟩
  · exact absurd hm' (hfree m hm)
  · rw [hinv.listing.mem_transfer hold.listed hperm]
    refine or_congr_left ⟨fun hm => ⟨hm.1, hm.2, ?_⟩, fun hm => ⟨hm.1, hm.2.1⟩⟩
    exact hinv.ne_zero (hinv.entity_of_listed hm.1).1
  · exact hent.header m (fun _ => hmd) i (hi.trans (by decide))

/-- A move of a file after the deletion of the entity `e` that has the name. -/
theorem relocated_replaced (hinv : Inv fs E ls) (hnew : new ∈ E)
    (hfolder : entityType (fs.disk new) = DZFS_ENTITY_FOLDER)
    (hfile : entityType (fs.disk d) = DZFS_ENTITY_FILE) (hnul : ∀ name ∈ newName, 0 ∉ name)
    (hfits : ∀ name ∈ newName, name.length ≤ DZFS_MAX_FILENAME) {e : Nat} (hne : e ≠ d)
    (hgone : ∀ m, m ≠ 0 → (e = m ↔ m ∈ ls new ∧
      headerName (fs.disk m) = newName.getD (headerName (fs.disk d))))
    (hmem : e ∈ ls new) {fs₁ : Dzfs} {l : List Nat}
    (hu : Unlinked fs fs₁ E ls e new (released fs e))
    (hperm : l.Perm ((ls new).erase e)) (hinv₁ : Inv fs₁ (E.erase e) (Function.update ls new l))
    (hold₁ : InFolder fs₁ (E.erase e) (Function.update ls new l) d old)
    (hok : enterNewParent fs₁ d old new newName (renamed (fs.disk d) newName) = (.OK, fs'))
    (hm : Moved fs₁ fs' (E.erase e) (Function.update ls new l) d old new) :
    Relocated fs fs' E ls d old new e (newName.getD (headerName (fs.disk d))) := by
  have hdnew := file_dnode_ne hfile hfolder
  have hd : d ∈ E := Finset.mem_of_mem_erase (hinv₁.entity_of_listed hold₁.listed).1
  obtain ⟨l', hperm', hinv'⟩ := hm.inv
  have hent := enterNewParent_entered hinv₁ hold₁ (Finset.mem_erase.mpr ⟨hu.ne.symm, hnew⟩) hu.type
    hok
  -- The deletion does not write to the dnode of the file.
  have hkept : fs₁.disk d = fs.disk d := hu.disk d (Or.inr (hinv.root_le hd)) hdnew
  rw [← hkept] at hent
  have hself := hent.block_eq (file_dnode_ne (hkept ▸ hfile) hold₁.folder) hdnew
  rw [hkept] at hself
  obtain ⟨hlinks, hsize, hname⟩ := renamed_spec (b := fs.disk d) hnul hfits
  rw [← hself] at hlinks hsize hname
  refine ⟨hne, fun m hm _ => hgone m hm, ⟨_, hinv', fun g m => ?_⟩, fun m hmem hmd i hi => ?_,
    hlinks, hsize, hname, fun m hm hmo hmn hmd => ?_⟩
  · rw [hinv₁.listing.mem_transfer hold₁.listed hperm', hinv.listing.mem_erase hperm hmem,
      and_assoc, and_comm (a := m ≠ d)]
  · have hi : i < 268 := hi.trans (by decide)
    exact (hent.header m (fun _ => hmd) i hi).trans (hu.header_eq hinv hmem hi)
  · exact (hent.disk m hmo hmn fun _ => hmd).trans (hu.disk m hm hmn)

/-- A move of a file fails and changes nothing, or it relocates the file. -/
theorem dzfsMove_relocated (h : UniqueNames fs ls) (hinv : Inv fs E ls)
    (hold : InFolder fs E ls d old) (hnew : new ∈ E)
    (hfolder : entityType (fs.disk new) = DZFS_ENTITY_FOLDER)
    (hfile : entityType (fs.disk d) = DZFS_ENTITY_FILE) (hnul : ∀ name ∈ newName, 0 ∉ name) :
    ((dzfsMove fs d old new newName).1 ≠ .OK ∧ (dzfsMove fs d old new newName).2 = fs) ∨
      (dzfsMove fs d old new newName).1 = .OK ∧ ∃ e,
        entitiesAfterMove fs E d old new newName = E.erase e ∧
        Relocated fs (dzfsMove fs d old new newName).2 E ls d old new e
          (newName.getD (headerName (fs.disk d))) := by
  have hlookup : ∀ _ : ∀ name ∈ newName, name.length ≤ DZFS_MAX_FILENAME, ∀ m, m ≠ 0 →
      (replaced fs d new newName = m ↔ m ∈ ls new ∧
        headerName (fs.disk m) = newName.getD (headerName (fs.disk d))) :=
    fun hfits m hm => h.replaced_iff hinv hold hnew hfolder hnul hfits hm
  -- The move changes nothing, or it enters the file under a free name, or it deletes an entity
  -- first. The lookup says which entity that is.
  rcases dzfsMove_steps hinv hold hnew hfolder newName hnul fun _ =>
      ⟨file_dnode_ne hfile hold.folder, file_dnode_ne hfile hfolder⟩ with
    ⟨hfs, hE, hok⟩ | ⟨hr, hfits, hrep, hok, hm, hE⟩ |
      @⟨fs₁, l, hr, hfits, -, hmem, hne, hu, hperm, hinv₁, hold₁, hok, hm, hE⟩
  · by_cases hr : (dzfsMove fs d old new newName).1 = .OK
    case neg => exact Or.inl ⟨hr, hfs⟩
    obtain ⟨rfl, hsame⟩ := hok hr
    have hname : newName.getD (headerName (fs.disk d)) = headerName (fs.disk d) := by
      rcases hsame with rfl | rfl
      · rfl
      · rfl
    rw [hfs, hname]
    exact Or.inr ⟨hr, 0, hE.trans hinv.erase_zero.symm, relocated_same h hinv hold⟩
  · refine Or.inr ⟨hr, 0, hE.trans hinv.erase_zero.symm, ?_⟩
    refine relocated_moved hinv hold hnew hfolder hfile hnul hfits (fun m hm hm' => ?_) hok hm
    exact hm ((hlookup hfits m hm).mpr hm' ▸ hrep)
  · exact Or.inr ⟨hr, _, hE, relocated_replaced hinv hnew hfolder hfile hnul hfits hne
      (hlookup hfits) hmem hu hperm hinv₁ hold₁ hok hm⟩

end

section
variable {s : FsState} {fs' : Dzfs} {ls : Nat → List Nat} {d old new e f n : Nat}
  {name : List UInt8}

theorem Inv.child_iff (hinv : Inv s.fs s.entities ls) :
    Child s f name n ↔ n ∈ ls f ∧ headerName (s.fs.disk n) = name := by
  constructor
  · intro hc
    exact ⟨(hinv.listedIn_iff hc.folder).mp hc.listed, hc.name_eq⟩
  · rintro ⟨hn, hname⟩
    have hf := hinv.folder_of_listed hn
    exact ⟨hf, (hinv.listedIn_iff hf).mpr hn, hname⟩

/-- A listed entity has one entry. -/
theorem Inv.listed_once (hinv : Inv s.fs s.entities ls) (hn : n ∈ ls f) :
    ∃ k < DZFS_MAX_DIR_CONTENTS, ∀ g, IsFolder s g → ∀ i < DZFS_MAX_DIR_CONTENTS,
      contentDnode (s.fs.disk g) i = n ↔ g = f ∧ i = k := by
  have hf := hinv.folder_of_listed hn
  obtain ⟨k, hk, hget⟩ := List.mem_iff_getElem.mp hn
  refine ⟨k, lt_of_lt_of_le hk (hinv.lists f hf.1 hf.2).length_le, fun g hg i hi => ?_⟩
  rw [(hinv.lists g hg.1 hg.2).word i hi]
  constructor
  · intro hentry
    have hlt : i < (ls g).length := by
      by_contra hge
      rw [List.getD_eq_default _ _ (not_lt.mp hge)] at hentry
      exact hinv.ne_zero (hinv.entity_of_listed hn).1 hentry.symm
    rw [List.getD_eq_getElem _ _ hlt] at hentry
    -- An entity is in one folder, and there it is listed once.
    obtain rfl : g = f := hinv.listing.owns.inj _ _ _ (hentry ▸ List.getElem_mem hlt) hn
    exact ⟨rfl, (hinv.listing.nodup g).getElem_inj_iff.mp (hentry.trans hget.symm)⟩
  · rintro ⟨rfl, rfl⟩
    rw [List.getD_eq_getElem _ _ hk, hget]

theorem dzfsStat_file_size (hfile : entityType (fs.disk d) = DZFS_ENTITY_FILE) :
    (dzfsStat fs d).2.size = fileSize (fs.disk d) := by
  unfold dzfsStat
  simp only [Dzfs.readBlock]
  rw [if_pos hfile]

section
variable (hinv : Inv s.fs s.entities ls)
  (hr : Relocated s.fs fs' s.entities ls d old new e name)

include hinv hr

/-- The entity that made room was an entry of the new folder with the name. -/
theorem Relocated.gone_of_listed (hn : e ∈ ls f) :
    f = new ∧ headerName (s.fs.disk e) = name := by
  obtain ⟨hmem, hname⟩ :=
    (hr.gone e (hinv.ne_zero (hinv.entity_of_listed hn).1) hr.ne).mp rfl
  exact ⟨hinv.listing.owns.inj _ _ _ hn hmem, hname⟩

/-- The entries and their names after the move. -/
theorem Relocated.child_iff (h : UniqueNames s.fs ls) (m : Nat) (nm : List UInt8) :
    Child ⟨fs', s.entities.erase e⟩ f nm m ↔
      (f = new ∧ nm = name ∧ m = d) ∨ (Child s f nm m ∧ m ≠ d ∧ ¬ (f = new ∧ nm = name)) := by
  obtain ⟨ls', hinv', hmem⟩ := hr.inv
  have hkept : ∀ {g m}, m ∈ ls g → m ≠ d → headerName (fs'.disk m) = headerName (s.fs.disk m) :=
    fun {g m} hm hmd =>
      headerName_congr (hr.header m (hinv.entity_of_listed hm).1 hmd) (h.short g m hm)
  rw [hinv'.child_iff (s := ⟨fs', s.entities.erase e⟩), hinv.child_iff]
  simp only [hmem]
  constructor
  · rintro ⟨⟨hm, hmd, hme⟩ | ⟨rfl, rfl⟩, rfl⟩
    -- An entry with the name in the new folder would be the one that made room.
    · refine Or.inr ⟨⟨hm, (hkept hm hmd).symm⟩, hmd, ?_⟩
      rintro ⟨rfl, hname⟩
      rw [hkept hm hmd] at hname
      have hm0 := hinv.ne_zero (hinv.entity_of_listed hm).1
      exact hme ((hr.gone m hm0 hmd).mpr ⟨hm, hname⟩).symm
    · exact Or.inl ⟨rfl, hr.name_eq, rfl⟩
  · rintro (⟨rfl, rfl, rfl⟩ | ⟨⟨hm, rfl⟩, hmd, hno⟩)
    · exact ⟨Or.inr ⟨rfl, rfl⟩, hr.name_eq⟩
    · refine ⟨Or.inl ⟨hm, hmd, ?_⟩, hkept hm hmd⟩
      rintro rfl
      exact hno (hr.gone_of_listed hinv hm)

variable (hold : InFolder s.fs s.entities ls d old)

include hold

/-- The move does not write to the blocks of the file, up to its dnode. -/
theorem Relocated.byteAt_eq (hnew : IsFolder s new)
    (hfile : entityType (s.fs.disk d) = DZFS_ENTITY_FILE) {pos : Nat}
    (hpos : pos < DZFS_MAX_FILESIZE) : byteAt fs' d pos = byteAt s.fs d pos := by
  have hd : d ∈ s.entities := (hinv.entity_of_listed hold.listed).1
  have hzero : ∀ {m}, m ∈ s.entities → 0 ≠ m := fun hm => (hinv.ne_zero hm).symm
  refine byteAt_frame hd hfile hr.links (fun p n hp hpd hn => ?_)
    (hr.disk 0 (Or.inl (by decide)) (hzero hold.mem) (hzero hnew.1) (hzero hd)) hpos
  -- The block of a folder or of the dnode has no other place that holds it.
  have hown : ∀ {m}, m ∈ s.entities → p ≠ .dnode m → n ≠ m := by
    rintro m hm hpm rfl
    exact hpm (hinv.blocks.inj p (.dnode n) n hn ⟨hm, rfl⟩)
  have hfolder : ∀ {m}, entityType (s.fs.disk m) = DZFS_ENTITY_FOLDER → p ≠ .dnode m := by
    rintro m hm rfl
    exact file_dnode_ne hfile hm hp.symm
  exact hr.disk n (Or.inr (hinv.blocks.used p n hn).1) (hown hold.mem (hfolder hold.folder))
    (hown hnew.1 (hfolder hnew.2)) (hown hd hpd)

/-- A relocated file has moved. -/
theorem Relocated.fileMoved (h : UniqueNames s.fs ls) (hnew : IsFolder s new)
    (hfile : entityType (s.fs.disk d) = DZFS_ENTITY_FILE) :
    FileMoved s ⟨fs', s.entities.erase e⟩ d new name := by
  obtain ⟨ls', hinv', hmem⟩ := hr.inv
  have hd : d ∈ s.entities := (hinv.entity_of_listed hold.listed).1
  have hfile' : entityType (fs'.disk d) = DZFS_ENTITY_FILE := hr.links.type.trans hfile
  refine ⟨⟨Finset.mem_erase.mpr ⟨hr.ne.symm, hd⟩, hfile'⟩,
    hinv'.listed_once (s := ⟨fs', s.entities.erase e⟩) ((hmem new d).mpr (Or.inr ⟨rfl, rfl⟩)),
    fun f nm m => hr.child_iff hinv h m nm, fun m hm hmd f hf hlisted => ?_,
    fun m hm hmd => ?_, ?_, ?_⟩
  · obtain ⟨hin, hname⟩ := hinv.child_iff.mp hm
    have hm0 := hinv.ne_zero (hinv.entity_of_listed hin).1
    have hgone : e = m := (hr.gone m hm0 hmd).mpr ⟨hin, hname⟩
    rcases (hmem f m).mp ((hinv'.listedIn_iff hf).mp hlisted) with ⟨-, -, hme⟩ | ⟨-, heq⟩
    · exact hme hgone.symm
    · exact hmd heq
  · rw [(dzfsStat_name _ m).1, (dzfsStat_name _ m).1]
    refine List.ext_getElem (by simp) fun i hi _ => ?_
    rw [Bytes.length_slice] at hi
    rw [Bytes.getElem_slice, Bytes.getElem_slice]
    refine hr.header m (Finset.mem_of_mem_erase hm) hmd _ ?_
    simp only [DZFS_MAX_FILENAME, SIZE_OFFSET] at hi ⊢
    omega
  · show (dzfsStat fs' d).2.size = (dzfsStat s.fs d).2.size
    rw [dzfsStat_file_size hfile, dzfsStat_file_size hfile', hr.size]
  · exact (reads_iff_bytes hfile hfile' hr.size).mpr fun pos _ hpos =>
      hr.byteAt_eq hinv hold hnew hfile hpos

end

end

/-! ### The law in every run -/

/-- In every state of a run of valid and safe calls whose paths are strings, from a disk that
`dzfsNew` formatted, the move of a file is all-or-nothing. -/
theorem move_all_or_nothing {disk : Nat → Bytes} {blocks : Nat} {date : UInt64} {fs : Dzfs}
    (hle : blocks ≤ formatLimit) (hformat : dzfsNew disk blocks date = (.OK, fs)) {s : FsState}
    (hs : Reachable Sound (newState fs) s) {d old new : Nat} {newName : Option (List UInt8)}
    (hfile : IsFile s d) (hold : IsFolder s old) (hnew : IsFolder s new)
    (hlisted : ListedIn s d old) (hnul : ∀ name ∈ newName, 0 ∉ name) :
    MoveLaw s d old new newName := by
  obtain ⟨ls, hinv, h⟩ := hs.uniqueNames hle hformat
  have hin := hlisted.inFolder hinv hold
  rcases dzfsMove_relocated h hinv hin hnew.1 hnew.2 hfile.2 hnul with
    ⟨hr, hfs⟩ | ⟨hr, e, hE, hmoved⟩
  · exact ⟨fun hok => absurd hok hr, fun _ => hfs⟩
  · refine ⟨fun _ => ?_, fun hno => absurd hr hno⟩
    have hexec : exec s (.move d old new newName)
        = ⟨(dzfsMove s.fs d old new newName).2, s.entities.erase e⟩ := by
      rw [← hE]
      rfl
    rw [hexec]
    exact hmoved.fileMoved hinv hin h hnew hfile.2

/-- The file `c` moves to `a` and replaces `a/b`. -/
theorem move_all_or_nothing_replace :
    MoveLaw (threeEntityCalls.foldl exec (newState formattedDisk)) 6 3 4 (some [98]) :=
  move_all_or_nothing (show 32768 ≤ formatLimit by decide) formattedDisk_new
    (OkRun.reachable .start (show OkRun Sound (newState formattedDisk) threeEntityCalls by
      decide +kernel))
    (by decide +kernel) (by decide +kernel) (by decide +kernel) (by decide +kernel)
    (by decide +kernel)

/-! ### A file in two folders -/

/-- The folder `a` with the file `a/f` moves into itself. There it gets the name `f`: the move
deletes the file, and then writes the block of `a` from before, with the entry of the file. At last
the folder moves to the root folder as `z`. The file `g` in the root folder gets the free block of
`f`, and so `z` lists it as well. -/
def twoFoldersCalls : List Call :=
  [.openRelative [97] 3 3 0, .openRelative [102] 4 1 0, .move 4 3 4 none, .move 4 4 4 (some [102]),
    .move 4 4 3 (some [122]), .openRelative [103] 3 1 0]

/-- After these valid calls, the file `g` of the root folder is also in the folder `z`. It gets a
new name in the root folder, and it is still in both folders. -/
theorem selfMove_two_folders :
    ∃ fs s, dzfsNew (fun _ => Bytes.zero) 32768 0 = (.OK, fs) ∧
      Reachable (fun s c => Valid s c ∧ StringPath c) (newState fs) s ∧
      IsFile s 5 ∧ IsFolder s 3 ∧ ListedIn s 5 3 ∧ ¬ MoveLaw s 5 3 3 (some [104]) := by
  have hrun : OkRun (fun s c => Valid s c ∧ StringPath c) (newState formattedDisk)
      twoFoldersCalls := by decide +kernel
  refine ⟨formattedDisk, twoFoldersCalls.foldl exec (newState formattedDisk),
    Prod.ext (by decide +kernel) rfl, hrun.reachable .start, by decide +kernel, by decide +kernel,
    by decide +kernel, fun hlaw => ?_⟩
  obtain ⟨k, -, honce⟩ := (hlaw.moved (by decide +kernel)).once
  have hentry := (honce 4 (by decide +kernel) 0 (by decide)).mp (by decide +kernel)
  exact absurd hentry.1 (by decide)

end DzOS.Proofs.Fs
