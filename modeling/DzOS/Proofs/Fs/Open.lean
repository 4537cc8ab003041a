import DzOS.Proofs.Fs.Entities
import DzOS.Proofs.Fs.Path

/-!
# `DzOS.Proofs.Fs.Open`: opening and creating

`dzfsOpenRelative_spec` says what an open does to the invariant: it changes nothing, or it
creates one entity in a folder (`Created`). A result `OK` names an entity.

Two conditions are needed. `Fits` states that every part of the path fits in the name of an
entity. The second is about `..`: `openRelative` follows the field `parent` of a folder, which
no function keeps up to date. `upFolders` lists the folders that the leading `..` of a path
lead to, and each of them has to be a folder.
-/

set_option autoImplicit false

namespace DzOS.Proofs.Fs

open DzOS.Lib DzOS.Fs

variable {path : List UInt8}

/-- The part of the path that starts at any position is a name that fits. -/
def Fits (path : List UInt8) : Prop :=
  ∀ k ≤ path.length, pathNextPartLen (path.drop k) ≤ DZFS_MAX_FILENAME

instance (path : List UInt8) : Decidable (Fits path) :=
  inferInstanceAs (Decidable (∀ k ≤ path.length, _))

theorem Fits.drop (h : Fits path) (j : Nat) : Fits (path.drop j) := by
  intro k hk
  rw [List.drop_drop]
  rcases Nat.lt_or_ge path.length (j + k) with hgt | hle
  · rw [List.drop_eq_nil_of_le hgt.le]
    exact Nat.zero_le _
  · exact h (j + k) hle

/-- The block `n` became the dnode of a new entity in the folder `cur`. -/
structure Created (fs fs' : Dzfs) (E : Finset Nat) (cur n : Nat) : Prop where
  mem : cur ∈ E
  folder : entityType (fs.disk cur) = DZFS_ENTITY_FOLDER
  not_mem : n ∉ E
  inv : ∃ ls', Inv fs' (insert n E) ls'
  not_holds : ∀ p, ¬ Holds fs.disk E p n
  ne_zero : n ≠ 0
  disk : ∀ m, m < 2 ∨ fs.rootDnode ≤ m → m ≠ cur → m ≠ n → fs'.disk m = fs.disk m

/-- The two outcomes of an open: nothing changes, or an entity is created. -/
def Opened (fs : Dzfs) (E : Finset Nat) (out : OpenOut) (fs' : Dzfs) : Prop :=
  (fs' = fs ∧ (out.result = .OK → ∃ n ∈ E, out.dnode = some n)) ∨
    ∃ cur n, out = ⟨.OK, some n, some cur⟩ ∧ Created fs fs' E cur n

/-- Every part of a path that fits is a name that fits. -/
theorem Fits.parts {name : List UInt8} (h : Fits path) (hname : name ∈ Fs.parts path) :
    name.length ≤ DZFS_MAX_FILENAME := by
  obtain ⟨k, hk, rfl⟩ := exists_of_mem_parts hname
  exact h k hk

/-- The name of the entity that an open creates, if it creates one. -/
def createdName (fs : Dzfs) (path : List UInt8) (relativeTo : Nat) (flags : UInt32) :
    Option (List UInt8) :=
  match pathEnd fs path relativeTo with
  | .missing cur name =>
    if flags &&& DZFS_O_CREATE ≠ 0 ∧ Room fs cur then some name else none
  | _ => none

section
variable {fs : Dzfs} {path name : List UInt8} {relativeTo cur : Nat} {flags : UInt32}

theorem createdName_of_missing (hend : pathEnd fs path relativeTo = .missing cur name)
    (hcreate : flags &&& DZFS_O_CREATE ≠ 0) (hroom : Room fs cur) :
    createdName fs path relativeTo flags = some name := by
  unfold createdName
  rw [hend]
  exact if_pos ⟨hcreate, hroom⟩

theorem createdName_eq_some (h : createdName fs path relativeTo flags = some name) :
    ∃ cur, pathEnd fs path relativeTo = .missing cur name ∧ flags &&& DZFS_O_CREATE ≠ 0 ∧
      Room fs cur := by
  unfold createdName at h
  split at h
  · rename_i cur missing hend
    split at h
    · rename_i hcreated
      obtain rfl := Option.some.inj h
      exact ⟨cur, hend, hcreated.1, hcreated.2⟩
    · cases h
  · cases h

/-- A slash in front of a path leads to the root folder. -/
theorem createdName_slash (fs : Dzfs) (path : List UInt8) (relativeTo : Nat) (flags : UInt32) :
    createdName fs (SLASH :: path) relativeTo flags
      = createdName fs path fs.rootDnode flags := by
  unfold createdName
  rw [pathEnd_slash]

end

/-- If the open creates an entity, its name ends in front of the links of the new dnode. -/
def NewNameFits (fs : Dzfs) (path : List UInt8) (relativeTo : Nat) (flags : UInt32) : Prop :=
  ∀ name ∈ createdName fs path relativeTo flags, name.length < 268

instance (fs : Dzfs) (path : List UInt8) (relativeTo : Nat) (flags : UInt32) :
    Decidable (NewNameFits fs path relativeTo flags) :=
  inferInstanceAs (Decidable (∀ name ∈ createdName fs path relativeTo flags, _))

theorem Fits.newNameFits {fs : Dzfs} {relativeTo : Nat} {flags : UInt32} (h : Fits path) :
    NewNameFits fs path relativeTo flags := by
  intro name hname
  obtain ⟨cur, hend, -, -⟩ := createdName_eq_some hname
  have hlen := h.parts (List.mem_of_getLast? (pathEnd_missing hend).1)
  simp only [DZFS_MAX_FILENAME] at hlen
  omega

section
variable {fs fs' : Dzfs} {E : Finset Nat} {ls : Nat → List Nat} {flags : UInt32}
  {date : UInt64} {out : OpenOut} {path : List UInt8} {relativeTo : Nat}

section

variable (h : Inv fs E ls)
  (hrel : relativeTo ∈ E ∧ entityType (fs.disk relativeTo) = DZFS_ENTITY_FOLDER)

include h hrel

/-- The folder where the walk of a path ends, and the entity that it finds. -/
theorem Inv.pathEnd_folder
    (hdots : ∀ f ∈ upFolders fs path relativeTo,
      f ∈ E ∧ entityType (fs.disk f) = DZFS_ENTITY_FOLDER)
    {cur : Nat} (hend : (pathEnd fs path relativeTo).folder = some cur) :
    cur ∈ E ∧ entityType (fs.disk cur) = DZFS_ENTITY_FOLDER := by
  refine Fs.pathEnd_folder (P := fun f => f ∈ E ∧ entityType (fs.disk f) = DZFS_ENTITY_FOLDER)
    (fun f name hf hfound htype => ?_) hdots ⟨h.root_mem, h.root_folder⟩ hrel hend
  exact ⟨(h.entity_of_listed ((h.lists f hf.1 hf.2).lookup_mem hfound)).1, htype⟩

/-- An open changes nothing, and an `OK` names an entity, or it creates the entity that is
missing at the end of the walk. -/
theorem dzfsOpenRelative_creation (hname : NewNameFits fs path relativeTo flags)
    (hdots : ∀ f ∈ upFolders fs path relativeTo,
      f ∈ E ∧ entityType (fs.disk f) = DZFS_ENTITY_FOLDER)
    (ho : dzfsOpenRelative fs flags date path relativeTo = (out, fs')) :
    (fs' = fs ∧ (out.result = .OK → ∃ n ∈ E, out.dnode = some n)) ∨
      ∃ cur n name, pathEnd fs path relativeTo = .missing cur name ∧
        createdName fs path relativeTo flags = some name ∧
        (cur ∈ E ∧ entityType (fs.disk cur) = DZFS_ENTITY_FOLDER) ∧
        out = ⟨.OK, some n, some cur⟩ ∧ Creation fs fs' E ls cur n name flags date := by
  have hroot : fs.rootDnode ≠ 0 := h.ne_zero h.root_mem
  rw [dzfsOpenRelative_eq hroot flags date path (h.ne_zero hrel.1)] at ho
  split at ho
  · obtain ⟨rfl, rfl⟩ := ho
    exact Or.inl ⟨rfl, fun _ => ⟨_, h.root_mem, rfl⟩⟩
  cases hend : pathEnd fs path relativeTo with
  | self folder =>
    have hfolder := h.pathEnd_folder hrel hdots (congrArg PathEnd.folder hend)
    rw [hend] at ho
    obtain ⟨rfl, rfl⟩ := ho
    exact Or.inl ⟨rfl, fun _ => ⟨folder, hfolder.1, rfl⟩⟩
  | found folder dnode =>
    obtain ⟨hmem, htype⟩ := h.pathEnd_folder hrel hdots (congrArg PathEnd.folder hend)
    obtain ⟨hne, name, rfl⟩ := resolve_found hend
    have hlisted := (h.lists folder hmem htype).lookup_mem hne
    rw [hend] at ho
    obtain ⟨rfl, rfl⟩ := ho
    exact Or.inl ⟨rfl, fun _ => ⟨_, (h.entity_of_listed hlisted).1, rfl⟩⟩
  | nowhere =>
    rw [hend] at ho
    obtain ⟨rfl, rfl⟩ := ho
    exact Or.inl ⟨rfl, by simp⟩
  | missing cur name =>
    obtain ⟨hmem, htype⟩ := h.pathEnd_folder hrel hdots (congrArg PathEnd.folder hend)
    rw [hend, openAt] at ho
    split at ho
    · rename_i hcreate
      have hfits : Room fs cur → name.length < 268 := fun hroom =>
        hname name (createdName_of_missing hend hcreate hroom)
      rcases createEntity_creation h hmem htype hfits flags date _ ho with
        ⟨rfl, hr⟩ | ⟨n, rfl, hnew⟩
      · exact Or.inl ⟨rfl, fun hok => absurd hok hr⟩
      · exact Or.inr ⟨cur, n, name, rfl, createdName_of_missing hend hcreate hnew.room,
          ⟨hmem, htype⟩, rfl, hnew⟩
    · obtain ⟨rfl, rfl⟩ := ho
      exact Or.inl ⟨rfl, by simp⟩

/-- `dzfsOpenRelative` keeps the invariant, up to the entity that it creates. -/
theorem dzfsOpenRelative_spec (hfits : Fits path)
    (hdots : ∀ f ∈ upFolders fs path relativeTo,
      f ∈ E ∧ entityType (fs.disk f) = DZFS_ENTITY_FOLDER)
    (ho : dzfsOpenRelative fs flags date path relativeTo = (out, fs')) : Opened fs E out fs' := by
  rcases dzfsOpenRelative_creation h hrel hfits.newNameFits hdots ho with
    hsame | ⟨cur, n, name, -, -, hcur, hout, hnew⟩
  · exact Or.inl hsame
  · exact Or.inr ⟨cur, n, hout, hcur.1, hcur.2, hnew.not_mem, ⟨_, hnew.inv⟩, hnew.not_holds,
      hnew.ne_zero, hnew.disk⟩

end

/-- An absolute path is opened from the root folder. -/
theorem dzfsOpenAbsolute_cases (fs : Dzfs) (flags : UInt32) (date : UInt64) (path : List UInt8) :
    (dzfsOpenAbsolute fs flags date path).2 = fs ∧
        ((dzfsOpenAbsolute fs flags date path).1.result = .OK →
          (dzfsOpenAbsolute fs flags date path).1.dnode = some fs.rootDnode) ∨
      ∃ rest, path = SLASH :: rest ∧ dzfsOpenAbsolute fs flags date path
        = dzfsOpenRelative fs flags date rest fs.rootDnode := by
  unfold dzfsOpenAbsolute
  split
  · exact Or.inl ⟨rfl, by simp⟩
  · rename_i hhead
    split
    · exact Or.inl ⟨rfl, fun _ => rfl⟩
    · cases path with
      | nil => simp at hhead
      | cons c rest =>
        obtain rfl : c = SLASH := by simpa using hhead
        exact Or.inr ⟨rest, rfl, rfl⟩

/-- `dzfsOpenAbsolute` keeps the invariant, up to the entity that it creates. -/
theorem dzfsOpenAbsolute_spec (h : Inv fs E ls) (hfits : Fits path)
    (hdots : ∀ f ∈ upFolders fs path fs.rootDnode,
      f ∈ E ∧ entityType (fs.disk f) = DZFS_ENTITY_FOLDER)
    (ho : dzfsOpenAbsolute fs flags date path = (out, fs')) : Opened fs E out fs' := by
  rcases dzfsOpenAbsolute_cases fs flags date path with ⟨hsame, hok⟩ | ⟨rest, rfl, heq⟩
  · rw [ho] at hsame hok
    exact Or.inl ⟨hsame, fun hr => ⟨_, h.root_mem, hok hr⟩⟩
  · rw [heq] at ho
    exact dzfsOpenRelative_spec h ⟨h.root_mem, h.root_folder⟩ (hfits.drop 1) hdots ho

end

end DzOS.Proofs.Fs
