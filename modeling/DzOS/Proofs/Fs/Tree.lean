import DzOS.Lib.Tree
import DzOS.Proofs.Fs.DeleteAtomic
import DzOS.Proofs.Fs.Variables

/-!
# `DzOS.Proofs.Fs.Tree`: the folders as a tree

A folder has its parent in a field of its own, and its parent has it in a list. `DirTree` states
that the two agree and that the folders are a tree: every entity but the root folder is listed
in one folder, the parents of a folder lead up to the root folder, and every entity is reached
from the root folder.

`dzfsMove` writes the lists only. So the move of a folder into another folder leaves the field
`parent` behind, and a folder may even move below itself (`staleParent_not_tree`). `TreeOk` is
what is left: no such move, unless `dzfsMove` refuses it. `Tree` is the invariant for these
calls. It also makes `..` lead to folders, so that nothing needs to be assumed about the opens.
-/

set_option autoImplicit false

namespace DzOS.Proofs.Fs

open DzOS.Lib DzOS.Fs

variable {s : FsState} {ls : Nat → List Nat} {date : UInt64} {fs : Dzfs} {flags : UInt32}

/-! ### The invariant -/

/-- The invariant of the file system, and the lists of the folders are a tree that agrees with
the fields `parent`. -/
structure Tree (fs : Dzfs) (E : Finset Nat) (ls : Nat → List Nat) : Prop
    extends Inv fs E ls where
  root_parent : folderParent (fs.disk fs.rootDnode) = fs.rootDnode
  parent : ∀ f n, n ∈ ls f → entityType (fs.disk n) = DZFS_ENTITY_FOLDER →
    folderParent (fs.disk n) = f
  under : ∀ n ∈ E, Under ls fs.rootDnode n

section
variable {fs fs' : Dzfs} {E : Finset Nat} {ls : Nat → List Nat} {d f n cur old new : Nat}

/-- A folder does not list itself. -/
theorem Tree.not_mem_self (h : Tree fs E ls) (hn : n ∈ E) : n ∉ ls n := by
  have hroot : ∀ f, fs.rootDnode ∉ ls f := fun f hmem => (h.entity_of_listed hmem).2 rfl
  exact (h.under n hn).not_mem_self hroot fun f g m hf hg => h.listing.owns.inj f g m hf hg

/-- `..` leads from a listed folder to the folder that lists it. -/
theorem Tree.goUp_eq (h : Tree fs E ls) (hn : n ∈ ls f)
    (hfolder : entityType (fs.disk n) = DZFS_ENTITY_FOLDER) : goUp fs n = f := by
  have hparent := h.parent f n hn hfolder
  have hne := h.ne_zero (h.folder_of_listed hn).1
  unfold goUp
  rw [hparent, if_pos hne]

/-- `..` leads to a folder. -/
theorem Tree.goUp_folder (h : Tree fs E ls)
    (hf : f ∈ E ∧ entityType (fs.disk f) = DZFS_ENTITY_FOLDER) :
    goUp fs f ∈ E ∧ entityType (fs.disk (goUp fs f)) = DZFS_ENTITY_FOLDER := by
  rcases (h.under f hf.1).cases_child with rfl | ⟨p, -, hp⟩
  · have hup : goUp fs fs.rootDnode = fs.rootDnode := by
      unfold goUp
      rw [h.root_parent, ite_id]
    rw [hup]
    exact hf
  · rw [h.goUp_eq hp hf.2]
    exact h.folder_of_listed hp

/-! ### The operations -/

/-- The lists, the types and the parents stay as they are. -/
theorem Tree.of_same (h : Tree fs E ls) {ls' : Nat → List Nat} (hinv : Inv fs' E ls')
    (hroot : fs'.rootDnode = fs.rootDnode) (hls : ∀ f m, m ∈ ls' f ↔ m ∈ ls f)
    (htype : ∀ e ∈ E, entityType (fs'.disk e) = entityType (fs.disk e))
    (hparent : ∀ e ∈ E, entityType (fs.disk e) = DZFS_ENTITY_FOLDER →
      folderParent (fs'.disk e) = folderParent (fs.disk e)) : Tree fs' E ls' := by
  refine ⟨hinv, ?_, fun f m hm hfolder => ?_, fun m hm => ?_⟩
  · rw [hroot, hparent _ h.root_mem h.root_folder]
    exact h.root_parent
  · have hlisted := (hls f m).mp hm
    have hmem := (h.entity_of_listed hlisted).1
    rw [htype m hmem] at hfolder
    rw [hparent m hmem hfolder]
    exact h.parent f m hlisted hfolder
  · rw [hroot]
    exact (h.under m hm).mono fun f k hk => (hls f k).mpr hk

/-- A write goes to a file. -/
theorem Tree.write (h : Tree fs E ls) (hd : d ∈ E) {data : List UInt8} {offset : Nat}
    (hlt : data.length + offset < 2 ^ 64) : Tree (dzfsWrite fs d data offset).2 E ls := by
  have hinv := dzfsWrite_inv h.toInv hd hlt
  have hdnode := fun e he => dzfsWrite_dnode h.toCore hd hlt (e := e) he
  refine h.of_same hinv (dzfsWrite_vars fs d data offset).rootDnode (fun _ _ => Iff.rfl)
    (fun e he => (hdnode e he).1) fun e he hfolder => ?_
  by_cases hed : e = d
  · -- A folder is not written.
    subst hed
    unfold dzfsWrite
    simp only [Dzfs.readBlock]
    rw [if_pos (fun hfile => file_ne_folder hfile hfolder)]
  · rw [(hdnode e he).2 hed]

/-- The header of the folder that a creation or a deletion writes. -/
theorem header_same {b b' : Bytes} (h : ∀ i < 268, b' i = b i) :
    entityType b' = entityType b ∧ folderParent b' = folderParent b := by
  refine ⟨h 0 (by decide), Bytes.getLE_congr fun i _ hi => h i ?_⟩
  simp only [SIZE_OFFSET] at hi
  omega

/-- A new entity is a leaf in the folder where it is created. -/
theorem Tree.create (h : Tree fs E ls) (hcur : cur ∈ E) {name : List UInt8}
    (hc : Creation fs fs' E ls cur n name flags date) :
    Tree fs' (insert n E) (Function.update ls cur (ls cur ++ [n])) := by
  have hroot : fs'.rootDnode = fs.rootDnode := hc.only.2
  have hmem := fun g m => mem_update_append ls cur n (g := g) (m := m)
  have hold : ∀ e ∈ E, entityType (fs'.disk e) = entityType (fs.disk e) ∧
      folderParent (fs'.disk e) = folderParent (fs.disk e) := by
    intro e he
    exact header_same fun i hi => hc.header_eq h.toInv he hi
  refine ⟨hc.inv, ?_, fun f m hm hfolder => ?_, fun m hm => ?_⟩
  · rw [hroot, (hold _ h.root_mem).2]
    exact h.root_parent
  · rcases (hmem f m).mp hm with hm | ⟨rfl, rfl⟩
    · have hmE := (h.entity_of_listed hm).1
      rw [(hold m hmE).1] at hfolder
      rw [(hold m hmE).2]
      exact h.parent f m hm hfolder
    · rw [hc.block] at hfolder ⊢
      exact newDnode_parent (h.lt_word hcur) hfolder
  · rw [hroot]
    have hkeep : ∀ e ∈ E, Under (Function.update ls cur (ls cur ++ [n])) fs.rootDnode e :=
      fun e he => (h.under e he).mono fun g k hk => (hmem g k).mpr (Or.inl hk)
    rcases Finset.mem_insert.mp hm with rfl | hm
    · exact (hkeep cur hcur).child ((hmem cur m).mpr (Or.inr ⟨rfl, rfl⟩))
    · exact hkeep m hm

/-- A deleted entity was a leaf. -/
theorem Tree.delete (h : Tree fs E ls) (hf : InFolder fs E ls d f) {freed l : List Nat}
    (hu : Unlinked fs fs' E ls d f freed) (hperm : l.Perm ((ls f).erase d))
    (hinv : Inv fs' (E.erase d) (Function.update ls f l)) :
    Tree fs' (E.erase d) (Function.update ls f l) := by
  have hroot : fs'.rootDnode = fs.rootDnode := hu.only.2
  have hmem := fun g m => h.listing.mem_erase hperm hf.listed (g := g) (m := m)
  have hold : ∀ e ∈ E, entityType (fs'.disk e) = entityType (fs.disk e) ∧
      folderParent (fs'.disk e) = folderParent (fs.disk e) := by
    intro e he
    exact header_same fun i hi => hu.header_eq h.toInv he hi
  refine ⟨hinv, ?_, fun g m hm hfolder => ?_, fun m hm => ?_⟩
  · rw [hroot, (hold _ h.root_mem).2]
    exact h.root_parent
  · obtain ⟨hm, -⟩ := (hmem g m).mp hm
    have hmE := (h.entity_of_listed hm).1
    rw [(hold m hmE).1] at hfolder
    rw [(hold m hmE).2]
    exact h.parent g m hm hfolder
  · obtain ⟨hmd, hmE⟩ := Finset.mem_erase.mp hm
    rw [hroot]
    exact (h.under m hmE).of_leaf hu.empty (fun g k hk hkd => (hmem g k).mpr ⟨hk, hkd⟩) hmd

/-- The move of an entity inside its folder, and the move of a file. -/
theorem Tree.moved (h : Tree fs E ls) (hold : InFolder fs E ls d old) (hnew : new ∈ E)
    (hfolder : entityType (fs.disk new) = DZFS_ENTITY_FOLDER)
    (hm : Moved fs fs' E ls d old new)
    (hcase : old = new ∨ entityType (fs.disk d) = DZFS_ENTITY_FILE) :
    ∃ ls', Tree fs' E ls' := by
  obtain ⟨l, hperm, hinv⟩ := hm.inv
  have hmem := fun g m => h.listing.mem_transfer hold.listed hperm (k := g) (m := m)
  generalize Function.update (Function.update ls new (ls new ++ [d])) old l = ls' at hinv hmem
  exists ls'
  rcases hcase with rfl | hfile
  · -- The lists are the same, up to the order.
    refine h.of_same hinv hm.same.only.2 (fun g m => ?_) (fun e _ => hm.same.type e)
      fun e _ _ => hm.same.parent e
    rw [hmem]
    by_cases hmd : m = d
    · subst hmd
      have hiff : g = old ↔ m ∈ ls g :=
        ⟨fun heq => heq ▸ hold.listed, fun hg => h.listing.owns.inj _ _ _ hg hold.listed⟩
      simp [hiff]
    · simp [hmd]
  · have hroot : fs'.rootDnode = fs.rootDnode := hm.same.only.2
    have hleaf : ls d = [] := h.unlisted d (Or.inr (file_ne_folder hfile))
    have hnd : new ≠ d := by
      rintro rfl
      exact file_ne_folder hfile hfolder
    have hkeep : ∀ e ∈ E, e ≠ d → Under ls' fs.rootDnode e := fun e he hed =>
      (h.under e he).of_leaf hleaf (fun g k hk hkd => (hmem g k).mpr (Or.inl ⟨hk, hkd⟩)) hed
    refine ⟨hinv, ?_, fun g m hg hmfolder => ?_, fun m hmE => ?_⟩
    · rw [hroot, hm.same.parent]
      exact h.root_parent
    · rw [hm.same.type] at hmfolder
      rw [hm.same.parent]
      rcases (hmem g m).mp hg with ⟨hg, -⟩ | ⟨-, rfl⟩
      · exact h.parent g m hg hmfolder
      · exact absurd hmfolder (file_ne_folder hfile)
    · rw [hroot]
      by_cases hmd : m = d
      · subst hmd
        exact (hkeep new hnew hnd).child ((hmem new m).mpr (Or.inr ⟨rfl, rfl⟩))
      · exact hkeep m hmE hmd

end

/-! ### Calls -/

/-- `dzfsMove` refuses the move: the new name is too long, the new folder is full and has no
entity to replace, or the entity to replace is a folder with children. -/
def MoveRefused (fs : Dzfs) (d new : Nat) (newName : Option (List UInt8)) : Prop :=
  (newName.map List.length).getD 0 > DZFS_MAX_FILENAME ∨
  (replaced fs d new newName = 0 ∧
    folderContentCount (fs.disk new) = DZFS_MAX_DIR_CONTENTS) ∨
  (replaced fs d new newName ≠ 0 ∧
    entityType (fs.disk (replaced fs d new newName)) = DZFS_ENTITY_FOLDER ∧
    HasChild (fs.disk (replaced fs d new newName)))

instance (fs : Dzfs) (d new : Nat) (newName : Option (List UInt8)) :
    Decidable (MoveRefused fs d new newName) :=
  inferInstanceAs (Decidable (_ ∨ (_ ∧ _) ∨ (_ ∧ _ ∧ ∃ i < DZFS_MAX_DIR_CONTENTS, _)))

/-- The calls that keep the tree. A folder does not move to another folder, unless the move is
refused. -/
def TreeOk (s : FsState) : Call → Prop
  | .openRelative path relativeTo flags _ =>
    IsFolder s relativeTo ∧ NewNameFits s.fs path relativeTo flags
  | .openAbsolute path flags _ =>
    path.head? = some SLASH → NewNameFits s.fs path s.fs.rootDnode flags
  | .write dnode data offset => dnode ∈ s.entities ∧ data.length + offset < 2 ^ 64
  | .delete dnode parentDnode => IsFolder s parentDnode ∧ ListedIn s dnode parentDnode
  | .move dnode oldParent newParent newName =>
    (IsFolder s oldParent ∧ IsFolder s newParent ∧ ListedIn s dnode oldParent ∧
      ∀ name ∈ newName, 0 ∉ name) ∧
    (oldParent = newParent ∨ entityType (s.fs.disk dnode) = DZFS_ENTITY_FILE ∨
      MoveRefused s.fs dnode newParent newName)

instance (s : FsState) (c : Call) : Decidable (TreeOk s c) :=
  match c with
  | .openRelative path relativeTo flags _ =>
    inferInstanceAs (Decidable (_ ∧ NewNameFits s.fs path relativeTo flags))
  | .openAbsolute path flags _ =>
    inferInstanceAs (Decidable (_ → NewNameFits s.fs path s.fs.rootDnode flags))
  | .write dnode _ _ => inferInstanceAs (Decidable (dnode ∈ s.entities ∧ _))
  | .delete _ _ => inferInstanceAs (Decidable (_ ∧ _))
  | .move dnode _ newParent newName =>
    inferInstanceAs (Decidable ((_ ∧ _ ∧ _ ∧ ∀ name ∈ newName, (0 : UInt8) ∉ name) ∧
      (_ ∨ _ ∨ MoveRefused s.fs dnode newParent newName)))

/-- A refused move changes nothing. -/
theorem dzfsMove_refused (E : Finset Nat) {d new : Nat} (old : Nat) {newName : Option (List UInt8)}
    (hfolder : entityType (fs.disk new) = DZFS_ENTITY_FOLDER) (h : MoveRefused fs d new newName) :
    (dzfsMove fs d old new newName).2 = fs ∧
      entitiesAfterMove fs E d old new newName = E := by
  unfold dzfsMove entitiesAfterMove
  simp only
  by_cases hsame : old = new ∧ (newName = none ∨ newName = some (headerName (fs.readBlock d)))
  · rw [if_pos hsame, if_pos (Or.inl hsame)]
    exact ⟨rfl, rfl⟩
  rw [if_neg hsame, if_neg (not_not_intro hfolder)]
  by_cases hlong : (newName.map List.length).getD 0 > DZFS_MAX_FILENAME
  · rw [if_pos hlong, if_pos (Or.inr (Or.inr (Or.inl hlong)))]
    exact ⟨rfl, rfl⟩
  rw [if_neg hlong]
  change (if replaced fs d new newName ≠ 0 then _ else _ : DzfsResult × Dzfs).2 = fs ∧ _
  rcases h with h | ⟨hrep, hfull⟩ | ⟨hrep, htype, hchild⟩
  · exact absurd h hlong
  · have henter : ∀ b, enterNewParent fs d old new newName b = (.ERR_LIMIT, fs) := by
      intro b
      unfold enterNewParent
      exact if_pos hfull
    rw [if_neg (not_not_intro hrep), if_pos (Or.inr (Or.inr (Or.inr (Or.inl hrep)))), henter]
    exact ⟨rfl, rfl⟩
  · obtain ⟨hr, hfs⟩ := dzfsDelete_refused (p := new) (Or.inr (Or.inr ⟨htype, hchild⟩))
    rw [if_pos hrep, if_pos (Or.inr (Or.inr (Or.inr (Or.inr hr))))]
    rw [replaced] at hr hfs
    refine ⟨?_, rfl⟩
    split
    · rename_i hok
      rw [hok] at hr
      exact absurd rfl hr
    · rename_i hfail
      rw [hfail] at hfs
      exact hfs

section
variable {fs fs' : Dzfs} {E : Finset Nat} {ls : Nat → List Nat}

section

variable {path : List UInt8} {relativeTo : Nat} {out : OpenOut} (h : Tree fs E ls)
  (hrel : relativeTo ∈ E ∧ entityType (fs.disk relativeTo) = DZFS_ENTITY_FOLDER)
  (hname : NewNameFits fs path relativeTo flags)
  (ho : dzfsOpenRelative fs flags date path relativeTo = (out, fs'))

include h hrel hname ho

/-- An open changes nothing, or it creates an entity. The tree makes `..` lead to folders. -/
theorem Tree.openRelative_creation :
    (fs' = fs ∧ (out.result = .OK → ∃ n ∈ E, out.dnode = some n)) ∨
      ∃ cur n name, pathEnd fs path relativeTo = .missing cur name ∧
        createdName fs path relativeTo flags = some name ∧
        (cur ∈ E ∧ entityType (fs.disk cur) = DZFS_ENTITY_FOLDER) ∧
        out = ⟨.OK, some n, some cur⟩ ∧ Creation fs fs' E ls cur n name flags date := by
  refine dzfsOpenRelative_creation h.toInv hrel hname ?_ ho
  exact upFolders_of_goUp (P := fun f => f ∈ E ∧ entityType (fs.disk f) = DZFS_ENTITY_FOLDER)
    (fun f hf => h.goUp_folder hf) ⟨h.root_mem, h.root_folder⟩ hrel

theorem Tree.openRelative : ∃ ls', Tree fs' (entitiesAfterOpen E out) ls' := by
  rcases h.openRelative_creation hrel hname ho with
    ⟨rfl, hok⟩ | ⟨cur, n, name, -, -, hcur, rfl, hc⟩
  · rw [entitiesAfterOpen_same hok]
    exact ⟨ls, h⟩
  · exact ⟨_, h.create hcur.1 hc⟩

end

end

/-- A call that is `TreeOk` keeps the tree. -/
theorem exec_tree (h : Tree s.fs s.entities ls) {c : Call} (hc : TreeOk s c) :
    ∃ ls', Tree (exec s c).fs (exec s c).entities ls' := by
  cases c with
  | openRelative path relativeTo flags date =>
    rcases ho : dzfsOpenRelative s.fs flags date path relativeTo with ⟨out, fs'⟩
    rw [exec_openRelative ho]
    exact h.openRelative hc.1 hc.2 ho
  | openAbsolute path flags date =>
    rcases exec_openAbsolute h.root_mem path flags date with hexec | ⟨rest, rfl, hexec⟩
    · rw [hexec]
      exact ⟨ls, h⟩
    · rcases ho : dzfsOpenRelative s.fs flags date rest s.fs.rootDnode with ⟨out, fs'⟩
      rw [hexec, exec_openRelative ho]
      have hname : NewNameFits s.fs rest s.fs.rootDnode flags := by
        rw [NewNameFits, ← createdName_slash s.fs rest s.fs.rootDnode]
        exact hc rfl
      exact h.openRelative ⟨h.root_mem, h.root_folder⟩ hname ho
  | write dnode data offset => exact ⟨ls, h.write hc.1 hc.2⟩
  | delete dnode parentDnode =>
    have hf := hc.2.inFolder h.toInv hc.1
    rcases hd : dzfsDelete s.fs dnode parentDnode with ⟨r, fs'⟩
    simp only [exec, hd]
    rcases dzfsDelete_unlinked h.toInv hf hd with ⟨rfl, hr⟩ | ⟨rfl, hu⟩
    · rw [if_neg hr]
      exact ⟨ls, h⟩
    · rw [if_pos rfl]
      obtain ⟨l, hperm, hinv⟩ := hu.inv
      exact ⟨_, h.delete hf hu hperm hinv⟩
  | move dnode oldParent newParent newName =>
    obtain ⟨⟨hold, hnew, hlisted, hnul⟩, hcase⟩ := hc
    have hin := hlisted.inFolder h.toInv hold
    by_cases hrefused : MoveRefused s.fs dnode newParent newName
    · obtain ⟨hfs, hE⟩ := dzfsMove_refused s.entities oldParent hnew.2 hrefused
      simp only [exec, hfs, hE]
      exact ⟨ls, h⟩
    have hcase : oldParent = newParent ∨ entityType (s.fs.disk dnode) = DZFS_ENTITY_FILE := by
      rcases hcase with heq | hfile | hno
      · exact Or.inl heq
      · exact Or.inr hfile
      · exact absurd hno hrefused
    -- The entity is neither of the folders: a folder does not list itself.
    have hself : dnode ≠ oldParent := by
      rintro rfl
      exact h.not_mem_self hin.mem hin.listed
    have hsafe : newName.isSome → dnode ≠ oldParent ∧ dnode ≠ newParent := by
      intro _
      refine ⟨hself, ?_⟩
      rcases hcase with rfl | hfile
      · exact hself
      · rintro rfl
        exact file_ne_folder hfile hnew.2
    simp only [exec]
    rcases dzfsMove_cases h.toInv hin hnew.1 hnew.2 newName hnul hsafe with
      ⟨hfs, hE⟩ | ⟨hmoved, hE⟩ | ⟨e, l, he, hed, hu, hperm, hinv, hin', hmoved, hE⟩
    · rw [hfs, hE]
      exact ⟨ls, h⟩
    · rw [hE]
      exact h.moved hin hnew.1 hnew.2 hmoved hcase
    · have htree := h.delete ⟨hnew.1, hnew.2, he⟩ hu hperm hinv
      rw [hE]
      refine htree.moved hin' (Finset.mem_erase.mpr ⟨hu.ne.symm, hnew.1⟩) hu.type hmoved ?_
      refine hcase.imp_right fun hfile => ?_
      have hdn : dnode ≠ newParent := by
        rintro rfl
        exact file_ne_folder hfile hnew.2
      rw [hu.disk dnode (Or.inr (h.root_le (h.entity_of_listed hin.listed).1)) hdn]
      exact hfile

/-! ### Runs -/

/-- The root folder of a formatted disk is a tree. -/
theorem Formatted.tree (h : Formatted fs) : Tree fs {fs.rootDnode} fun _ => [] := by
  have hinv := h.inv
  obtain ⟨date, hblock⟩ := h.root
  refine ⟨hinv, ?_, fun f n hn => ?_, fun n hn => ?_⟩
  · rw [hblock, folderParent, rootFolder, Bytes.getLE_setLE_self]
    exact Nat.mod_eq_of_lt (hinv.lt_word hinv.root_mem)
  · cases hn
  · rw [Finset.mem_singleton.mp hn]
    exact Under.refl _ _

/-- The folders of the state are a tree, and the fields `parent` agree with it. -/
structure DirTree (s : FsState) : Prop where
  listed : ∀ n ∈ s.entities, n ≠ s.fs.rootDnode → ∃! f, IsFolder s f ∧ ListedIn s n f
  parent : ∀ f n, IsFolder s f → IsFolder s n → ListedIn s n f → folderParent (s.fs.disk n) = f
  ascend : ∀ n, IsFolder s n →
    ∃ k, (fun f => folderParent (s.fs.disk f))^[k] n = s.fs.rootDnode
  up : ∀ f n flags date, IsFolder s f → IsFolder s n → ListedIn s n f →
    (dzfsOpenRelative s.fs flags date [DOT, DOT] n).1
      = ⟨.OK, some f, some (folderParent (s.fs.disk f))⟩
  reached : ∀ n ∈ s.entities,
    Relation.ReflTransGen (fun f m => IsFolder s f ∧ ListedIn s m f) s.fs.rootDnode n

/-- The path `..` leads to the folder that `goUp` names. -/
theorem open_up (flags : UInt32) (date : UInt64) {n : Nat} (hn : n ≠ 0) :
    (dzfsOpenRelative fs flags date [DOT, DOT] n).1
      = ⟨.OK, some (goUp fs n), some (folderParent (fs.disk (goUp fs n)))⟩ := by
  have hopen : dzfsOpenRelative fs flags date [DOT, DOT] n
      = openFrom fs [DOT, DOT] n flags date := rfl
  have hparts : parts [DOT, DOT] = [[DOT, DOT]] := by decide
  rw [hopen, openFrom_eq fs flags date _ hn, hparts, resolve_up]
  rfl

theorem Tree.dirTree (h : Tree s.fs s.entities ls) : DirTree s := by
  have hlist : ∀ {f n}, n ∈ ls f → IsFolder s f ∧ ListedIn s n f := by
    intro f n hn
    have hf := h.folder_of_listed hn
    exact ⟨hf, (h.listedIn_iff hf).mpr hn⟩
  refine ⟨fun n hn hroot => ?_, fun f n hf hn hmem => ?_, fun n hn => ?_,
    fun f n flags date hf hn hmem => ?_, fun n hn => ?_⟩
  · obtain ⟨f, -, hf⟩ := (h.under n hn).cases_child.resolve_left hroot
    refine ⟨f, hlist hf, fun g hg => ?_⟩
    exact h.listing.owns.inj g f n ((h.listedIn_iff hg.1).mp hg.2) hf
  · exact h.parent f n ((h.listedIn_iff hf).mp hmem) hn.2
  · exact (h.under n hn.1).ascend (fun f m hm => (h.folder_of_listed hm).2) h.parent hn.2
  · rw [open_up flags date (h.ne_zero hn.1), h.goUp_eq ((h.listedIn_iff hf).mp hmem) hn.2]
  · exact Relation.ReflTransGen.mono (fun f m hm => hlist hm) _ _ (h.under n hn)

/-- Every state of a run of calls that are `TreeOk` has a tree. -/
theorem Reachable.tree {disk : Nat → Bytes} {blocks : Nat} (hle : blocks ≤ formatLimit)
    (hnew : dzfsNew disk blocks date = (.OK, fs)) (hs : Reachable TreeOk (newState fs) s) :
    ∃ ls, Tree s.fs s.entities ls := by
  induction hs with
  | start => exact ⟨_, (dzfsNew_formatted hle hnew).tree⟩
  | call c _ hc ih =>
    obtain ⟨ls, h⟩ := ih
    exact exec_tree h hc

/-- Every state of a run of calls that are `TreeOk` has a tree of folders. -/
theorem directory_tree {disk : Nat → Bytes} {blocks : Nat} {date : UInt64} {fs : Dzfs}
    (hle : blocks ≤ formatLimit) (hnew : dzfsNew disk blocks date = (.OK, fs)) {s : FsState}
    (hs : Reachable TreeOk (newState fs) s) : DirTree s := by
  obtain ⟨ls, h⟩ := hs.tree hle hnew
  exact h.dirTree

/-- The folders `a` and `a/b` and the file `f`, which moves to `a/b`. -/
def nestedCalls : List Call :=
  [.openRelative [97] 3 3 0, .openAbsolute [47, 97, 47, 98] 3 0, .openRelative [102] 3 1 0,
    .move 6 3 5 none]

theorem directory_tree_nested : DirTree (nestedCalls.foldl exec (newState formattedDisk)) :=
  directory_tree (show 32768 ≤ formatLimit by decide) formattedDisk_new
    (OkRun.reachable .start (show OkRun TreeOk (newState formattedDisk) nestedCalls by
      decide +kernel))

/-- The folder `a/b` moves up to the root folder. -/
def moveUpCalls : List Call :=
  [.openRelative [97] 3 3 0, .openAbsolute [47, 97, 47, 98] 3 0, .move 5 4 3 none]

/-- After these valid calls, the root folder lists the folder `b`, whose parent is still `a`. -/
theorem staleParent_not_tree :
    Reachable Valid (newState formattedDisk) (moveUpCalls.foldl exec (newState formattedDisk)) ∧
      ¬ DirTree (moveUpCalls.foldl exec (newState formattedDisk)) := by
  have hrun : ValidRun (newState formattedDisk) moveUpCalls := by decide +kernel
  refine ⟨hrun.reachable .start, fun htree => ?_⟩
  have hroot : IsFolder (moveUpCalls.foldl exec (newState formattedDisk)) 3 := by decide +kernel
  have hb : IsFolder (moveUpCalls.foldl exec (newState formattedDisk)) 5 := by decide +kernel
  have hlisted : ListedIn (moveUpCalls.foldl exec (newState formattedDisk)) 5 3 := by
    decide +kernel
  have hparent : folderParent ((moveUpCalls.foldl exec (newState formattedDisk)).fs.disk 5)
      = 4 := by decide +kernel
  exact absurd (hparent.symm.trans (htree.parent 3 5 hroot hb hlisted)) (by decide)

end DzOS.Proofs.Fs
