import DzOS.Proofs.Fs.Runs

/-!
# `DzOS.Proofs.Fs.Directory`: the listing of a folder

`FolderLaw fs f children` states that the folder `f` lists the dnodes `children`, once each and
without a gap, and that the functions which go through its entries agree on them: `dzfsReadDir`
reports them one after the other, `dzfsStat` counts them, and `folderRemoveContent` takes one of
them out and keeps the others.

The law holds of every folder in every state of a run of valid and safe calls (`folder_listing`).
A move with a new name that moves a folder into or out of itself breaks it: `selfMoveCalls` ends
with a root folder that lists one folder twice.
-/

set_option autoImplicit false

namespace DzOS.Proofs.Fs

open DzOS.Lib DzOS.Fs

/-- The folder `f` lists the dnodes `children`, and every function that goes through its entries
sees them. -/
structure FolderLaw (fs : Dzfs) (f : Nat) (children : List Nat) : Prop where
  nodup : children.Nodup
  lists : Lists (fs.disk f) children
  readDir : ∀ (offset : Nat) (h : offset < children.length),
    dzfsReadDir fs f offset = (.OK, some (dzfsStat fs children[offset]).2)
  readDir_end : ∀ offset, children.length ≤ offset → dzfsReadDir fs f offset = (.ERR_LIMIT, none)
  stat : ∃ stat, dzfsStat fs f = (.OK, stat) ∧ stat.size = children.length
  remove : ∀ d ∈ children, ∃ b rest, folderRemoveContent (fs.disk f) d = some b ∧
    Lists b rest ∧ rest.Perm (children.erase d) ∧ ∀ i < 268, b i = fs.disk f i
  remove_other : ∀ d ≠ 0, d ∉ children → folderRemoveContent (fs.disk f) d = none

section
variable {fs : Dzfs} {E : Finset Nat} {ls : Nat → List Nat} {f : Nat}

theorem dzfsStat_ok {d : Nat} (h : entityType (fs.disk d) = DZFS_ENTITY_FILE ∨
    entityType (fs.disk d) = DZFS_ENTITY_FOLDER) : (dzfsStat fs d).1 = .OK := by
  unfold dzfsStat
  simp only [Dzfs.readBlock]
  split
  · rfl
  · rename_i hfile
    rw [if_pos (h.resolve_left hfile)]

/-- One call of `dzfsReadDir`. -/
theorem Lists.readDir {l : List Nat} (h : Lists (fs.disk f) l)
    (hfolder : entityType (fs.disk f) = DZFS_ENTITY_FOLDER) (offset : Nat) :
    dzfsReadDir fs f offset = if offset < l.length then
      ((dzfsStat fs (l.getD offset 0)).1, some (dzfsStat fs (l.getD offset 0)).2)
      else (.ERR_LIMIT, none) := by
  unfold dzfsReadDir
  simp only [Dzfs.readBlock]
  rw [if_neg (not_not_intro hfolder)]
  have hle := h.length_le
  by_cases hbig : offset ≥ DZFS_MAX_DIR_CONTENTS
  · rw [if_pos hbig, if_neg (by omega)]
  · rw [if_neg hbig, h.word offset (not_le.mp hbig)]
    by_cases hlt : offset < l.length
    · have hne : l.getD offset 0 ≠ 0 := by
        intro hz
        exact absurd ((h.getD_eq_zero offset).mp hz) (not_le.mpr hlt)
      rw [if_neg hne, if_pos hlt]
    · rw [if_pos ((h.getD_eq_zero offset).mpr (not_lt.mp hlt)), if_neg hlt]

/-- In the invariant, the folder `f` lists `ls f`. -/
theorem Inv.folderLaw (h : Inv fs E ls) (hf : f ∈ E)
    (hfolder : entityType (fs.disk f) = DZFS_ENTITY_FOLDER) : FolderLaw fs f (ls f) := by
  have hlists := h.lists f hf hfolder
  refine ⟨h.listing.nodup f, hlists, fun offset hlt => ?_, fun offset hge => ?_, ?_,
    fun d hd => hlists.remove hd, fun d hd hno => ?_⟩
  · have hchild := (h.entity_of_listed (List.getElem_mem hlt)).1
    rw [hlists.readDir hfolder, if_pos hlt, List.getD_eq_getElem _ _ hlt,
      dzfsStat_ok (h.typed _ hchild)]
  · rw [hlists.readDir hfolder, if_neg (not_lt.mpr hge)]
  · refine ⟨_, Prod.ext (dzfsStat_ok (Or.inr hfolder)) rfl, ?_⟩
    unfold dzfsStat
    simp only [Dzfs.readBlock]
    rw [if_neg (fun hfile => file_ne_folder hfile hfolder), if_pos hfolder]
    exact hlists.count
  · rw [folderRemoveContent_eq_none, hlists.mem_iff hd]
    exact hno

end

/-- In every state of a run of valid and safe calls from a disk that `dzfsNew` formatted, the
listing of every folder is complete and has no duplicates. -/
theorem folder_listing {disk : Nat → Bytes} {blocks : Nat} {date : UInt64} {fs : Dzfs}
    (hle : blocks ≤ formatLimit) (hnew : dzfsNew disk blocks date = (.OK, fs)) {s : FsState}
    (hs : Reachable (fun s c => Valid s c ∧ Safe s c) (newState fs) s) {f : Nat}
    (hf : IsFolder s f) : ∃ children, FolderLaw s.fs f children := by
  obtain ⟨ls, hinv⟩ := hs.inv hle hnew
  exact ⟨ls f, hinv.folderLaw hf.1 hf.2⟩

/-- The folder `a` of a used disk: it lists the file `b`, and the root folder beside it the
file `c`. -/
theorem folder_listing_threeEntities :
    ∃ children, FolderLaw (threeEntityCalls.foldl exec (newState formattedDisk)).fs 4 children :=
  folder_listing (show 32768 ≤ formatLimit by decide) formattedDisk_new
    (OkRun.reachable .start (show OkRun (fun s c => Valid s c ∧ Safe s c)
      (newState formattedDisk) threeEntityCalls by decide +kernel))
    (by decide +kernel)

/-- The folder `a` moves into itself, and then out of itself to the root folder with a new
name, twice: that move writes its block as it was before the move, with the entry for itself. -/
def selfMoveCalls : List Call :=
  [.openRelative [97] 3 3 0, .move 4 3 4 none, .move 4 4 3 (some [122]), .move 4 4 3 (some [119])]

/-- After these valid calls the root folder lists the folder twice. -/
theorem selfMove_lists_twice :
    Reachable Valid (newState formattedDisk) (selfMoveCalls.foldl exec (newState formattedDisk)) ∧
      IsFolder (selfMoveCalls.foldl exec (newState formattedDisk)) 3 ∧
      ¬ ∃ children,
        FolderLaw (selfMoveCalls.foldl exec (newState formattedDisk)).fs 3 children := by
  have hrun : ValidRun (newState formattedDisk) selfMoveCalls := by decide +kernel
  refine ⟨hrun.reachable .start, by decide +kernel, ?_⟩
  rintro ⟨children, hlaw⟩
  have hcount : folderContentCount
      ((selfMoveCalls.foldl exec (newState formattedDisk)).fs.disk 3) = 2 := by decide +kernel
  have hfirst : contentDnode
      ((selfMoveCalls.foldl exec (newState formattedDisk)).fs.disk 3) 0 = 4 := by decide +kernel
  have hsecond : contentDnode
      ((selfMoveCalls.foldl exec (newState formattedDisk)).fs.disk 3) 1 = 4 := by decide +kernel
  obtain ⟨x, y, rfl⟩ := List.length_eq_two.mp (hlaw.lists.count.symm.trans hcount)
  rw [hlaw.lists.word 0 (by decide)] at hfirst
  rw [hlaw.lists.word 1 (by decide)] at hsecond
  obtain rfl : x = 4 := hfirst
  obtain rfl : y = 4 := hsecond
  exact absurd hlaw.nodup (by decide)

end DzOS.Proofs.Fs
