import DzOS.Proofs.Fs.Directory
import DzOS.Proofs.Fs.NewEntity
import DzOS.Proofs.Fs.Tree

/-!
# `DzOS.Proofs.Fs.Names`: entries that can be opened by their names

`dzfsReadDir` reports the entries of a folder with their names, and `dzfsOpenRelative` takes such
a name as a path. `NameLaw` states that the names of a folder are pairwise different and that
each of them leads to its entry.

The walk down a path treats the empty path, `.` and `..` in a special way, but only in front of
all names. Behind a name it creates entities that are called so, and these cannot be opened from
their folder (`upName_not_opened`). Apart from that, the law holds after any run of opens.
-/

set_option autoImplicit false

namespace DzOS.Proofs.Fs

open DzOS.Lib DzOS.Fs

variable {ls : Nat → List Nat} {nm : Nat → List UInt8} {s : FsState}

/-! ### Names -/

/-- A path of one part, which is neither `.` nor `..` and fits in a header. -/
structure GoodName (name : List UInt8) : Prop where
  ne_nil : name ≠ []
  ne_dot : name ≠ [DOT]
  ne_up : name ≠ [DOT, DOT]
  no_slash : SLASH ∉ name
  no_nul : 0 ∉ name
  length_le : name.length ≤ DZFS_MAX_FILENAME

/-- The name in a record of `dzfsReadDir`. -/
def statName (stat : DzfsStat) : List UInt8 := stat.name.takeWhile (· ≠ 0)

section
variable {fs : Dzfs} {b b' : Bytes} {name : List UInt8}

/-- A name depends on the header only. -/
theorem nameMatches_congr (h : ∀ i < SIZE_OFFSET, b' i = b i)
    (hlen : name.length ≤ DZFS_MAX_FILENAME) : nameMatches b' name = nameMatches b name := by
  simp only [DZFS_MAX_FILENAME] at hlen
  simp only [SIZE_OFFSET] at h
  have hslice : b'.slice 1 name.length = b.slice 1 name.length := by
    refine List.ext_getElem (by simp) fun i hi _ => ?_
    rw [Bytes.length_slice] at hi
    rw [Bytes.getElem_slice, Bytes.getElem_slice]
    exact h _ (by omega)
  have hnul : b' (1 + name.length) = b (1 + name.length) := h _ (by omega)
  unfold nameMatches
  rw [hslice, hnul]

theorem dzfsStat_name (fs : Dzfs) (d : Nat) :
    (dzfsStat fs d).2.name = (fs.disk d).slice 1 (DZFS_MAX_FILENAME + 1) ∧
      (dzfsStat fs d).2.dnode = d := by
  unfold dzfsStat
  simp only
  split
  · exact ⟨rfl, rfl⟩
  · split
    · exact ⟨rfl, rfl⟩
    · exact ⟨rfl, rfl⟩

/-- The record of an entity has its name. -/
theorem statName_of_matches (hno : 0 ∉ name) (hlen : name.length ≤ DZFS_MAX_FILENAME) {d : Nat}
    (h : nameMatches (fs.disk d) name = true) : statName (dzfsStat fs d).2 = name := by
  simp only [nameMatches, decide_eq_true_eq] at h
  obtain ⟨hslice, hnul⟩ := h
  obtain ⟨k, hk⟩ := Nat.exists_eq_add_of_le hlen
  have hsplit : (fs.disk d).slice 1 (DZFS_MAX_FILENAME + 1)
      = name ++ 0 :: (fs.disk d).slice (1 + name.length + 1) k := by
    rw [hk, Nat.add_assoc, Bytes.slice_add, hslice, Bytes.slice_succ, hnul]
  rw [statName, (dzfsStat_name fs d).1, hsplit, List.takeWhile_append_of_pos]
  · simp
  · intro c hc
    rw [decide_eq_true_eq]
    rintro rfl
    exact hno hc

end

/-! ### The invariant -/

/-- The tree of folders, and every listed entity has a name `nm` that no other entity of its
folder has. -/
structure Named (fs : Dzfs) (E : Finset Nat) (ls : Nat → List Nat) (nm : Nat → List UInt8) : Prop
    extends Tree fs E ls where
  good : ∀ f n, n ∈ ls f → GoodName (nm n)
  named : ∀ f n, n ∈ ls f → nameMatches (fs.disk n) (nm n) = true
  distinct : ∀ f n m, n ∈ ls f → m ∈ ls f → nm n = nm m → n = m

section
variable {fs fs' : Dzfs} {E : Finset Nat} {ls : Nat → List Nat} {nm : Nat → List UInt8}
  {f n cur : Nat} {name : List UInt8}

/-- The lookup of a name finds its entity. -/
theorem Named.lookup (h : Named fs E ls nm) (hn : n ∈ ls f) :
    folderLookupName fs (fs.disk f) (nm n) = n := by
  obtain ⟨hf, hfolder⟩ := h.folder_of_listed hn
  have hlists := h.lists f hf hfolder
  have hne := hlists.lookup_ne_zero hn (h.named f n hn)
  have hmem := hlists.lookup_mem hne
  have hmatch := lookupFrom_matches fs (fs.disk f) (nm n) DZFS_MAX_DIR_CONTENTS 0 hne
  change nameMatches (fs.disk (folderLookupName fs (fs.disk f) (nm n))) (nm n) = true at hmatch
  have hgood := h.good f n hn
  have hgood' := h.good f _ hmem
  have hheader := headerName_of_matches hgood.no_nul hgood.length_le hmatch
  rw [headerName_of_matches hgood'.no_nul hgood'.length_le (h.named f _ hmem)] at hheader
  exact h.distinct f _ n hmem hn hheader

/-- The name of an entity, as a path from its folder, leads to the entity. -/
theorem Named.open_name (h : Named fs E ls nm) (hn : n ∈ ls f) (flags : UInt32)
    (date : UInt64) : dzfsOpenRelative fs flags date (nm n) f = (⟨.OK, some n, some f⟩, fs) := by
  have hgood := h.good f n hn
  have hf := h.ne_zero (h.folder_of_listed hn).1
  have hne := h.ne_zero (h.entity_of_listed hn).1
  have hlookup := h.lookup hn
  generalize nm n = name at hgood hlookup
  have hstart : openStart fs name f = (f, name) := by
    cases hname : name with
    | nil => rfl
    | cons c rest =>
      refine openStart_of_ne fs ?_ rest f
      rintro rfl
      exact hgood.no_slash (by simp [hname])
  have hend : pathEnd fs name f = .found f n := by
    rw [pathEnd, hstart, parts_of_not_mem hgood.ne_nil hgood.no_slash, resolve,
      if_neg hgood.ne_dot, if_neg hgood.ne_up, walkParts_singleton, hlookup, if_neg hne]
  rw [dzfsOpenRelative_eq (h.ne_zero h.root_mem) flags date name hf, hstart, hend]
  rw [if_neg fun hnil => hgood.ne_nil hnil.2]
  rfl

/-- A new entity has a new name. -/
theorem Named.create (h : Named fs E ls nm) (hcur : cur ∈ E)
    (hfolder : entityType (fs.disk cur) = DZFS_ENTITY_FOLDER) {flags : UInt32} {date : UInt64}
    (hc : Creation fs fs' E ls cur n name flags date) (hgood : GoodName name)
    (hno : folderLookupName fs (fs.disk cur) name = 0) :
    Named fs' (insert n E) (Function.update ls cur (ls cur ++ [n]))
      (Function.update nm n name) := by
  have hmem := fun g m => mem_update_append ls cur n (g := g) (m := m)
  have hold : ∀ g m, m ∈ ls g → m ≠ n := by
    rintro g m hm rfl
    exact hc.not_mem (h.entity_of_listed hm).1
  have hnm : ∀ g m, m ∈ ls g → Function.update nm n name m = nm m := fun g m hm =>
    Function.update_of_ne (hold g m hm) _ _
  have hself : Function.update nm n name n = name := Function.update_self _ _ _
  -- No entity of the folder has the name: the lookup would find it.
  have hnew : ∀ m, m ∈ ls cur → nm m ≠ name := by
    rintro m hm rfl
    exact (h.lists cur hcur hfolder).lookup_ne_zero hm (h.named cur m hm) hno
  refine ⟨h.toTree.create hcur hc, fun g m hm => ?_, fun g m hm => ?_, fun g m k hm hk heq => ?_⟩
  · rcases (hmem g m).mp hm with hm | ⟨-, rfl⟩
    · rw [hnm g m hm]
      exact h.good g m hm
    · rw [hself]
      exact hgood
  · rcases (hmem g m).mp hm with hm | ⟨-, rfl⟩
    · have hlen := (h.good g m hm).length_le
      have hmE := (h.entity_of_listed hm).1
      rw [hnm g m hm, nameMatches_congr
        (fun i hi => hc.header_eq h.toInv hmE (hi.trans (by decide))) hlen]
      exact h.named g m hm
    · rw [hself, hc.block]
      exact newDnode_name hgood.length_le cur flags date
  · rw [hmem] at hm hk
    rcases hm with hm | ⟨hg, hmn⟩ <;> rcases hk with hk | ⟨hg', hkn⟩
    · rw [hnm g m hm, hnm g k hk] at heq
      exact h.distinct g m k hm hk heq
    · rw [hnm g m hm, hkn, hself] at heq
      exact absurd heq (hnew m (hg' ▸ hm))
    · rw [hnm g k hk, hmn, hself] at heq
      exact absurd heq.symm (hnew k (hg ▸ hk))
    · rw [hmn, hkn]

end

/-! ### Runs -/

/-- Opens from a folder, with parts that fit, which create no entity that is called `.` or `..`
or has no name. -/
def NameOk (s : FsState) : Call → Prop
  | .openRelative path relativeTo flags _ =>
    (IsFolder s relativeTo ∧ Fits path ∧ 0 ∉ path) ∧
      ∀ name ∈ createdName s.fs path relativeTo flags,
        name ≠ [] ∧ name ≠ [DOT] ∧ name ≠ [DOT, DOT]
  | _ => False

instance (s : FsState) (c : Call) : Decidable (NameOk s c) :=
  match c with
  | .openRelative path relativeTo flags _ =>
    inferInstanceAs (Decidable ((_ ∧ _ ∧ (0 : UInt8) ∉ path) ∧
      ∀ name ∈ createdName s.fs path relativeTo flags, _))
  | .openAbsolute _ _ _ => isFalse id
  | .write _ _ _ => isFalse id
  | .delete _ _ => isFalse id
  | .move _ _ _ _ => isFalse id

/-- The entries of every folder have different names, and each can be opened by its name. -/
structure NameLaw (s : FsState) : Prop where
  distinct : ∀ f i j stat stat', IsFolder s f → dzfsReadDir s.fs f i = (.OK, some stat) →
    dzfsReadDir s.fs f j = (.OK, some stat') → statName stat = statName stat' → i = j
  opens : ∀ f i stat date, IsFolder s f → dzfsReadDir s.fs f i = (.OK, some stat) →
    dzfsOpenRelative s.fs 0 date (statName stat) f = (⟨.OK, some stat.dnode, some f⟩, s.fs)

/-- A call that is `NameOk` keeps the names. -/
theorem exec_named (h : Named s.fs s.entities ls nm) {c : Call} (hc : NameOk s c) :
    ∃ ls' nm', Named (exec s c).fs (exec s c).entities ls' nm' := by
  cases c with
  | openRelative path relativeTo flags date =>
    obtain ⟨⟨hrel, hfits, hnul⟩, hnames⟩ := hc
    rcases ho : dzfsOpenRelative s.fs flags date path relativeTo with ⟨out, fs'⟩
    rw [exec_openRelative ho]
    rcases h.openRelative_creation hrel hfits.newNameFits ho with
      ⟨rfl, hok⟩ | ⟨cur, n, name, hend, hcreated, hcur, rfl, hnew⟩
    · rw [entitiesAfterOpen_same hok]
      exact ⟨ls, nm, h⟩
    · obtain ⟨hlast, hno⟩ := pathEnd_missing hend
      have hpart := List.mem_of_getLast? hlast
      obtain ⟨hnil, hdot, hup⟩ := hnames name hcreated
      have hgood : GoodName name := ⟨hnil, hdot, hup, fun hs => (mem_parts hpart hs).2 rfl,
        fun hz => hnul (mem_parts hpart hz).1, hfits.parts hpart⟩
      exact ⟨_, _, h.create hcur.1 hcur.2 hnew hgood hno⟩
  | openAbsolute path flags date => exact hc.elim
  | write dnode data offset => exact hc.elim
  | delete dnode parentDnode => exact hc.elim
  | move dnode oldParent newParent newName => exact hc.elim

theorem Named.nameLaw (h : Named s.fs s.entities ls nm) : NameLaw s := by
  -- A record that `dzfsReadDir` fills is that of a listed entity.
  have hentry : ∀ {f i stat}, IsFolder s f → dzfsReadDir s.fs f i = (.OK, some stat) →
      ∃ hi : i < (ls f).length, statName stat = nm (ls f)[i] ∧ stat.dnode = (ls f)[i] := by
    intro f i stat hf hread
    rw [(h.lists f hf.1 hf.2).readDir hf.2] at hread
    split at hread
    · rename_i hi
      have hmem := List.getElem_mem hi
      have hgood := h.good f _ hmem
      rw [List.getD_eq_getElem _ _ hi] at hread
      obtain rfl := Option.some.inj (Prod.mk.inj hread).2
      exact ⟨hi, statName_of_matches hgood.no_nul hgood.length_le (h.named f _ hmem),
        (dzfsStat_name s.fs _).2⟩
    · cases hread
  constructor
  · intro f i j stat stat' hf hi hj heq
    obtain ⟨hilt, hname, -⟩ := hentry hf hi
    obtain ⟨hjlt, hname', -⟩ := hentry hf hj
    rw [hname, hname'] at heq
    have hsame := h.distinct f _ _ (List.getElem_mem hilt) (List.getElem_mem hjlt) heq
    exact (h.listing.nodup f).getElem_inj_iff.mp hsame
  · intro f i stat date hf hi
    obtain ⟨hilt, hname, hdnode⟩ := hentry hf hi
    rw [hname, hdnode]
    exact h.open_name (List.getElem_mem hilt) 0 date

/-- In every state of a run of opens that are `NameOk`, every entry can be opened by its name. -/
theorem entries_open_by_name {disk : Nat → Bytes} {blocks : Nat} {date : UInt64} {fs : Dzfs}
    (hle : blocks ≤ formatLimit) (hnew : dzfsNew disk blocks date = (.OK, fs)) {s : FsState}
    (hs : Reachable NameOk (newState fs) s) : NameLaw s := by
  have hnamed : ∃ ls nm, Named s.fs s.entities ls nm := by
    induction hs with
    | start =>
      have hnone : ∀ n, n ∉ ([] : List Nat) := fun n => List.not_mem_nil
      exact ⟨_, fun _ => [], (dzfsNew_formatted hle hnew).tree, fun _ n hn => absurd hn (hnone n),
        fun _ n hn => absurd hn (hnone n), fun _ n _ hn => absurd hn (hnone n)⟩
    | call c _ hc ih =>
      obtain ⟨ls, nm, h⟩ := ih
      exact exec_named h hc
  obtain ⟨ls, nm, h⟩ := hnamed
  exact h.nameLaw

/-- The folder `a`, the file `a/..b` and, with a slash at its end, the folder `a/c`. -/
def namedCalls : List Call :=
  [.openRelative [97] 3 3 0, .openRelative [97, 47, 46, 46, 98] 3 1 0,
    .openRelative [46, 47, 99, 47] 4 3 0]

theorem entries_open_by_name_run : NameLaw (namedCalls.foldl exec (newState formattedDisk)) :=
  entries_open_by_name (show 32768 ≤ formatLimit by decide) formattedDisk_new
    (OkRun.reachable .start (show OkRun NameOk (newState formattedDisk) namedCalls by
      decide +kernel))

/-- The folder `a`, and then a file with the path `a/..`. -/
def upNameCalls : List Call := [.openRelative [97] 3 3 0, .openRelative [97, 47, 46, 46] 3 1 0]

/-- After these valid calls, the folder `a` has an entry `..`, which that path does not open. -/
theorem upName_not_opened :
    Reachable Valid (newState formattedDisk) (upNameCalls.foldl exec (newState formattedDisk)) ∧
      ¬ NameLaw (upNameCalls.foldl exec (newState formattedDisk)) := by
  have hrun : ValidRun (newState formattedDisk) upNameCalls := by decide +kernel
  refine ⟨hrun.reachable .start, fun hlaw => ?_⟩
  have hfolder : IsFolder (upNameCalls.foldl exec (newState formattedDisk)) 4 := by
    decide +kernel
  have hread : dzfsReadDir (upNameCalls.foldl exec (newState formattedDisk)).fs 4 0
      = (.OK, some (dzfsStat (upNameCalls.foldl exec (newState formattedDisk)).fs 5).2) := by
    decide +kernel
  have hname : statName (dzfsStat (upNameCalls.foldl exec (newState formattedDisk)).fs 5).2
      = [DOT, DOT] := by decide +kernel
  have hopen := congrArg Prod.fst (hlaw.opens 4 0 _ 0 hfolder hread)
  rw [hname, open_up 0 0 (by decide)] at hopen
  obtain ⟨-, hdnode, -⟩ := OpenOut.mk.inj hopen
  revert hdnode
  decide +kernel

end DzOS.Proofs.Fs
