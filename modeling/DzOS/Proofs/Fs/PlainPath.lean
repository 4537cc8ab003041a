import DzOS.Proofs.Fs.UniqueNames

/-!
# `DzOS.Proofs.Fs.PlainPath`: a path is a walk down a tree of names

A plain path has names between its slashes, and no `.` or `..` (`PlainPath`). The folders with
the names of their entries are a tree with names on its edges (`Child`), and a plain path names
a walk in it: all names but the last one lead from folder to folder (`SubFolder`), and the last
one is looked up in the folder where they lead to.

`PlainLaw` states that `dzfsOpenRelative` does this walk. Without `DZFS_O_CREATE` it returns what
the walk finds and writes nothing. With it, a name that is missing at the end of the walk is
added to the tree (`Grown`), unless the folder or the disk is full.

`plain_lookup` proves the law after any creations on plain paths, deletions and moves of files.
It needs that `dzfsNew` marked the root folder as used, and for that the disk must not be too
large (`formatLimit`). The largest disks of all have no free block, and the law holds there too.
-/

set_option autoImplicit false

namespace DzOS.Proofs.Fs

open DzOS.Lib DzOS.Fs

variable {r : Nat} {c : Call} {date : UInt64} {path : List UInt8}

/-! ### Plain paths -/

/-- The path has one or more names, and each of them can be the name of an entity. -/
structure PlainPath (path : List UInt8) : Prop where
  ne_nil : parts path ≠ []
  good : ∀ name ∈ parts path, GoodName name

instance (name : List UInt8) : Decidable (GoodName name) :=
  decidable_of_iff (name ≠ [] ∧ name ≠ [DOT] ∧ name ≠ [DOT, DOT] ∧ SLASH ∉ name ∧ 0 ∉ name ∧
      name.length ≤ DZFS_MAX_FILENAME)
    ⟨fun h => ⟨h.1, h.2.1, h.2.2.1, h.2.2.2.1, h.2.2.2.2.1, h.2.2.2.2.2⟩,
      fun h => ⟨h.ne_nil, h.ne_dot, h.ne_up, h.no_slash, h.no_nul, h.length_le⟩⟩

instance (path : List UInt8) : Decidable (PlainPath path) :=
  decidable_of_iff (parts path ≠ [] ∧ ∀ name ∈ parts path, GoodName name)
    ⟨fun h => ⟨h.1, h.2⟩, fun h => ⟨h.ne_nil, h.good⟩⟩

section
variable {path : List UInt8}

/-- The parts of names with slashes between them. -/
theorem parts_intercalate {names : List (List UInt8)} (hne : names ≠ [])
    (hgood : ∀ name ∈ names, GoodName name) :
    parts ([SLASH].intercalate names) = names ∧
      parts ([SLASH].intercalate names ++ [SLASH]) = names := by
  induction names with
  | nil => exact absurd rfl hne
  | cons name names ih =>
    have hname := hgood name List.mem_cons_self
    by_cases hnil : names = []
    · subst hnil
      rw [List.intercalate_singleton]
      exact ⟨parts_of_not_mem hname.ne_nil hname.no_slash, parts_of_slash_end hname.no_slash⟩
    · obtain ⟨hrest, hrest'⟩ := ih hnil fun n hn => hgood n (List.mem_cons_of_mem _ hn)
      rw [List.intercalate_cons_of_ne_nil hnil, List.append_assoc, List.append_assoc,
        List.singleton_append, List.cons_append, parts_slash hname.no_slash,
          parts_slash hname.no_slash, hrest, hrest']
      exact ⟨rfl, rfl⟩

/-- A path is its parts with slashes between them, and maybe one slash at its end. -/
theorem intercalate_parts (hne : path ≠ []) :
    path = [SLASH].intercalate (parts path) ∨
      path = [SLASH].intercalate (parts path) ++ [SLASH] := by
  rw [parts, if_neg hne, List.intercalate_splitOn, dropSlash]
  split
  · rename_i hlast
    exact Or.inr (List.dropLast_append_getLast? SLASH hlast).symm
  · exact Or.inl rfl

/-- A plain path is a list of names with slashes between them, and maybe one slash at its end. -/
theorem plainPath_iff : PlainPath path ↔ ∃ names : List (List UInt8), names ≠ [] ∧
    (∀ name ∈ names, GoodName name) ∧
      (path = [SLASH].intercalate names ∨ path = [SLASH].intercalate names ++ [SLASH]) := by
  constructor
  · rintro ⟨hne, hgood⟩
    refine ⟨parts path, hne, hgood, intercalate_parts ?_⟩
    rintro rfl
    exact hne rfl
  · rintro ⟨names, hne, hgood, hpath⟩
    obtain ⟨hparts, hparts'⟩ := parts_intercalate hne hgood
    have heq : parts path = names := by
      rcases hpath with rfl | rfl
      · exact hparts
      · exact hparts'
    exact ⟨heq ▸ hne, heq ▸ hgood⟩

end

/-! ### The tree of names -/

/-- The folder `f` has the entry `n` with the name `name`. -/
structure Child (s : FsState) (f : Nat) (name : List UInt8) (n : Nat) : Prop where
  folder : IsFolder s f
  listed : ListedIn s n f
  name_eq : headerName (s.fs.disk n) = name

/-- The same, for an entry that is a folder. -/
def SubFolder (s : FsState) (f : Nat) (name : List UInt8) (n : Nat) : Prop :=
  Child s f name n ∧ IsFolder s n

/-- The entity `n` is new in the tree: an entry of the folder `g` with the name `name`, and a file
or a folder as `flags` say. Everything else is as before. -/
structure NewChild (s s' : FsState) (g : Nat) (name : List UInt8) (flags : UInt32) (n : Nat) :
    Prop where
  new : n ∉ s.entities
  entities : s'.entities = insert n s.entities
  type : entityType (s'.fs.disk n) =
    if flags &&& DZFS_O_DIR ≠ 0 then DZFS_ENTITY_FOLDER else DZFS_ENTITY_FILE
  types : ∀ e ∈ s.entities, entityType (s'.fs.disk e) = entityType (s.fs.disk e)
  child_iff : ∀ f nm m, Child s' f nm m ↔ Child s f nm m ∨ f = g ∧ nm = name ∧ m = n

/-- The open of a path from the folder `r` without `DZFS_O_CREATE`. The names `init` have to lead
to a folder, and `last` has to be the name of an entry of that folder. -/
structure PlainLookup (s : FsState) (r : Nat) (path : List UInt8) (flags : UInt32) (date : UInt64)
    (init : List (List UInt8)) (last : List UInt8) : Prop where
  found : ∀ n g, (dzfsOpenRelative s.fs flags date path r).1 = ⟨.OK, some n, some g⟩ ↔
    Walk (SubFolder s) r init g ∧ Child s g last n
  not_found : (¬ ∃ n g, Walk (SubFolder s) r init g ∧ Child s g last n) →
    (dzfsOpenRelative s.fs flags date path r).1.result = .ERR_NOT_FOUND
  same : (dzfsOpenRelative s.fs flags date path r).2 = s.fs

/-- The open of a path from the folder `r` with `DZFS_O_CREATE`. It creates an entity when `init`
leads to a folder without an entry `last`, unless that folder or the disk is full. -/
structure PlainCreate (s : FsState) (r : Nat) (path : List UInt8) (flags : UInt32) (date : UInt64)
    (init : List (List UInt8)) (last : List UInt8) : Prop where
  existing : ∀ n g, Walk (SubFolder s) r init g → Child s g last n →
    dzfsOpenRelative s.fs flags date path r = (⟨.OK, some n, some g⟩, s.fs)
  nowhere : (¬ ∃ g, Walk (SubFolder s) r init g) →
    (dzfsOpenRelative s.fs flags date path r).1.result = .ERR_NOT_FOUND ∧
      (dzfsOpenRelative s.fs flags date path r).2 = s.fs
  folder_full : ∀ g, Walk (SubFolder s) r init g → (∀ n, ¬ Child s g last n) →
    folderContentCount (s.fs.disk g) = DZFS_MAX_DIR_CONTENTS →
    (dzfsOpenRelative s.fs flags date path r).1.result = .ERR_LIMIT ∧
      (dzfsOpenRelative s.fs flags date path r).2 = s.fs
  disk_full : ∀ g, Walk (SubFolder s) r init g → (∀ n, ¬ Child s g last n) →
    folderContentCount (s.fs.disk g) ≠ DZFS_MAX_DIR_CONTENTS → dzfsFreeBlocks s.fs = 0 →
    (dzfsOpenRelative s.fs flags date path r).1.result = .ERR_FULL ∧
      (dzfsOpenRelative s.fs flags date path r).2 = s.fs
  created : ∀ g, Walk (SubFolder s) r init g → (∀ n, ¬ Child s g last n) →
    folderContentCount (s.fs.disk g) ≠ DZFS_MAX_DIR_CONTENTS → dzfsFreeBlocks s.fs ≠ 0 →
    ∃ n, (dzfsOpenRelative s.fs flags date path r).1 = ⟨.OK, some n, some g⟩ ∧
      NewChild s (exec s (.openRelative path r flags date)) g last flags n

/-- The open of every plain path from every folder is a walk down the tree of names. -/
structure PlainLaw (s : FsState) : Prop where
  lookup : ∀ r path init last flags date, IsFolder s r → PlainPath path →
    parts path = init ++ [last] → flags &&& DZFS_O_CREATE = 0 →
    PlainLookup s r path flags date init last
  create : ∀ r path init last flags date, IsFolder s r → PlainPath path →
    parts path = init ++ [last] → flags &&& DZFS_O_CREATE ≠ 0 →
    PlainCreate s r path flags date init last

/-! ### The walk of a path -/

/-- The folder with the name `name` in the folder `f`. -/
def findFolder (fs : Dzfs) (f : Nat) (name : List UInt8) : Option Nat :=
  if folderLookupName fs (fs.disk f) name = 0 then none
  else if entityType (fs.disk (folderLookupName fs (fs.disk f) name)) ≠ DZFS_ENTITY_FOLDER then none
  else some (folderLookupName fs (fs.disk f) name)

/-- All names but the last one have to lead to folders. -/
theorem walkParts_concat (fs : Dzfs) (f : Nat) (init : List (List UInt8)) (last : List UInt8) :
    walkParts fs f (init ++ [last])
      = (init.foldlM (findFolder fs) f).elim .nowhere fun g => walkParts fs g [last] := by
  induction init generalizing f with
  | nil => rfl
  | cons name init ih =>
    have hne : init ++ [last] ≠ [] := by simp
    rw [List.cons_append, walkParts_cons fs f name hne, List.foldlM_cons, findFolder]
    split
    · rfl
    · split
      · rfl
      · exact ih _

/-- A plain path is not absolute and has no leading dots. -/
theorem PlainPath.open_eq {fs : Dzfs} (h : PlainPath path) (hroot : fs.rootDnode ≠ 0) (hr : r ≠ 0)
    (flags : UInt32) (date : UInt64) :
    dzfsOpenRelative fs flags date path r
      = openAt fs flags date r (walkParts fs r (parts path)) := by
  have hstart : openStart fs path r = (r, path) := by
    cases path with
    | nil => rfl
    | cons c rest =>
      refine openStart_of_ne fs ?_ rest r
      rintro rfl
      have hparts : parts (SLASH :: rest) = [] :: parts rest :=
        parts_slash (show SLASH ∉ [] by decide) rest
      exact (h.good [] (hparts ▸ List.mem_cons_self)).ne_nil rfl
  have hne : path ≠ [] := by
    rintro rfl
    exact h.ne_nil rfl
  have hend : pathEnd fs path r = walkParts fs r (parts path) := by
    rw [pathEnd, hstart]
    have hgood := h.good
    cases hparts : parts path with
    | nil => exact absurd hparts h.ne_nil
    | cons name names =>
      rw [hparts] at hgood
      have hname := hgood name List.mem_cons_self
      rw [resolve, if_neg hname.ne_dot, if_neg hname.ne_up]
  rw [dzfsOpenRelative_eq hroot flags date path hr, hstart, if_neg fun hnil => hne hnil.2, hend]

/-- The folders of the state list entities with different names. -/
structure NameTree (s : FsState) (ls : Nat → List Nat) : Prop extends UniqueNames s.fs ls where
  root_mem : s.fs.rootDnode ∈ s.entities
  ne_zero : ∀ e ∈ s.entities, e ≠ 0
  mem : ∀ f n, n ∈ ls f → n ∈ s.entities
  lists : ∀ f, IsFolder s f → Lists (s.fs.disk f) (ls f)

section
variable {s : FsState} {ls : Nat → List Nat} {f r g n : Nat} {name last : List UInt8}
  {init : List (List UInt8)}

theorem Inv.nameTree (hinv : Inv s.fs s.entities ls) (h : UniqueNames s.fs ls) : NameTree s ls :=
  ⟨h, hinv.root_mem, fun _ he => hinv.ne_zero he, fun _ _ hn => (hinv.entity_of_listed hn).1,
    fun f hf => hinv.lists f hf.1 hf.2⟩

theorem NameTree.child_iff (h : NameTree s ls) (hf : IsFolder s f) :
    Child s f name n ↔ n ∈ ls f ∧ headerName (s.fs.disk n) = name := by
  have hlisted : ListedIn s n f ↔ n ∈ ls f := by
    constructor
    · rintro ⟨hne, hentry⟩
      exact ((h.lists f hf).mem_iff hne).mp hentry
    · intro hn
      have hne := h.ne_zero n (h.mem f n hn)
      exact ⟨hne, ((h.lists f hf).mem_iff hne).mpr hn⟩
  rw [← hlisted]
  exact ⟨fun hc => ⟨hc.listed, hc.name_eq⟩, fun hc => ⟨hf, hc.1, hc.2⟩⟩

/-- The lookup of a name finds the child with that name. -/
theorem NameTree.lookup_iff (h : NameTree s ls) (hf : IsFolder s f) (hgood : GoodName name)
    (hn : n ≠ 0) : folderLookupName s.fs (s.fs.disk f) name = n ↔ Child s f name n := by
  rw [h.child_iff hf]
  exact h.toUniqueNames.lookup_iff (h.lists f hf) hgood.no_nul hgood.length_le hn

theorem NameTree.lookup_eq_zero_iff (h : NameTree s ls) (hf : IsFolder s f)
    (hgood : GoodName name) :
    folderLookupName s.fs (s.fs.disk f) name = 0 ↔ ∀ n, ¬ Child s f name n := by
  rw [(h.lists f hf).lookup_eq_zero_iff hgood.no_nul hgood.length_le]
  simp only [h.child_iff hf, not_and, ne_eq]

theorem NameTree.findFolder_iff (h : NameTree s ls) (hf : IsFolder s f) (hgood : GoodName name) :
    findFolder s.fs f name = some n ↔ SubFolder s f name n := by
  have hlookup := fun m hm => h.lookup_iff hf hgood (n := m) hm
  unfold findFolder
  generalize folderLookupName s.fs (s.fs.disk f) name = m at hlookup
  have hzero : SubFolder s f name n → n ≠ 0 := fun hsub => hsub.1.listed.1
  split
  · rename_i hm
    refine iff_of_false (by simp) fun hsub => ?_
    exact hzero hsub (((hlookup n (hzero hsub)).mpr hsub.1).symm.trans hm)
  · rename_i hm
    have hchild := (hlookup m hm).mp rfl
    split
    · rename_i htype
      refine iff_of_false (by simp) fun hsub => htype ?_
      rw [(hlookup n (hzero hsub)).mpr hsub.1]
      exact hsub.2.2
    · rename_i htype
      have hmem := h.mem f m ((h.child_iff hf).mp hchild).1
      constructor
      · rintro ⟨⟩
        exact ⟨hchild, hmem, not_not.mp htype⟩
      · intro hsub
        rw [(hlookup n (hzero hsub)).mpr hsub.1]

theorem NameTree.walk_iff (h : NameTree s ls) (hr : IsFolder s r)
    (hgood : ∀ name ∈ init, GoodName name) :
    Walk (SubFolder s) r init g ↔ init.foldlM (findFolder s.fs) r = some g := by
  refine walk_iff_foldlM (P := IsFolder s) (fun f hf name hname m => ?_)
    (fun f name m hsub => hsub.2) hr
  exact h.findFolder_iff hf (hgood name hname)

/-- A walk ends in a folder. -/
theorem walk_isFolder (hr : IsFolder s r) (h : Walk (SubFolder s) r init g) : IsFolder s g := by
  induction h with
  | nil => exact hr
  | cons hsub _ ih => exact ih hsub.2

/-! ### Opens without room -/

section
variable (h : NameTree s ls) (hr : IsFolder s r) {path : List UInt8} (hpath : PlainPath path)
  (hparts : parts path = init ++ [last]) (flags : UInt32) (date : UInt64)

include h hr hpath hparts

theorem NameTree.open_eq : dzfsOpenRelative s.fs flags date path r
    = openAt s.fs flags date r (walkParts s.fs r (init ++ [last])) := by
  rw [← hparts]
  exact hpath.open_eq (h.ne_zero _ h.root_mem) (h.ne_zero r hr.1) flags date

/-- The names lead to a folder, and what is left is the lookup of the last name there. -/
theorem NameTree.open_of_walk (hwalk : Walk (SubFolder s) r init g) :
    dzfsOpenRelative s.fs flags date path r
      = openAt s.fs flags date r (walkParts s.fs g [last]) := by
  have hgood : ∀ name ∈ init, GoodName name := fun name hname =>
    hpath.good name (hparts ▸ List.mem_append_left _ hname)
  rw [h.open_eq hr hpath hparts, walkParts_concat, (h.walk_iff hr hgood).mp hwalk]
  rfl

theorem NameTree.open_nowhere (hno : ¬ ∃ g, Walk (SubFolder s) r init g) :
    dzfsOpenRelative s.fs flags date path r = (⟨.ERR_NOT_FOUND, none, some r⟩, s.fs) := by
  have hgood : ∀ name ∈ init, GoodName name := fun name hname =>
    hpath.good name (hparts ▸ List.mem_append_left _ hname)
  have hnone : init.foldlM (findFolder s.fs) r = none := by
    rw [Option.eq_none_iff_forall_ne_some]
    intro g hg
    exact hno ⟨g, (h.walk_iff hr hgood).mpr hg⟩
  rw [h.open_eq hr hpath hparts, walkParts_concat, hnone]
  rfl

theorem NameTree.open_found (hwalk : Walk (SubFolder s) r init g) (hchild : Child s g last n) :
    dzfsOpenRelative s.fs flags date path r = (⟨.OK, some n, some g⟩, s.fs) := by
  have hgood : GoodName last :=
    hpath.good last (hparts ▸ List.mem_append_right _ List.mem_cons_self)
  have hn : n ≠ 0 := hchild.listed.1
  rw [h.open_of_walk hr hpath hparts flags date hwalk, walkParts_singleton,
    (h.lookup_iff hchild.folder hgood hn).mpr hchild, if_neg hn]
  rfl

theorem NameTree.open_missing (hwalk : Walk (SubFolder s) r init g)
    (hnone : ∀ n, ¬ Child s g last n) : dzfsOpenRelative s.fs flags date path r
      = openAt s.fs flags date r (.missing g last) := by
  have hgood : GoodName last :=
    hpath.good last (hparts ▸ List.mem_append_right _ List.mem_cons_self)
  rw [h.open_of_walk hr hpath hparts flags date hwalk, walkParts_singleton,
    (h.lookup_eq_zero_iff (walk_isFolder hr hwalk) hgood).mpr hnone, if_pos rfl]

end

/-! ### New children -/

/-- A creation adds a child to the tree. -/
theorem NameTree.newChild (h : NameTree s ls) (hinv : Inv s.fs s.entities ls) (hg : IsFolder s g)
    (hgood : GoodName last) (hnone : ∀ n, ¬ Child s g last n) {fs' : Dzfs} {flags : UInt32}
    (hc : Creation s.fs fs' s.entities ls g n last flags date) :
    NewChild s ⟨fs', insert n s.entities⟩ g last flags n := by
  have hmissing := (h.lookup_eq_zero_iff hg hgood).mpr hnone
  have htree : NameTree ⟨fs', insert n s.entities⟩ (Function.update ls g (ls g ++ [n])) :=
    Inv.nameTree hc.inv (h.toUniqueNames.create hinv hg.1 hg.2 hc hgood.no_nul hgood.length_le
      hmissing)
  have htypes : ∀ e ∈ s.entities, entityType (fs'.disk e) = entityType (s.fs.disk e) :=
    fun e he => hc.header_eq hinv he (by decide)
  have hfolder : ∀ f, IsFolder s f → IsFolder ⟨fs', insert n s.entities⟩ f := fun f hf =>
    ⟨Finset.mem_insert_of_mem hf.1, (htypes f hf.1).trans hf.2⟩
  have hold : ∀ f m, m ∈ ls f → headerName (fs'.disk m) = headerName (s.fs.disk m) := by
    intro f m hm
    have hmem := h.mem f m hm
    exact headerName_congr (fun i hi => hc.header_eq hinv hmem (hi.trans (by decide)))
      (h.short f m hm)
  have hself : headerName (fs'.disk n) = last := by
    rw [hc.block]
    exact headerName_of_matches hgood.no_nul hgood.length_le (newDnode_name hgood.length_le g flags
      date)
  refine ⟨hc.not_mem, rfl, ?_, htypes, fun f nm m => ⟨fun hchild => ?_, ?_⟩⟩
  · rw [hc.block]
    have hkind := newDnode_kind hgood.length_le g flags date (hinv.lt_word hg.1)
    split at hkind
    · rename_i hdir
      rw [if_pos hdir]
      exact hkind.type
    · rename_i hdir
      rw [if_neg hdir]
      exact hkind.type
  · obtain ⟨hmem, hname⟩ := (htree.child_iff hchild.folder).mp hchild
    rcases (mem_update_append ls g n).mp hmem with hmem | ⟨rfl, rfl⟩
    · rw [hold f m hmem] at hname
      exact Or.inl ((h.child_iff (hinv.folder_of_listed hmem)).mpr ⟨hmem, hname⟩)
    · exact Or.inr ⟨rfl, hname.symm.trans hself, rfl⟩
  · rintro (hchild | ⟨rfl, rfl, rfl⟩)
    · obtain ⟨hmem, hname⟩ := (h.child_iff hchild.folder).mp hchild
      refine (htree.child_iff (hfolder f hchild.folder)).mpr ⟨?_, (hold f m hmem).trans hname⟩
      exact (mem_update_append ls g n).mpr (Or.inl hmem)
    · refine (htree.child_iff (hfolder f hg)).mpr ⟨?_, hself⟩
      exact (mem_update_append ls f m).mpr (Or.inr ⟨rfl, rfl⟩)

/-! ### The law -/

/-- The walk finds an entity, or it ends at a missing name, or it leads nowhere. -/
theorem walk_cases (s : FsState) (r : Nat) (init : List (List UInt8)) (last : List UInt8) :
    (∃ n g, Walk (SubFolder s) r init g ∧ Child s g last n) ∨
      (∃ g, Walk (SubFolder s) r init g ∧ ∀ n, ¬ Child s g last n) ∨
        ¬ ∃ g, Walk (SubFolder s) r init g := by
  by_cases hwalk : ∃ g, Walk (SubFolder s) r init g
  · obtain ⟨g, hg⟩ := hwalk
    by_cases hchild : ∃ n, Child s g last n
    · obtain ⟨n, hn⟩ := hchild
      exact Or.inl ⟨n, g, hg, hn⟩
    · exact Or.inr (Or.inl ⟨g, hg, not_exists.mp hchild⟩)
  · exact Or.inr (Or.inr hwalk)

section
variable (h : NameTree s ls) (hr : IsFolder s r) {path : List UInt8} (hpath : PlainPath path)
  (hparts : parts path = init ++ [last]) {flags : UInt32} (date : UInt64)

include h hr hpath hparts

theorem NameTree.plainLookup (hflags : flags &&& DZFS_O_CREATE = 0) :
    PlainLookup s r path flags date init last := by
  have hmissing : ∀ g, Walk (SubFolder s) r init g → (∀ n, ¬ Child s g last n) →
      dzfsOpenRelative s.fs flags date path r = (⟨.ERR_NOT_FOUND, none, some r⟩, s.fs) := by
    intro g hwalk hnone
    rw [h.open_missing hr hpath hparts flags date hwalk hnone]
    exact if_neg (not_not_intro hflags)
  have hfound := fun n g => h.open_found hr hpath hparts flags date (n := n) (g := g)
  refine ⟨fun n g => ⟨fun hout => ?_, fun hn => ?_⟩, fun hnone => ?_, ?_⟩
  · rcases walk_cases s r init last with ⟨n', g', hwalk, hchild⟩ | ⟨g', hwalk, hno⟩ | hno
    · rw [hfound n' g' hwalk hchild] at hout
      obtain ⟨-, hn, hg⟩ := OpenOut.mk.inj hout
      obtain rfl := Option.some.inj hn
      obtain rfl := Option.some.inj hg
      exact ⟨hwalk, hchild⟩
    · rw [hmissing g' hwalk hno] at hout
      cases hout
    · rw [h.open_nowhere hr hpath hparts flags date hno] at hout
      cases hout
  · rw [hfound n g hn.1 hn.2]
  · rcases walk_cases s r init last with hsome | ⟨g, hwalk, hno⟩ | hno
    · exact absurd hsome hnone
    · rw [hmissing g hwalk hno]
    · rw [h.open_nowhere hr hpath hparts flags date hno]
  · rcases walk_cases s r init last with ⟨n, g, hwalk, hchild⟩ | ⟨g, hwalk, hno⟩ | hno
    · rw [hfound n g hwalk hchild]
    · rw [hmissing g hwalk hno]
    · rw [h.open_nowhere hr hpath hparts flags date hno]

theorem NameTree.plainCreate (hflags : flags &&& DZFS_O_CREATE ≠ 0)
    (hfree : (blockAlloc s.fs).1 = 0 ↔ dzfsFreeBlocks s.fs = 0)
    (hinv : dzfsFreeBlocks s.fs ≠ 0 → Inv s.fs s.entities ls) :
    PlainCreate s r path flags date init last := by
  have hgood : GoodName last :=
    hpath.good last (hparts ▸ List.mem_append_right _ List.mem_cons_self)
  have hmissing : ∀ g, Walk (SubFolder s) r init g → (∀ n, ¬ Child s g last n) →
      dzfsOpenRelative s.fs flags date path r
        = createEntity s.fs g (s.fs.disk g) last flags date r := by
    intro g hwalk hnone
    rw [h.open_missing hr hpath hparts flags date hwalk hnone]
    exact if_pos hflags
  refine ⟨fun n g hwalk hchild => ?_, fun hno => ?_, fun g hwalk hnone hfull => ?_,
    fun g hwalk hnone hroom hdisk => ?_, fun g hwalk hnone hroom hdisk => ?_⟩
  · exact h.open_found hr hpath hparts flags date hwalk hchild
  · rw [h.open_nowhere hr hpath hparts flags date hno]
    exact ⟨rfl, rfl⟩
  · rw [hmissing g hwalk hnone, createEntity_of_folder_full hfull]
    exact ⟨rfl, rfl⟩
  · rw [hmissing g hwalk hnone, createEntity_of_disk_full hroom (hfree.mpr hdisk)]
    exact ⟨rfl, rfl⟩
  · have hg := walk_isFolder hr hwalk
    have hlen : last.length < 268 := lt_of_le_of_lt hgood.length_le (by decide)
    rcases hopen : createEntity s.fs g (s.fs.disk g) last flags date r with ⟨out, fs'⟩
    have hexec := (hmissing g hwalk hnone).trans hopen
    rcases createEntity_creation (hinv hdisk) hg.1 hg.2 (fun _ => hlen) flags date r hopen with
      ⟨-, hfail⟩ | ⟨n, rfl, hc⟩
    · have hok := (createEntity_of_room ⟨hroom, fun hz => hdisk (hfree.mp hz)⟩ last flags date r).1
      rw [hopen] at hok
      exact absurd (congrArg OpenOut.result hok) hfail
    · refine ⟨n, congrArg Prod.fst hexec, ?_⟩
      rw [exec_openRelative hexec]
      exact h.newChild (hinv hdisk) hg hgood hnone hc

end

end

/-! ### Runs -/

/-- Opens of plain paths from folders, deletions, and moves of files. -/
def PlainOk (s : FsState) : Call → Prop
  | .openRelative path relativeTo _ _ => IsFolder s relativeTo ∧ PlainPath path
  | .openAbsolute path _ _ => PlainPath path.tail
  | .write _ _ _ => False
  | .delete dnode parentDnode => IsFolder s parentDnode ∧ ListedIn s dnode parentDnode
  | .move dnode oldParent newParent newName =>
    (IsFolder s oldParent ∧ IsFolder s newParent ∧ ListedIn s dnode oldParent ∧
      ∀ name ∈ newName, 0 ∉ name) ∧ entityType (s.fs.disk dnode) = DZFS_ENTITY_FILE

instance (s : FsState) (c : Call) : Decidable (PlainOk s c) :=
  match c with
  | .openRelative path _ _ _ => inferInstanceAs (Decidable (_ ∧ PlainPath path))
  | .openAbsolute path _ _ => inferInstanceAs (Decidable (PlainPath path.tail))
  | .write _ _ _ => isFalse id
  | .delete _ _ => inferInstanceAs (Decidable (_ ∧ _))
  | .move _ _ _ newName =>
    inferInstanceAs (Decidable ((_ ∧ _ ∧ _ ∧ ∀ name ∈ newName, (0 : UInt8) ∉ name) ∧ _))

section
variable {s : FsState} {ls : Nat → List Nat}

/-- The open of a plain path changes nothing, or it comes down to a creation. -/
theorem NameTree.open_step (h : NameTree s ls) (hr : IsFolder s r) (hpath : PlainPath path)
    (flags : UInt32) (date : UInt64) :
    exec s (.openRelative path r flags date) = s ∨
      ∃ g last, IsFolder s g ∧ GoodName last ∧ (∀ n, ¬ Child s g last n) ∧
        dzfsOpenRelative s.fs flags date path r
          = createEntity s.fs g (s.fs.disk g) last flags date r := by
  obtain ⟨init, last, hparts⟩ : ∃ init last, parts path = init ++ [last] :=
    ⟨_, _, (List.dropLast_append_getLast hpath.ne_nil).symm⟩
  have hgood : GoodName last :=
    hpath.good last (hparts ▸ List.mem_append_right _ List.mem_cons_self)
  have hfailed : ∀ out : OpenOut, out.result ≠ .OK →
      dzfsOpenRelative s.fs flags date path r = (out, s.fs) →
      exec s (.openRelative path r flags date) = s := by
    intro out hfail hopen
    rw [exec_openRelative hopen, entitiesAfterOpen_same fun hok => absurd hok hfail]
  rcases walk_cases s r init last with ⟨n, g, hwalk, hchild⟩ | ⟨g, hwalk, hnone⟩ | hno
  · have hn := h.mem g n ((h.child_iff hchild.folder).mp hchild).1
    rw [exec_openRelative (h.open_found hr hpath hparts flags date hwalk hchild),
      entitiesAfterOpen_same fun _ => ⟨n, hn, rfl⟩]
    exact Or.inl rfl
  · have hopen := h.open_missing hr hpath hparts flags date hwalk hnone
    by_cases hflags : flags &&& DZFS_O_CREATE ≠ 0
    · rw [openAt, if_pos hflags] at hopen
      exact Or.inr ⟨g, last, walk_isFolder hr hwalk, hgood, hnone, hopen⟩
    · rw [openAt, if_neg hflags] at hopen
      exact Or.inl (hfailed _ (by simp) hopen)
  · exact Or.inl (hfailed _ (by simp) (h.open_nowhere hr hpath hparts flags date hno))

/-- The open of a plain path keeps the names different. -/
theorem NameTree.openRelative (h : NameTree s ls) (hinv : Inv s.fs s.entities ls)
    (hr : IsFolder s r) (hpath : PlainPath path) (flags : UInt32) (date : UInt64) :
    ∃ ls', Inv (exec s (.openRelative path r flags date)).fs
        (exec s (.openRelative path r flags date)).entities ls' ∧
      UniqueNames (exec s (.openRelative path r flags date)).fs ls' := by
  rcases h.open_step hr hpath flags date with hsame | ⟨g, last, hg, hgood, hnone, hopen⟩
  · rw [hsame]
    exact ⟨ls, hinv, h.toUniqueNames⟩
  · have hmissing := (h.lookup_eq_zero_iff hg hgood).mpr hnone
    have hlen : last.length < 268 := lt_of_le_of_lt hgood.length_le (by decide)
    rcases hc : createEntity s.fs g (s.fs.disk g) last flags date r with ⟨out, fs'⟩
    rw [exec_openRelative (hopen.trans hc)]
    rcases createEntity_creation hinv hg.1 hg.2 (fun _ => hlen) flags date r hc with
      ⟨rfl, hfail⟩ | ⟨n, rfl, hnew⟩
    · rw [entitiesAfterOpen_same fun hok => absurd hok hfail]
      exact ⟨ls, hinv, h.toUniqueNames⟩
    · exact ⟨_, hnew.inv, h.toUniqueNames.create hinv hg.1 hg.2 hnew hgood.no_nul hgood.length_le
        hmissing⟩

/-- A call that is `PlainOk` keeps the names different. -/
theorem exec_uniqueNames (hinv : Inv s.fs s.entities ls) (h : UniqueNames s.fs ls)
    (hc : PlainOk s c) :
    ∃ ls', Inv (exec s c).fs (exec s c).entities ls' ∧ UniqueNames (exec s c).fs ls' := by
  have hroot : IsFolder s s.fs.rootDnode := ⟨hinv.root_mem, hinv.root_folder⟩
  cases c with
  | openRelative path relativeTo flags date =>
    exact (hinv.nameTree h).openRelative hinv hc.1 hc.2 flags date
  | openAbsolute path flags date =>
    rcases exec_openAbsolute hinv.root_mem path flags date with hsame | ⟨rest, rfl, heq⟩
    · rw [hsame]
      exact ⟨ls, hinv, h⟩
    · rw [heq]
      exact (hinv.nameTree h).openRelative hinv hroot hc flags date
  | write dnode data offset => exact hc.elim
  | delete dnode parentDnode =>
    rcases hd : dzfsDelete s.fs dnode parentDnode with ⟨r, fs'⟩
    simp only [exec, hd]
    exact h.delete hinv (hc.2.inFolder hinv hc.1) hd
  | move dnode oldParent newParent newName =>
    obtain ⟨⟨hold, hnew, hlisted, hnul⟩, hfile⟩ := hc
    exact h.move hinv (hlisted.inFolder hinv hold) hnew.1 hnew.2 newName hnul fun _ =>
      ⟨file_dnode_ne hfile hold.2, file_dnode_ne hfile hnew.2⟩

end

/-! ### Disks without a free block -/

section
variable {fs : Dzfs}

/-- Without bitmap blocks, there is no free block. -/
theorem no_free_block (hF : fs.freeBitmapBlocks = 0) :
    (blockAlloc fs).1 = 0 ∧ dzfsFreeBlocks fs = 0 := by
  constructor
  · unfold blockAlloc
    rw [hF]
    rfl
  · unfold dzfsFreeBlocks
    rw [hF]
    rfl

/-- The root folder of a formatted disk is the whole tree. -/
theorem nameTree_newState {disk : Nat → Bytes} {blocks : Nat}
    (hnew : dzfsNew disk blocks date = (.OK, fs)) : NameTree (newState fs) fun _ => [] := by
  have hnone : ∀ n, n ∉ ([] : List Nat) := fun n => List.not_mem_nil
  have hroot : fs.rootDnode ≠ 0 := by
    rw [(dzfsNew_vars hnew).2]
    exact Nat.succ_ne_zero _
  refine ⟨⟨fun _ n hn => absurd hn (hnone n), fun _ n _ hn => absurd hn (hnone n)⟩,
    Finset.mem_singleton_self _, fun e he => ?_, fun _ n hn => absurd hn (hnone n), fun f hf => ?_⟩
  · rw [Finset.mem_singleton.mp he]
    exact hroot
  · rw [Finset.mem_singleton.mp hf.1]
    show Lists (fs.disk fs.rootDnode) []
    rw [dzfsNew_root hnew]
    exact rootFolder_lists _ _

/-- When nothing can be created, the root folder stays the whole tree. -/
theorem exec_noBlocks (h : NameTree (newState fs) fun _ => [])
    (hfolder : entityType (fs.disk fs.rootDnode) = DZFS_ENTITY_FOLDER)
    (hfull : (blockAlloc fs).1 = 0) (hc : PlainOk (newState fs) c) :
    exec (newState fs) c = newState fs := by
  have hopen : ∀ r path flags date, IsFolder (newState fs) r → PlainPath path →
      exec (newState fs) (.openRelative path r flags date) = newState fs := by
    intro r path flags date hr hpath
    rcases h.open_step hr hpath flags date with hsame | ⟨g, last, -, -, -, hopen⟩
    · exact hsame
    · have hroom : ¬ Room (newState fs).fs g := fun hroom => hroom.2 hfull
      obtain ⟨hfail, hfs⟩ := createEntity_of_no_room hroom last flags date r
      rcases hcreate : createEntity (newState fs).fs g ((newState fs).fs.disk g) last flags date r
        with ⟨out, fs'⟩
      rw [hcreate] at hfail hfs
      obtain rfl : fs' = (newState fs).fs := hfs
      rw [exec_openRelative (hopen.trans hcreate),
        entitiesAfterOpen_same fun hok => absurd hok hfail]
      rfl
  have hnone : ∀ {n f}, IsFolder (newState fs) f → ¬ ListedIn (newState fs) n f := by
    rintro n f hf ⟨hn, hentry⟩
    cases ((h.lists f hf).mem_iff hn).mp hentry
  cases c with
  | openRelative path relativeTo flags date => exact hopen _ _ _ _ hc.1 hc.2
  | openAbsolute path flags date =>
    rcases exec_openAbsolute h.root_mem path flags date with hsame | ⟨rest, rfl, heq⟩
    · exact hsame
    · exact heq.trans (hopen _ _ _ _ ⟨h.root_mem, hfolder⟩ hc)
  | write dnode data offset => exact hc.elim
  | delete dnode parentDnode => exact absurd hc.2 (hnone hc.1)
  | move dnode oldParent newParent newName => exact absurd hc.1.2.2.1 (hnone hc.1.1)

end

/-! ### The law in every run -/

theorem NameTree.plainLaw {s : FsState} {ls : Nat → List Nat} (h : NameTree s ls)
    (hfree : (blockAlloc s.fs).1 = 0 ↔ dzfsFreeBlocks s.fs = 0)
    (hinv : dzfsFreeBlocks s.fs ≠ 0 → Inv s.fs s.entities ls) : PlainLaw s where
  lookup _ _ _ _ _ date hr hpath hparts hflags := h.plainLookup hr hpath hparts date hflags
  create _ _ _ _ _ date hr hpath hparts hflags :=
    h.plainCreate hr hpath hparts date hflags hfree hinv

/-- In every state of a run of calls that are `PlainOk`, the open of a plain path is a walk down the
tree of names, on a disk whose system blocks are all marked as used or that has no bitmap. -/
theorem plain_lookup {disk : Nat → Bytes} {blocks : Nat} {date : UInt64} {fs : Dzfs}
    (hlt : blocks < 2 ^ 32)
    (hle : blocks ≤ formatLimit ∨ 2 ^ 32 - DZFS_BITSET_COVERED_BLOCKS < blocks)
    (hnew : dzfsNew disk blocks date = (.OK, fs)) {s : FsState}
    (hs : Reachable PlainOk (newState fs) s) : PlainLaw s := by
  have hstart := nameTree_newState hnew
  rcases hle with hle | hbig
  · have hnames : ∃ ls, Inv s.fs s.entities ls ∧ UniqueNames s.fs ls := by
      induction hs with
      | start => exact ⟨_, (dzfsNew_formatted hle hnew).inv, hstart.toUniqueNames⟩
      | call c _ hc ih =>
        obtain ⟨ls, hinv, h⟩ := ih
        exact exec_uniqueNames hinv h hc
    obtain ⟨ls, hinv, h⟩ := hnames
    have hcov : covered s.fs < 2 ^ 32 := lt_of_le_of_lt hinv.covered_le (by decide)
    have hboot := hinv.low 0 (Nat.pos_of_ne_zero (hinv.ne_zero hinv.root_mem))
    exact (hinv.nameTree h).plainLaw (blockAlloc_eq_zero_iff hcov hboot) fun _ => hinv
  · -- The number of bitmap blocks overflows to 0.
    have hF : fs.freeBitmapBlocks = 0 := by
      rw [(dzfsNew_vars hnew).1, bitmapBlocksFor]
      simp only [DZFS_BITSET_COVERED_BLOCKS, DZFS_BLOCK_SIZE] at hbig ⊢
      omega
    obtain ⟨halloc, hnone⟩ := no_free_block hF
    have hfolder : entityType (fs.disk fs.rootDnode) = DZFS_ENTITY_FOLDER := by
      rw [dzfsNew_root hnew]
      rfl
    have hsame : s = newState fs := by
      induction hs with
      | start => rfl
      | call c _ hc ih =>
        rw [ih] at hc ⊢
        exact exec_noBlocks hstart hfolder halloc hc
    rw [hsame]
    exact hstart.plainLaw (iff_of_true halloc hnone) fun hsome => absurd hnone hsome

/-- The folder `a` and the files `a/b` and `c`, with a slash at the end of one path. The file `c`
replaces `a/b` and is deleted there. -/
def plainCalls : List Call :=
  [.openRelative [97] 3 3 0, .openAbsolute [47, 97, 47, 98, 47] 1 0, .openRelative [99] 3 1 0,
    .move 6 3 4 (some [98]), .delete 6 4]

theorem plain_lookup_run : PlainLaw (plainCalls.foldl exec (newState formattedDisk)) :=
  plain_lookup (show 32768 < 2 ^ 32 by decide)
    (Or.inl (show 32768 ≤ formatLimit by decide)) formattedDisk_new
    (OkRun.reachable .start (show OkRun PlainOk (newState formattedDisk) plainCalls by
      decide +kernel))

/-! ### A disk whose root folder is marked as free -/

/-- A number of blocks for which the first bitmap block does not cover the root folder. -/
def wideBlocks : Nat := DZFS_BITSET_COVERED_BLOCKS * 32766

/-- A formatted disk of that size. -/
def wideDisk : Dzfs := (dzfsNew (fun _ => Bytes.zero) wideBlocks 0).2

theorem wideDisk_new : dzfsNew (fun _ => Bytes.zero) wideBlocks 0 = (.OK, wideDisk) :=
  Prod.ext (by decide) rfl

theorem wideDisk_vars : wideDisk.freeBitmapBlocks = 32766 ∧ wideDisk.rootDnode = 32768 := by
  obtain ⟨hF, hroot⟩ := dzfsNew_vars wideDisk_new
  have hblocks : bitmapBlocksFor wideBlocks = 32766 := by decide
  rw [hblocks] at hF
  rw [hF] at hroot
  exact ⟨hF, hroot⟩

/-- The first free block is the root folder. -/
theorem wideDisk_alloc : bit wideDisk 0 = false ∧ (blockAlloc wideDisk).1 = wideDisk.rootDnode := by
  obtain ⟨hF, hroot⟩ := wideDisk_vars
  have hcov : ∀ m ≤ 32768, m < covered wideDisk := by
    intro m hm
    rw [covered, hF]
    exact lt_of_le_of_lt hm (by decide)
  have hbit := fun m hm => dzfsNew_bit (by decide) wideDisk_new (hcov m hm)
  have hlow : ∀ m < 32768, bit wideDisk m = false := by
    intro m hm
    have hcovered : ¬ DZFS_BITSET_COVERED_BLOCKS ≤ m := not_le.mpr hm
    have hsystem : ¬ 32766 + 3 ≤ m := by omega
    rw [hbit m hm.le, hF]
    simp [hcovered, hsystem]
  have hfree : bit wideDisk 32768 = true := by
    rw [hbit 32768 (Nat.le_refl _), hF]
    decide
  rw [hroot]
  exact ⟨hlow 0 (by decide),
    blockAlloc_first (hlow 0 (by decide)) (hcov _ (Nat.le_refl _)) hfree hlow⟩

/-- The first creation on that disk overwrites the root folder. -/
theorem plain_create_over_root :
    dzfsNew (fun _ => Bytes.zero) wideBlocks 0 = (.OK, wideDisk) ∧
      Reachable PlainOk (newState wideDisk) (newState wideDisk) ∧
        ¬ PlainLaw (newState wideDisk) := by
  refine ⟨wideDisk_new, .start, fun hlaw => ?_⟩
  obtain ⟨hboot, halloc⟩ := wideDisk_alloc
  obtain ⟨hF, hroot⟩ := wideDisk_vars
  have htree := nameTree_newState wideDisk_new
  have hr : IsFolder (newState wideDisk) wideDisk.rootDnode := by
    refine ⟨Finset.mem_singleton_self _, ?_⟩
    show entityType (wideDisk.disk wideDisk.rootDnode) = DZFS_ENTITY_FOLDER
    rw [dzfsNew_root wideDisk_new]
    rfl
  have hpath : PlainPath [97] := by decide
  have hnone : ∀ n, ¬ Child (newState wideDisk) wideDisk.rootDnode [97] n := by
    intro n hchild
    cases ((htree.child_iff hr).mp hchild).1
  have hroom : folderContentCount ((newState wideDisk).fs.disk wideDisk.rootDnode)
      ≠ DZFS_MAX_DIR_CONTENTS := by
    rw [(htree.lists _ hr).count]
    decide
  have halloc0 : (blockAlloc wideDisk).1 ≠ 0 := by
    rw [halloc, hroot]
    decide
  have hfree : dzfsFreeBlocks wideDisk ≠ 0 := by
    have hcov : covered wideDisk < 2 ^ 32 := by
      rw [covered, hF]
      decide
    exact fun hz => halloc0 ((blockAlloc_eq_zero_iff hcov hboot).mpr hz)
  obtain ⟨n, hout, hnew⟩ := (hlaw.create wideDisk.rootDnode [97] [] [97] 1 0 hr hpath (by decide)
    (by decide)).created wideDisk.rootDnode (.nil _) hnone hroom hfree
  -- The new dnode is the root folder itself, which is no new entity.
  have hopen := htree.open_missing hr hpath (show parts [97] = [] ++ [[97]] by decide) 1 0
    (.nil _) hnone
  rw [hopen, openAt, if_pos (by decide), (createEntity_of_room ⟨hroom, halloc0⟩ _ _ _ _).1] at hout
  obtain ⟨-, hn, -⟩ := OpenOut.mk.inj hout
  obtain rfl := Option.some.inj hn
  refine hnew.new ?_
  show (blockAlloc wideDisk).1 ∈ ({wideDisk.rootDnode} : Finset Nat)
  rw [halloc]
  exact Finset.mem_singleton_self _

end DzOS.Proofs.Fs
