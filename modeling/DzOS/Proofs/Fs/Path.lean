import DzOS.Fs.Dzfs

/-!
# `DzOS.Proofs.Fs.Path`: what a path leads to

`dzfsOpenRelative` reads a path byte by byte, in two loops with different conditions. Here a
path is the list of its parts (`parts`), and `resolve` walks down these parts: leading `.` and
`..` stay or go up, and from the first other part on every part is a name (`walkParts`). A walk
ends in one of four ways (`PathEnd`), and `openFrom_eq` states that the open does what the end
of the walk says.

`pathEnd` is the end of the walk of a whole path, with the leading slashes that go to
`dzfsOpenAbsolute` (`dzfsOpenRelative_eq`).

A dot component is special only in front of all names. Behind a name, `.` and `..` are looked
up like any other name.
-/

set_option autoImplicit false

namespace DzOS.Proofs.Fs

open DzOS.Lib DzOS.Fs

variable {c : UInt8} {cur fuel n relativeTo : Nat} {path name : List UInt8} {P : Nat → Prop}
  {fs : Dzfs}

/-! ### The parts of a path -/

/-- The path without one slash at its end. -/
def dropSlash (path : List UInt8) : List UInt8 :=
  if path.getLast? = some SLASH then path.dropLast else path

/-- The parts of a path between its slashes. One slash at the end does not count, and the
empty path has no parts. -/
def parts (path : List UInt8) : List (List UInt8) :=
  if path = [] then [] else (dropSlash path).splitOn SLASH

/-- A path is its first part, or its first part, a slash and the rest. -/
theorem path_cases (path : List UInt8) :
    (SLASH ∉ path ∧ pathNextPartLen path = path.length) ∨
      ∃ name rest, path = name ++ SLASH :: rest ∧ SLASH ∉ name ∧
        pathNextPartLen path = name.length := by
  induction path with
  | nil => exact Or.inl ⟨List.not_mem_nil, rfl⟩
  | cons c path ih =>
    by_cases hc : c = SLASH
    · subst hc
      exact Or.inr ⟨[], path, rfl, List.not_mem_nil, by simp [pathNextPartLen]⟩
    · have hlen : pathNextPartLen (c :: path) = pathNextPartLen path + 1 := by
        simp [pathNextPartLen, hc]
      rcases ih with ⟨hno, hall⟩ | ⟨name, rest, rfl, hno, hname⟩
      · refine Or.inl ⟨?_, by rw [hlen, hall, List.length_cons]⟩
        rw [List.mem_cons, not_or]
        exact ⟨Ne.symm hc, hno⟩
      · refine Or.inr ⟨c :: name, rest, rfl, ?_, by rw [hlen, hname, List.length_cons]⟩
        rw [List.mem_cons, not_or]
        exact ⟨Ne.symm hc, hno⟩

theorem parts_of_not_mem (hne : path ≠ []) (hno : SLASH ∉ path) : parts path = [path] := by
  have hlast : path.getLast? ≠ some SLASH := fun h => hno (List.mem_of_getLast? h)
  rw [parts, if_neg hne, dropSlash, if_neg hlast, List.splitOn_eq_singleton hno]

theorem parts_of_slash_end (hno : SLASH ∉ name) : parts (name ++ [SLASH]) = [name] := by
  have hne : name ++ [SLASH] ≠ [] := by simp
  have hlast : (name ++ [SLASH]).getLast? = some SLASH := by simp
  rw [parts, if_neg hne, dropSlash, if_pos hlast, List.dropLast_concat,
    List.splitOn_eq_singleton hno]

theorem parts_slash (hno : SLASH ∉ name) (rest : List UInt8) :
    parts (name ++ SLASH :: rest) = name :: parts rest := by
  by_cases hrest : rest = []
  · rw [hrest, parts_of_slash_end hno]
    rfl
  have hne : name ++ SLASH :: rest ≠ [] := by simp
  have hdrop : dropSlash (name ++ SLASH :: rest) = name ++ SLASH :: dropSlash rest := by
    have hlast : (name ++ SLASH :: rest).getLast? = rest.getLast? := by
      rw [List.getLast?_append_of_ne_nil _ (by simp), List.getLast?_cons_of_ne_nil hrest]
    unfold dropSlash
    rw [hlast]
    split
    · rw [List.dropLast_append_of_ne_nil (by simp), List.dropLast_cons_of_ne_nil hrest]
    · rfl
  rw [parts, if_neg hne, hdrop, List.splitOn_append_cons_self_of_not_mem hno, parts,
    if_neg hrest]

/-- The parts of a path as the loop down the path sees them. -/
theorem parts_eq (hne : path ≠ []) :
    parts path = path.take (pathNextPartLen path) ::
      if pathLastPart path then [] else parts (path.drop (pathNextPartLen path + 1)) := by
  rcases path_cases path with ⟨hno, hlen⟩ | ⟨name, rest, rfl, hno, hlen⟩
  · have hlast : pathLastPart path = true := by simp [pathLastPart, hlen]
    rw [parts_of_not_mem hne hno, if_pos hlast, hlen, List.take_length]
  · have hdrop : (name ++ SLASH :: rest).drop (name.length + 1) = rest := by
      rw [List.drop_append]
      simp
    rw [hlen, List.take_left, hdrop]
    by_cases hrest : rest = []
    · subst hrest
      have hlast : pathLastPart (name ++ [SLASH]) = true := by simp [pathLastPart, hlen]
      rw [if_pos hlast, parts_of_slash_end hno]
    · have hlast : ¬ pathLastPart (name ++ SLASH :: rest) = true := by
        have hpos := List.length_pos_of_ne_nil hrest
        simp only [pathLastPart, hlen, List.length_append, List.length_cons, decide_eq_true_eq]
        omega
      rw [if_neg hlast, parts_slash hno]

/-- The rest of a path behind a part that is not the last one. -/
theorem drop_ne_nil (h : ¬ pathLastPart path = true) :
    path.drop (pathNextPartLen path + 1) ≠ [] := by
  rcases path_cases path with ⟨-, hlen⟩ | ⟨name, rest, rfl, -, hlen⟩
  · exact absurd (by simp [pathLastPart, hlen]) h
  · simp only [pathLastPart, hlen, List.length_append, List.length_cons, decide_eq_true_eq] at h
    intro hnil
    rw [hlen, List.drop_append] at hnil
    simp at hnil
    simp [hnil] at h

/-- A part starts at some byte of the path and ends in front of the next slash. -/
theorem exists_of_mem_parts (h : name ∈ parts path) :
    ∃ k ≤ path.length, name = (path.drop k).takeWhile (· ≠ SLASH) := by
  induction hlen : path.length using Nat.strong_induction_on generalizing path with
  | _ len ih =>
    by_cases hne : path = []
    · rw [hne, parts, if_pos rfl] at h
      cases h
    rw [parts_eq hne, List.mem_cons] at h
    rcases h with rfl | h
    · refine ⟨0, Nat.zero_le _, ?_⟩
      rw [List.drop_zero]
      exact (List.prefix_iff_eq_take.mp (List.takeWhile_prefix _)).symm
    · split at h
      · cases h
      · rename_i hlast
        have hpos := List.length_pos_of_ne_nil (drop_ne_nil hlast)
        rw [List.length_drop] at hpos
        have hshort : (path.drop (pathNextPartLen path + 1)).length < len := by
          rw [List.length_drop]
          omega
        obtain ⟨k, hk, rfl⟩ := ih _ hshort h rfl
        rw [List.length_drop] at hk
        refine ⟨pathNextPartLen path + 1 + k, by omega, ?_⟩
        rw [List.drop_drop]

/-- A byte of a part is a byte of the path, and it is no slash. -/
theorem mem_parts (h : name ∈ parts path) (hc : c ∈ name) : c ∈ path ∧ c ≠ SLASH := by
  obtain ⟨k, -, rfl⟩ := exists_of_mem_parts h
  refine ⟨List.mem_of_mem_drop ((List.takeWhile_sublist _).mem hc), ?_⟩
  simpa using List.mem_takeWhile_imp hc

/-! ### Walks -/

/-- How a walk down the parts of a path ends: in the folder where the walk of names would
start, in an entry of a folder, in a name that its folder does not have, or before the last
part. -/
inductive PathEnd where
  | self (folder : Nat)
  | found (folder dnode : Nat)
  | missing (folder : Nat) (name : List UInt8)
  | nowhere
  deriving DecidableEq

/-- The entity that a walk leads to. -/
def PathEnd.entity : PathEnd → Option Nat
  | .self folder => some folder
  | .found _ dnode => some dnode
  | .missing _ _ => none
  | .nowhere => none

/-- The folder where a walk ends. -/
def PathEnd.folder : PathEnd → Option Nat
  | .self folder => some folder
  | .found folder _ => some folder
  | .missing folder _ => some folder
  | .nowhere => none

/-- The walk down the names `names` from the folder `folder`. -/
def walkParts (fs : Dzfs) : Nat → List (List UInt8) → PathEnd
  | folder, [] => .self folder
  | folder, [name] =>
    if folderLookupName fs (fs.disk folder) name = 0 then .missing folder name
    else .found folder (folderLookupName fs (fs.disk folder) name)
  | folder, name :: names =>
    if folderLookupName fs (fs.disk folder) name = 0 then .nowhere
    else if entityType (fs.disk (folderLookupName fs (fs.disk folder) name))
        ≠ DZFS_ENTITY_FOLDER then .nowhere
    else walkParts fs (folderLookupName fs (fs.disk folder) name) names

theorem walkParts_singleton (fs : Dzfs) (folder : Nat) (name : List UInt8) :
    walkParts fs folder [name] =
      if folderLookupName fs (fs.disk folder) name = 0 then .missing folder name
      else .found folder (folderLookupName fs (fs.disk folder) name) := rfl

theorem walkParts_cons (fs : Dzfs) (folder : Nat) (name : List UInt8)
    {names : List (List UInt8)} (hne : names ≠ []) :
    walkParts fs folder (name :: names) =
      if folderLookupName fs (fs.disk folder) name = 0 then .nowhere
      else if entityType (fs.disk (folderLookupName fs (fs.disk folder) name))
          ≠ DZFS_ENTITY_FOLDER then .nowhere
      else walkParts fs (folderLookupName fs (fs.disk folder) name) names := by
  cases names with
  | nil => exact absurd rfl hne
  | cons next names => rfl

/-- The walk down the parts `names` from the folder `folder`: the leading `.` and `..`, then
the names. -/
def resolve (fs : Dzfs) : Nat → List (List UInt8) → PathEnd
  | folder, [] => .self folder
  | folder, name :: names =>
    if name = [DOT] then resolve fs folder names
    else if name = [DOT, DOT] then resolve fs (goUp fs folder) names
    else walkParts fs folder (name :: names)

@[simp] theorem resolve_dot (fs : Dzfs) (folder : Nat) (names : List (List UInt8)) :
    resolve fs folder ([DOT] :: names) = resolve fs folder names := by
  rw [resolve, if_pos rfl]

@[simp] theorem resolve_up (fs : Dzfs) (folder : Nat) (names : List (List UInt8)) :
    resolve fs folder ([DOT, DOT] :: names) = resolve fs (goUp fs folder) names := by
  rw [resolve, if_neg (by decide), if_pos rfl]

/-- What an open returns and does at the end of its walk. -/
def openAt (fs : Dzfs) (flags : UInt32) (date : UInt64) (relativeTo : Nat) :
    PathEnd → OpenOut × Dzfs
  | .self folder => (⟨.OK, some folder, some (folderParent (fs.disk folder))⟩, fs)
  | .found folder dnode => (⟨.OK, some dnode, some folder⟩, fs)
  | .missing folder name =>
    if flags &&& DZFS_O_CREATE ≠ 0 then
      createEntity fs folder (fs.disk folder) name flags date relativeTo
    else (⟨.ERR_NOT_FOUND, none, some relativeTo⟩, fs)
  | .nowhere => (⟨.ERR_NOT_FOUND, none, some relativeTo⟩, fs)

/-- The loop down the path walks down its parts. -/
theorem traverse_eq (fs : Dzfs) (flags : UInt32) (date : UInt64) (relativeTo : Nat) {folder : Nat}
    (hfuel : path.length < fuel) (hne : path ≠ []) :
    Fs.traverse flags date fs relativeTo fuel folder path
      = openAt fs flags date relativeTo (walkParts fs folder (parts path)) := by
  induction fuel generalizing folder path with
  | zero => omega
  | succ fuel ih =>
    have hparts := parts_eq hne
    generalize hname : path.take (pathNextPartLen path) = name at hparts
    unfold Fs.traverse
    simp only [Dzfs.readBlock, hname]
    by_cases hlast : pathLastPart path = true
    · rw [if_pos hlast] at hparts
      rw [hparts, walkParts_singleton]
      by_cases hfound : folderLookupName fs (fs.disk folder) name = 0
      · rw [if_pos hfound, if_pos hfound, openAt]
        simp only [hlast, and_true]
      · rw [if_neg hfound, if_neg hfound, if_pos hlast, openAt]
    · have hrest := drop_ne_nil hlast
      have hlen : (path.drop (pathNextPartLen path + 1)).length < fuel := by
        have hpos := List.length_pos_of_ne_nil hne
        rw [List.length_drop]
        omega
      have hnames : parts (path.drop (pathNextPartLen path + 1)) ≠ [] := by
        rw [parts_eq hrest]
        exact List.cons_ne_nil _ _
      rw [if_neg hlast] at hparts
      rw [hparts, walkParts_cons fs folder name hnames]
      by_cases hfound : folderLookupName fs (fs.disk folder) name = 0
      · rw [if_pos hfound, if_pos hfound, openAt]
        simp only [hlast, Bool.false_eq_true, and_false, if_false]
      · rw [if_neg hfound, if_neg hfound, if_neg hlast]
        by_cases htype : entityType (fs.disk (folderLookupName fs (fs.disk folder) name))
            ≠ DZFS_ENTITY_FOLDER
        · rw [if_pos htype, if_pos htype, openAt]
        · rw [if_neg htype, if_neg htype, ih hlen hrest]

/-! ### Leading dots -/

/-- The folders that the leading `..` of a path lead to. -/
def dotFolders (fs : Dzfs) : Nat → Nat → List UInt8 → List Nat
  | 0, _, _ => []
  | fuel + 1, relativeTo, path =>
    if [DOT, SLASH].isPrefixOf path then dotFolders fs fuel relativeTo (path.drop 2)
    else if [DOT, DOT, SLASH].isPrefixOf path then
      goUp fs relativeTo :: dotFolders fs fuel (goUp fs relativeTo) (path.drop 3)
    else if path = [DOT, DOT] then [goUp fs relativeTo]
    else []

/-- `skipDots` ends in the folder where it starts or in one that it was led to. -/
theorem skipDots_folder (fs : Dzfs) (fuel relativeTo : Nat) (path : List UInt8)
    (hstart : P relativeTo) (hdots : ∀ f ∈ dotFolders fs fuel relativeTo path, P f) :
    P (skipDots fs fuel relativeTo path).1 := by
  induction fuel generalizing relativeTo path with
  | zero => exact hstart
  | succ fuel ih =>
    unfold skipDots
    unfold dotFolders at hdots
    split
    · rename_i hdot
      rw [if_pos hdot] at hdots
      exact ih relativeTo _ hstart hdots
    · rename_i hdot
      rw [if_neg hdot] at hdots
      split
      · rename_i hup
        rw [if_pos hup] at hdots
        exact ih _ _ (hdots _ (by simp)) fun f hf => hdots f (by simp [hf])
      · rename_i hup
        rw [if_neg hup] at hdots
        split
        · rename_i hlast
          rw [if_pos hlast] at hdots
          exact hdots _ (by simp)
        · exact hstart

/-- Behind the leading dots, the parts are names. -/
theorem resolve_skipDots (fs : Dzfs) {folder : Nat} (hfuel : path.length < fuel) :
    resolve fs folder (parts path) =
      if (skipDots fs fuel folder path).2 = [] ∨ (skipDots fs fuel folder path).2 = [DOT] then
        .self (skipDots fs fuel folder path).1
      else walkParts fs (skipDots fs fuel folder path).1
        (parts (skipDots fs fuel folder path).2) := by
  induction fuel generalizing folder path with
  | zero => omega
  | succ fuel ih =>
    unfold skipDots
    by_cases hdot : [DOT, SLASH].isPrefixOf path = true
    · obtain ⟨rest, rfl⟩ := List.isPrefixOf_iff_prefix.mp hdot
      have hparts : parts ([DOT, SLASH] ++ rest) = [DOT] :: parts rest :=
        parts_slash (show SLASH ∉ [DOT] by decide) rest
      rw [if_pos hdot, hparts, resolve_dot]
      exact ih (by simp at hfuel ⊢; omega)
    rw [if_neg hdot]
    by_cases hup : [DOT, DOT, SLASH].isPrefixOf path = true
    · obtain ⟨rest, rfl⟩ := List.isPrefixOf_iff_prefix.mp hup
      have hparts : parts ([DOT, DOT, SLASH] ++ rest) = [DOT, DOT] :: parts rest :=
        parts_slash (show SLASH ∉ [DOT, DOT] by decide) rest
      rw [if_pos hup, hparts, resolve_up]
      exact ih (by simp at hfuel ⊢; omega)
    rw [if_neg hup]
    by_cases htwo : path = [DOT, DOT]
    · subst htwo
      have hparts : parts [DOT, DOT] = [[DOT, DOT]] := by decide
      rw [if_pos rfl, if_pos (Or.inl rfl), hparts]
      rfl
    rw [if_neg htwo]
    by_cases hend : path = [] ∨ path = [DOT]
    · rw [if_pos hend]
      rcases hend with rfl | rfl
      · rfl
      · have hparts : parts [DOT] = [[DOT]] := by decide
        rw [hparts]
        rfl
    rw [if_neg hend]
    rw [not_or] at hend
    -- The first part is a name: the other cases are gone.
    have hfirst : ∀ name, (name = [DOT] ∨ name = [DOT, DOT]) →
        path ≠ name ∧ ∀ rest, path ≠ name ++ SLASH :: rest := by
      rintro name (rfl | rfl)
      · refine ⟨hend.2, ?_⟩
        rintro rest rfl
        exact hdot (List.isPrefixOf_iff_prefix.mpr ⟨rest, rfl⟩)
      · refine ⟨htwo, ?_⟩
        rintro rest rfl
        exact hup (List.isPrefixOf_iff_prefix.mpr ⟨rest, rfl⟩)
    obtain ⟨name, names, hparts, hname⟩ : ∃ name names, parts path = name :: names ∧
        (path = name ∨ ∃ rest, path = name ++ SLASH :: rest) := by
      rcases path_cases path with ⟨hno, -⟩ | ⟨name, rest, hpath, hno, -⟩
      · exact ⟨path, [], parts_of_not_mem hend.1 hno, Or.inl rfl⟩
      · exact ⟨name, parts rest, hpath ▸ parts_slash hno rest, Or.inr ⟨rest, hpath⟩⟩
    have hordinary : ¬ (name = [DOT] ∨ name = [DOT, DOT]) := by
      intro hdots
      obtain ⟨hne, hno⟩ := hfirst name hdots
      rcases hname with heq | ⟨rest, heq⟩
      · exact hne heq
      · exact hno rest heq
    rw [not_or] at hordinary
    rw [hparts, resolve, if_neg hordinary.1, if_neg hordinary.2]

/-- An open does what the end of the walk down its path says. -/
theorem openFrom_eq (fs : Dzfs) (flags : UInt32) (date : UInt64) (path : List UInt8)
    (hrel : relativeTo ≠ 0) :
    openFrom fs path relativeTo flags date
      = openAt fs flags date relativeTo (resolve fs relativeTo (parts path)) := by
  rw [resolve_skipDots fs (Nat.lt_succ_self path.length)]
  unfold openFrom
  rw [if_neg hrel]
  simp only
  split
  · rfl
  · rename_i hrest
    exact traverse_eq fs flags date relativeTo (Nat.lt_succ_self _) (not_or.mp hrest).1

/-! ### The end of a walk -/

section
variable {fs : Dzfs} {folder cur : Nat} {name : List UInt8} {names : List (List UInt8)}

section

variable
  (hlookup : ∀ f name, P f → folderLookupName fs (fs.disk f) name ≠ 0 →
    entityType (fs.disk (folderLookupName fs (fs.disk f) name)) = DZFS_ENTITY_FOLDER →
    P (folderLookupName fs (fs.disk f) name))

include hlookup

/-- A walk stays in folders with `P`, when the lookups in them lead to such folders. -/
theorem walkParts_folder (hP : P folder) (hend : (walkParts fs folder names).folder = some cur) :
    P cur := by
  induction names generalizing folder with
  | nil =>
    obtain rfl := Option.some.inj hend
    exact hP
  | cons first names ih =>
    by_cases hnames : names = []
    · subst hnames
      rw [walkParts_singleton] at hend
      split at hend
      · obtain rfl := Option.some.inj hend
        exact hP
      · obtain rfl := Option.some.inj hend
        exact hP
    · rw [walkParts_cons fs folder first hnames] at hend
      split at hend
      · cases hend
      · rename_i hfound
        split at hend
        · cases hend
        · rename_i htype
          exact ih (hlookup folder first hP hfound (not_not.mp htype)) hend

theorem resolve_folder (hdots : ∀ f ∈ dotFolders fs (path.length + 1) folder path, P f)
    (hP : P folder) (hend : (resolve fs folder (parts path)).folder = some cur) : P cur := by
  have hskip := skipDots_folder fs (path.length + 1) folder path hP hdots
  rw [resolve_skipDots fs (Nat.lt_succ_self path.length)] at hend
  split at hend
  · obtain rfl := Option.some.inj hend
    exact hskip
  · exact walkParts_folder hlookup hskip hend

end

/-- What the end of a walk says about the last part of the path: what is found is an entry with
this name, and a missing name is no entry. -/
def PathEnd.Looks (fs : Dzfs) (last : Option (List UInt8)) : PathEnd → Prop
  | .found cur n => n ≠ 0 ∧ ∃ name, last = some name ∧ n = folderLookupName fs (fs.disk cur) name
  | .missing cur name => last = some name ∧ folderLookupName fs (fs.disk cur) name = 0
  | _ => True

theorem walkParts_looks (fs : Dzfs) (folder : Nat) (names : List (List UInt8)) :
    (walkParts fs folder names).Looks fs names.getLast? := by
  induction names generalizing folder with
  | nil => trivial
  | cons first names ih =>
    by_cases hnames : names = []
    · subst hnames
      rw [walkParts_singleton]
      split
      · rename_i hmissing
        exact ⟨rfl, hmissing⟩
      · rename_i hfound
        exact ⟨hfound, first, rfl, rfl⟩
    · rw [walkParts_cons fs folder first hnames, List.getLast?_cons_of_ne_nil hnames]
      split
      · trivial
      · split
        · trivial
        · exact ih _

theorem resolve_looks (fs : Dzfs) (folder : Nat) (names : List (List UInt8)) :
    (resolve fs folder names).Looks fs names.getLast? := by
  induction names generalizing folder with
  | nil => trivial
  | cons first names ih =>
    have hrest : ∀ f, (resolve fs f names).Looks fs (first :: names).getLast? := by
      intro f
      by_cases hnames : names = []
      · subst hnames
        trivial
      · rw [List.getLast?_cons_of_ne_nil hnames]
        exact ih f
    rw [resolve]
    split
    · exact hrest _
    · split
      · exact hrest _
      · exact walkParts_looks _ _ _

/-- What a walk finds is an entry of the folder where it ends. -/
theorem resolve_found (hend : resolve fs folder names = .found cur n) :
    n ≠ 0 ∧ ∃ name, n = folderLookupName fs (fs.disk cur) name := by
  have hlooks := resolve_looks fs folder names
  rw [hend] at hlooks
  exact hlooks.imp_right (Exists.imp fun _ => And.right)

end

/-! ### Whole paths -/

/-- The folder and the path behind the leading slashes of a path. -/
def openStart (fs : Dzfs) : List UInt8 → Nat → Nat × List UInt8
  | [], relativeTo => (relativeTo, [])
  | c :: path, relativeTo =>
    if c = SLASH then openStart fs path fs.rootDnode else (relativeTo, c :: path)

theorem openStart_slash (fs : Dzfs) (path : List UInt8) (relativeTo : Nat) :
    openStart fs (SLASH :: path) relativeTo = openStart fs path fs.rootDnode := by
  rw [openStart, if_pos rfl]

theorem openStart_of_ne (fs : Dzfs) (hc : c ≠ SLASH) (path : List UInt8) (relativeTo : Nat) :
    openStart fs (c :: path) relativeTo = (relativeTo, c :: path) := by
  rw [openStart, if_neg hc]

/-- The folders that an open goes up to. -/
def upFolders (fs : Dzfs) (path : List UInt8) (relativeTo : Nat) : List Nat :=
  let (folder, rest) := openStart fs path relativeTo
  dotFolders fs (rest.length + 1) folder rest

/-- The end of the walk of a path. -/
def pathEnd (fs : Dzfs) (path : List UInt8) (relativeTo : Nat) : PathEnd :=
  resolve fs (openStart fs path relativeTo).1 (parts (openStart fs path relativeTo).2)

/-- A slash in front of a path leads to the root folder. -/
theorem pathEnd_slash (fs : Dzfs) (path : List UInt8) (relativeTo : Nat) :
    pathEnd fs (SLASH :: path) relativeTo = pathEnd fs path fs.rootDnode := by
  rw [pathEnd, openStart_slash, pathEnd]

/-- `dzfsOpenRelative` does what the end of the walk says. A path of slashes only is the root
folder, with itself as its parent. -/
theorem dzfsOpenRelative_eq (hroot : fs.rootDnode ≠ 0) (flags : UInt32) (date : UInt64)
    (path : List UInt8) (hrel : relativeTo ≠ 0) :
    dzfsOpenRelative fs flags date path relativeTo =
      if path ≠ [] ∧ (openStart fs path relativeTo).2 = [] then
        (⟨.OK, some fs.rootDnode, some fs.rootDnode⟩, fs)
      else openAt fs flags date (openStart fs path relativeTo).1 (pathEnd fs path relativeTo) := by
  induction path generalizing relativeTo with
  | nil => exact openFrom_eq fs flags date [] hrel
  | cons c path ih =>
    unfold dzfsOpenRelative
    by_cases hc : c = SLASH
    · subst hc
      rw [if_pos rfl, openStart_slash, pathEnd_slash]
      by_cases hpath : path = []
      · subst hpath
        rw [if_pos rfl, if_pos ⟨List.cons_ne_nil _ _, rfl⟩]
      · rw [if_neg hpath, ih hroot]
        simp only [ne_eq, hpath, not_false_eq_true, true_and, reduceCtorEq]
    · rw [if_neg hc, pathEnd, openStart_of_ne fs hc, if_neg (fun h => List.cons_ne_nil _ _ h.2)]
      exact openFrom_eq fs flags date (c :: path) hrel

/-- The last part of a path is behind its leading slash. -/
theorem getLast?_parts_slash (h : (parts path).getLast? = some name) :
    (parts (SLASH :: path)).getLast? = some name := by
  have hparts : parts (SLASH :: path) = [] :: parts path :=
    parts_slash (show SLASH ∉ [] by decide) path
  have hne : parts path ≠ [] := by
    intro hnil
    rw [hnil] at h
    cases h
  rw [hparts, List.getLast?_cons_of_ne_nil hne]
  exact h

theorem pathEnd_missing (hend : pathEnd fs path relativeTo = .missing cur name) :
    (parts path).getLast? = some name ∧ folderLookupName fs (fs.disk cur) name = 0 := by
  induction path generalizing relativeTo with
  | nil => cases hend
  | cons c path ih =>
    by_cases hc : c = SLASH
    · subst hc
      rw [pathEnd_slash] at hend
      exact (ih hend).imp_left getLast?_parts_slash
    · rw [pathEnd, openStart_of_ne fs hc] at hend
      have hlooks := resolve_looks fs relativeTo (parts (c :: path))
      rw [show resolve fs relativeTo (parts (c :: path)) = _ from hend] at hlooks
      exact hlooks

/-- The walk of a path ends in a folder with `P`, when the lookups and the leading `..` lead to
such folders. -/
theorem pathEnd_folder (hlookup : ∀ f name, P f → folderLookupName fs (fs.disk f) name ≠ 0 →
      entityType (fs.disk (folderLookupName fs (fs.disk f) name)) = DZFS_ENTITY_FOLDER →
      P (folderLookupName fs (fs.disk f) name)) (hdots : ∀ f ∈ upFolders fs path relativeTo, P f)
    (hroot : P fs.rootDnode) (hrel : P relativeTo)
    (hend : (pathEnd fs path relativeTo).folder = some cur) : P cur := by
  have hstart : P (openStart fs path relativeTo).1 := by
    clear hend hdots
    induction path generalizing relativeTo with
    | nil => exact hrel
    | cons c path ih =>
      rw [openStart]
      split
      · exact ih hroot
      · exact hrel
  exact resolve_folder hlookup hdots hstart hend

/-- The folders that `..` leads to have `P`, when `..` leads from such folders to such
folders. -/
theorem upFolders_of_goUp (hup : ∀ f, P f → P (goUp fs f)) (hroot : P fs.rootDnode)
    (hrel : P relativeTo) : ∀ f ∈ upFolders fs path relativeTo, P f := by
  have hdots : ∀ (fuel folder : Nat) (path : List UInt8), P folder →
      ∀ f ∈ dotFolders fs fuel folder path, P f := by
    intro fuel
    induction fuel with
    | zero =>
      intro folder path _ f hf
      cases hf
    | succ fuel ih =>
      intro folder path hP f hf
      unfold dotFolders at hf
      split at hf
      · exact ih folder _ hP f hf
      · split at hf
        · rcases List.mem_cons.mp hf with rfl | hf
          · exact hup folder hP
          · exact ih _ _ (hup folder hP) f hf
        · split at hf
          · obtain rfl := List.mem_singleton.mp hf
            exact hup folder hP
          · cases hf
  induction path generalizing relativeTo with
  | nil => exact hdots _ _ _ hrel
  | cons c path ih =>
    by_cases hc : c = SLASH
    · subst hc
      rw [upFolders, openStart_slash]
      exact ih hroot
    · rw [upFolders, openStart_of_ne fs hc]
      exact hdots _ _ _ hrel

end DzOS.Proofs.Fs
