import DzOS.Proofs.Fs.Path
import DzOS.Proofs.Fs.Runs

/-!
# `DzOS.Proofs.Fs.PathCompose`: when a path can be opened in two steps

`Composes` is the law of composition: an open of `p/q` ends like an open of `q` from the folder
that `p` leads to. On the parts of a path it is a fact about walks (`resolve_append`). A walk
of `p/q` looks up the dot components of `q` as names, as soon as `p` has a name in it. A walk
of `q` alone stays or goes up at the leading ones. `path_composes_iff` is the exact condition.
-/

set_option autoImplicit false

namespace DzOS.Proofs.Fs

open DzOS.Lib DzOS.Fs

variable {ps : List (List UInt8)}

/-- No component of the path is empty. Such a path is not empty, and it neither starts nor ends
with a slash. -/
def Clean (path : List UInt8) : Prop := ∀ name ∈ path.splitOn SLASH, name ≠ []

instance (path : List UInt8) : Decidable (Clean path) :=
  inferInstanceAs (Decidable (∀ name ∈ _, name ≠ []))

/-- The part `name` is `.` or `..`. -/
def IsDots (name : List UInt8) : Prop := name = [DOT] ∨ name = [DOT, DOT]

instance (name : List UInt8) : Decidable (IsDots name) :=
  inferInstanceAs (Decidable (_ ∨ _))

section
variable {p q : List UInt8}

theorem Clean.ne_nil (h : Clean p) : p ≠ [] := by
  rintro rfl
  exact h [] (by decide) rfl

theorem Clean.head_ne (h : Clean p) : p.head? ≠ some SLASH := by
  intro hhead
  obtain ⟨rest, rfl⟩ := List.head?_eq_some_iff.mp hhead
  refine h [] ?_ rfl
  have hsplit := List.splitOn_append_cons_self (a := SLASH) [] rest
  rw [List.nil_append] at hsplit
  rw [hsplit]
  exact List.mem_append_left _ (by decide)

theorem Clean.append (hp : Clean p) (hq : Clean q) : Clean (p ++ SLASH :: q) := by
  intro name hname
  rw [List.splitOn_append_cons_self, List.mem_append] at hname
  rcases hname with hname | hname
  · exact hp name hname
  · exact hq name hname

theorem Clean.parts_eq (h : Clean p) : parts p = p.splitOn SLASH := by
  have hlast : p.getLast? ≠ some SLASH := by
    intro hlast
    obtain ⟨front, rfl⟩ := List.getLast?_eq_some_iff.mp hlast
    refine h [] ?_ rfl
    rw [List.splitOn_append_cons_self]
    exact List.mem_append_right _ (by decide)
  rw [parts, if_neg h.ne_nil, dropSlash, if_neg hlast]

theorem Clean.parts_ne_nil (h : Clean p) : parts p ≠ [] := by
  rw [h.parts_eq]
  exact List.splitOn_ne_nil SLASH p

theorem Clean.parts_append (hp : Clean p) (hq : Clean q) :
    parts (p ++ SLASH :: q) = parts p ++ parts q := by
  rw [(hp.append hq).parts_eq, hp.parts_eq, hq.parts_eq, List.splitOn_append_cons_self]

/-- A clean path does not go to `dzfsOpenAbsolute`. -/
theorem Clean.open_eq (h : Clean p) (fs : Dzfs) (flags : UInt32) (date : UInt64)
    (relativeTo : Nat) :
    dzfsOpenRelative fs flags date p relativeTo = openFrom fs p relativeTo flags date := by
  cases p with
  | nil => rfl
  | cons c path =>
    have hc : c ≠ SLASH := by
      rintro rfl
      exact h.head_ne rfl
    unfold dzfsOpenRelative
    rw [if_neg hc]

end

/-! ### Walks of two lists of parts -/

section
variable {fs : Dzfs} {folder d : Nat} {ps qs : List (List UInt8)}

/-- A walk of names that leads to a folder goes on from there. -/
theorem walkParts_append (hps : ps ≠ []) (hqs : qs ≠ [])
    (hend : (walkParts fs folder ps).entity = some d)
    (hd : entityType (fs.disk d) = DZFS_ENTITY_FOLDER) :
    walkParts fs folder (ps ++ qs) = walkParts fs d qs := by
  induction ps generalizing folder with
  | nil => exact absurd rfl hps
  | cons name names ih =>
    have hne : names ++ qs ≠ [] := List.append_ne_nil_of_right_ne_nil names hqs
    rw [List.cons_append, walkParts_cons fs folder name hne]
    by_cases hnames : names = []
    · subst hnames
      rw [walkParts_singleton] at hend
      by_cases hfound : folderLookupName fs (fs.disk folder) name = 0
      · rw [if_pos hfound] at hend
        cases hend
      · rw [if_neg hfound] at hend
        obtain rfl := Option.some.inj hend
        rw [if_neg hfound, if_neg (not_not_intro hd), List.nil_append]
    · rw [walkParts_cons fs folder name hnames] at hend
      by_cases hfound : folderLookupName fs (fs.disk folder) name = 0
      · rw [if_pos hfound] at hend
        cases hend
      rw [if_neg hfound] at hend ⊢
      by_cases htype : entityType (fs.disk (folderLookupName fs (fs.disk folder) name))
          ≠ DZFS_ENTITY_FOLDER
      · rw [if_pos htype] at hend
        cases hend
      · rw [if_neg htype] at hend ⊢
        exact ih hnames hend

/-- Dots in front of the parts change the folder only. -/
theorem resolve_append_dots (hdots : ∀ name ∈ ps, IsDots name)
    (hend : (resolve fs folder ps).entity = some d) :
    resolve fs folder (ps ++ qs) = resolve fs d qs := by
  induction ps generalizing folder with
  | nil =>
    obtain rfl := Option.some.inj hend
    rfl
  | cons name names ih =>
    have hrest : ∀ name ∈ names, IsDots name := fun n hn => hdots n (List.mem_cons_of_mem _ hn)
    rw [List.cons_append]
    rcases hdots name List.mem_cons_self with rfl | rfl
    · rw [resolve_dot] at hend ⊢
      exact ih hrest hend
    · rw [resolve_up] at hend ⊢
      exact ih hrest hend

/-- Behind a name, the walk takes all parts as names. -/
theorem resolve_append_names (hname : ∃ name ∈ ps, ¬ IsDots name) (hqs : qs ≠ [])
    (hend : (resolve fs folder ps).entity = some d)
    (hd : entityType (fs.disk d) = DZFS_ENTITY_FOLDER) :
    resolve fs folder (ps ++ qs) = walkParts fs d qs := by
  induction ps generalizing folder with
  | nil =>
    obtain ⟨name, hmem, -⟩ := hname
    cases hmem
  | cons first names ih =>
    have hrest : IsDots first → ∃ name ∈ names, ¬ IsDots name := by
      intro hfirst
      obtain ⟨name, hmem, hno⟩ := hname
      rcases List.mem_cons.mp hmem with rfl | hmem
      · exact absurd hfirst hno
      · exact ⟨name, hmem, hno⟩
    rw [List.cons_append, resolve]
    rw [resolve] at hend
    by_cases hone : first = [DOT]
    · rw [if_pos hone] at hend ⊢
      exact ih (hrest (Or.inl hone)) hend
    rw [if_neg hone] at hend ⊢
    by_cases htwo : first = [DOT, DOT]
    · rw [if_pos htwo] at hend ⊢
      exact ih (hrest (Or.inr htwo)) hend
    rw [if_neg htwo] at hend ⊢
    exact walkParts_append (List.cons_ne_nil first names) hqs hend hd

/-- Parts that start with a name are all names. -/
theorem resolve_of_name (hqs : qs ≠ []) (hname : ∀ name, qs.head? = some name → ¬ IsDots name) :
    resolve fs folder qs = walkParts fs folder qs := by
  cases qs with
  | nil => exact absurd rfl hqs
  | cons name names =>
    have hno := hname name rfl
    rw [IsDots, not_or] at hno
    rw [resolve, if_neg hno.1, if_neg hno.2]

end

/-! ### The law of composition -/

/-- The result of an open, and the dnode if it gives one. -/
def openResult (o : OpenOut × Dzfs) : DzfsResult × Option Nat := (o.1.result, o.1.dnode)

/-- What an open without `DZFS_O_CREATE` gives for the end of its walk. -/
def endResult : Option Nat → DzfsResult × Option Nat
  | some d => (.OK, some d)
  | none => (.ERR_NOT_FOUND, none)

theorem openResult_openAt (fs : Dzfs) (date : UInt64) (relativeTo : Nat) (e : PathEnd) :
    openResult (openAt fs 0 date relativeTo e) = endResult e.entity := by
  cases e <;> rfl

theorem endResult_injective : Function.Injective endResult := by
  intro a b h
  cases a <;> cases b <;> simp_all [endResult]

/-- The path `p/q` ends like the path `q` from the folder that `p` leads to. -/
def Composes (fs : Dzfs) (date : UInt64) (r : Nat) (p q : List UInt8) : Prop :=
  ∀ d, openResult (dzfsOpenRelative fs 0 date p r) = (.OK, some d) →
    entityType (fs.disk d) = DZFS_ENTITY_FOLDER →
    openResult (dzfsOpenRelative fs 0 date (p ++ SLASH :: q) r)
      = openResult (dzfsOpenRelative fs 0 date q d)

/-- From the folder `d`, the parts lead to the same entity when their leading `.` and `..` are
looked up as names. -/
def DotsLikeNames (fs : Dzfs) (d : Nat) (qs : List (List UInt8)) : Prop :=
  (walkParts fs d qs).entity = (resolve fs d qs).entity

/-- When the law holds: `p` has no name in it, `q` starts with a name, or the dots of `q` make
no difference in the folder that `p` leads to. -/
def ComposesWhen (fs : Dzfs) (r : Nat) (ps qs : List (List UInt8)) : Prop :=
  (∀ name ∈ ps, IsDots name) ∨ (∀ name, qs.head? = some name → ¬ IsDots name) ∨
    ∀ d, (resolve fs r ps).entity = some d → entityType (fs.disk d) = DZFS_ENTITY_FOLDER →
      DotsLikeNames fs d qs

/-- In a folder without an entry for the first part, the dots make no difference if and only
if they lead to nothing. -/
theorem dotsLikeNames_iff {fs : Dzfs} {d : Nat} {name : List UInt8} {names : List (List UInt8)}
    (hno : folderLookupName fs (fs.disk d) name = 0) :
    DotsLikeNames fs d (name :: names) ↔ (resolve fs d (name :: names)).entity = none := by
  have hnone : (walkParts fs d (name :: names)).entity = none := by
    cases names with
    | nil => rw [walkParts_singleton, if_pos hno]; rfl
    | cons next names => rw [walkParts_cons fs d name (by simp), if_pos hno]; rfl
  rw [DotsLikeNames, hnone]
  exact eq_comm

section
variable {fs : Dzfs} {r d : Nat} {p q : List UInt8} {date : UInt64}

theorem Clean.openResult_eq (h : Clean p) (hr : r ≠ 0) :
    openResult (dzfsOpenRelative fs 0 date p r) = endResult (resolve fs r (parts p)).entity := by
  rw [h.open_eq, openFrom_eq fs 0 date p hr, openResult_openAt]

theorem goUp_ne_zero (hr : r ≠ 0) : goUp fs r ≠ 0 := by
  unfold goUp
  split
  · assumption
  · exact hr

theorem walkParts_entity_ne_zero (hr : r ≠ 0) (hend : (walkParts fs r ps).entity = some d) :
    d ≠ 0 := by
  induction ps generalizing r with
  | nil =>
    obtain rfl := Option.some.inj hend
    exact hr
  | cons name names ih =>
    by_cases hnames : names = []
    · subst hnames
      rw [walkParts_singleton] at hend
      split at hend
      · cases hend
      · rename_i hfound
        obtain rfl := Option.some.inj hend
        exact hfound
    · rw [walkParts_cons fs r name hnames] at hend
      split at hend
      · cases hend
      · rename_i hfound
        split at hend
        · cases hend
        · exact ih hfound hend

/-- A walk does not end in block 0. -/
theorem resolve_entity_ne_zero (hr : r ≠ 0) (hend : (resolve fs r ps).entity = some d) : d ≠ 0 := by
  induction ps generalizing r with
  | nil =>
    obtain rfl := Option.some.inj hend
    exact hr
  | cons name names ih =>
    rw [resolve] at hend
    split at hend
    · exact ih hr hend
    · split at hend
      · exact ih (goUp_ne_zero hr) hend
      · exact walkParts_entity_ne_zero hr hend

/-- The law, on the parts of the two paths. -/
theorem composes_iff_resolve (hp : Clean p) (hq : Clean q) (hr : r ≠ 0) :
    Composes fs date r p q ↔ ∀ d, (resolve fs r (parts p)).entity = some d →
      entityType (fs.disk d) = DZFS_ENTITY_FOLDER →
      (resolve fs r (parts p ++ parts q)).entity = (resolve fs d (parts q)).entity := by
  have hok : ∀ (e : Option Nat) (d : Nat), endResult e = (.OK, some d) ↔ e = some d := by
    intro e d
    exact endResult_injective.eq_iff (b := some d)
  unfold Composes
  rw [hp.openResult_eq hr, (hp.append hq).openResult_eq hr, hp.parts_append hq]
  refine forall_congr' fun d => ?_
  rw [hok]
  refine imp_congr_right fun hend => imp_congr_right fun _ => ?_
  rw [hq.openResult_eq (resolve_entity_ne_zero hr hend), endResult_injective.eq_iff]

/-- A path can be opened in two steps if and only if `ComposesWhen` holds of the folder and the
parts of the two paths. -/
theorem path_composes_iff (fs : Dzfs) (date : UInt64) (r : Nat) (hp : Clean p) (hq : Clean q) :
    Composes fs date r p q ↔ r = 0 ∨ ComposesWhen fs r (parts p) (parts q) := by
  by_cases hr : r = 0
  · -- Without a folder the first open fails.
    subst hr
    refine iff_of_true (fun d hopen => ?_) (Or.inl rfl)
    rw [hp.open_eq, openFrom, if_pos rfl] at hopen
    cases hopen
  rw [composes_iff_resolve hp hq hr, or_iff_right hr]
  have hqs := hq.parts_ne_nil
  constructor
  · intro h
    by_cases hdots : ∀ name ∈ parts p, IsDots name
    · exact Or.inl hdots
    refine Or.inr (Or.inr fun d hend hd => ?_)
    rw [DotsLikeNames, ← h d hend hd, resolve_append_names (by simpa using hdots) hqs hend hd]
  · intro h d hend hd
    by_cases hdots : ∀ name ∈ parts p, IsDots name
    · rw [resolve_append_dots hdots hend]
    rw [resolve_append_names (by simpa using hdots) hqs hend hd]
    rcases h with h | h | h
    · exact absurd h hdots
    · rw [resolve_of_name hqs h]
    · exact h d hend hd

end

/-- A disk with the folder `a` and the file `a/b`. -/
def nestedDisk : Dzfs := (exec oneFolderState (.openRelative [98] 4 1 0)).fs

/-- The path `a/b` leads to the file there, as `b` does from the folder `a`. -/
theorem path_composes_iff_folder :
    openResult (dzfsOpenRelative nestedDisk 0 0 [97, 47, 98] 3) = (.OK, some 5) ∧
      Composes nestedDisk 0 3 [97] [98] := by
  have hparts : parts [98] = [[98]] := parts_of_not_mem (by decide) (by decide)
  have hname : ∀ name, (parts [98]).head? = some name → ¬ IsDots name := by
    intro name hname
    rw [hparts] at hname
    obtain rfl := Option.some.inj hname
    decide
  refine ⟨by decide +kernel, ?_⟩
  exact (path_composes_iff nestedDisk 0 3 (by decide) (by decide)).mpr
    (Or.inr (Or.inr (Or.inl hname)))

/-- The path `a/..` cannot be opened, but `..` can be opened from the folder `a`. -/
theorem path_not_composes :
    (Reachable (fun s c => Valid s c ∧ Safe s c) (newState formattedDisk) oneFolderState) ∧
      Clean [97] ∧ Clean [DOT, DOT] ∧ ¬ Composes oneFolderState.fs 0 3 [97] [DOT, DOT] := by
  have hrun : OkRun (fun s c => Valid s c ∧ Safe s c) (newState formattedDisk)
      [.openRelative [97] 3 3 0] := by decide +kernel
  refine ⟨hrun.reachable .start, by decide, by decide, fun hlaw => ?_⟩
  have hopen : openResult (dzfsOpenRelative oneFolderState.fs 0 0 [97] 3) = (.OK, some 4) := by
    decide +kernel
  have hfolder : entityType (oneFolderState.fs.disk 4) = DZFS_ENTITY_FOLDER := by decide +kernel
  have hsame := hlaw 4 hopen hfolder
  have hlong : openResult (dzfsOpenRelative oneFolderState.fs 0 0 ([97] ++ SLASH :: [DOT, DOT]) 3)
      = (.ERR_NOT_FOUND, none) := by decide +kernel
  have hshort : openResult (dzfsOpenRelative oneFolderState.fs 0 0 [DOT, DOT] 4)
      = (.OK, some 3) := by decide +kernel
  rw [hlong, hshort] at hsame
  cases hsame

end DzOS.Proofs.Fs
