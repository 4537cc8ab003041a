import DzOS.Proofs.Fs.Names

/-!
# `DzOS.Proofs.Fs.UniqueNames`: the names of a folder are different

The name of an entity is the C string in its header. `UniqueNames` states that the entities of a
folder have different names, and that each name fits. Then `folderLookupName` is the inverse of
the names (`UniqueNames.lookup_iff`).

`NameLaw` is about the names that an open can reach. Here the names are those on the disk, so an
entity may also be called `..` or have a slash in its name, and a move may give it such a name.
Creations, deletions and moves keep the names different: a creation is for a name that the lookup
does not find, and a move deletes the entity that has the name already.
-/

set_option autoImplicit false

namespace DzOS.Proofs.Fs

open DzOS.Lib DzOS.Fs

variable {l freed : List Nat} {b : Bytes} {newName : Option (List UInt8)}

/-! ### The name in a header -/

/-- A C string has no `NUL`. It is what the block has there, with a `NUL` behind it if it ends
inside its room. -/
theorem cstring_spec (b : Bytes) (left i : Nat) :
    0 ∉ cstring b left i ∧ b.slice i (cstring b left i).length = cstring b left i ∧
      ((cstring b left i).length < left → b (i + (cstring b left i).length) = 0) := by
  induction left generalizing i with
  | zero => exact ⟨List.not_mem_nil, rfl, fun h => absurd h (Nat.lt_irrefl 0)⟩
  | succ left ih =>
    unfold cstring
    split
    · rename_i hz
      exact ⟨List.not_mem_nil, rfl, fun _ => hz⟩
    · rename_i hnz
      obtain ⟨hno, hslice, hend⟩ := ih (i + 1)
      refine ⟨?_, ?_, fun hlt => ?_⟩
      · rw [List.mem_cons, not_or]
        exact ⟨Ne.symm hnz, hno⟩
      · rw [List.length_cons, Bytes.slice_succ, hslice]
      · rw [List.length_cons] at hlt ⊢
        rw [← hend (by omega)]
        congr 1
        omega

section
variable {b b' : Bytes} {name : List UInt8}

theorem headerName_no_nul (b : Bytes) : 0 ∉ headerName b := (cstring_spec b _ 1).1

theorem nameMatches_headerName (hlen : (headerName b).length ≤ DZFS_MAX_FILENAME) :
    nameMatches b (headerName b) = true := by
  obtain ⟨-, hslice, hend⟩ := cstring_spec b (DZFS_BLOCK_SIZE - 1) 1
  simp only [nameMatches, decide_eq_true_eq]
  refine ⟨hslice, hend ?_⟩
  exact lt_of_le_of_lt hlen (by decide)

/-- The comparison of the lookup is equality of names. -/
theorem nameMatches_iff (hno : 0 ∉ name) (hlen : name.length ≤ DZFS_MAX_FILENAME) :
    nameMatches b name = true ↔ headerName b = name := by
  constructor
  · exact headerName_of_matches hno hlen
  · rintro rfl
    exact nameMatches_headerName hlen

/-- The name depends on the header only. -/
theorem headerName_congr (h : ∀ i < SIZE_OFFSET, b' i = b i)
    (hlen : (headerName b).length ≤ DZFS_MAX_FILENAME) : headerName b' = headerName b := by
  refine headerName_of_matches (headerName_no_nul b) hlen ?_
  rw [nameMatches_congr h hlen]
  exact nameMatches_headerName hlen

end

/-! ### Different names -/

/-- Every listed entity has a name that fits, and no other entity of its folder has it. -/
structure UniqueNames (fs : Dzfs) (ls : Nat → List Nat) : Prop where
  short : ∀ f n, n ∈ ls f → (headerName (fs.disk n)).length ≤ DZFS_MAX_FILENAME
  distinct : ∀ f n m, n ∈ ls f → m ∈ ls f →
    headerName (fs.disk n) = headerName (fs.disk m) → n = m

section
variable {fs fs' : Dzfs} {ls ls' : Nat → List Nat} {f n : Nat} {name : List UInt8}

/-- The lookup of a name finds the entity that has it. -/
theorem UniqueNames.lookup_iff (h : UniqueNames fs ls) (hlists : Lists (fs.disk f) (ls f))
    (hno : 0 ∉ name) (hlen : name.length ≤ DZFS_MAX_FILENAME) (hn : n ≠ 0) :
    folderLookupName fs (fs.disk f) name = n ↔ n ∈ ls f ∧ headerName (fs.disk n) = name := by
  have hfinds : folderLookupName fs (fs.disk f) name ≠ 0 →
      headerName (fs.disk (folderLookupName fs (fs.disk f) name)) = name := fun hne =>
    headerName_of_matches hno hlen (lookupFrom_matches fs (fs.disk f) name _ 0 hne)
  constructor
  · rintro rfl
    exact ⟨hlists.lookup_mem hn, hfinds hn⟩
  · rintro ⟨hmem, hname⟩
    have hne := hlists.lookup_ne_zero hmem ((nameMatches_iff hno hlen).mpr hname)
    exact h.distinct f _ n (hlists.lookup_mem hne) hmem ((hfinds hne).trans hname.symm)

/-- The lookup finds nothing if and only if no entity has the name. -/
theorem Lists.lookup_eq_zero_iff (hlists : Lists (fs.disk f) l) (hno : 0 ∉ name)
    (hlen : name.length ≤ DZFS_MAX_FILENAME) :
    folderLookupName fs (fs.disk f) name = 0 ↔ ∀ n ∈ l, headerName (fs.disk n) ≠ name := by
  constructor
  · intro hzero n hn hname
    exact hlists.lookup_ne_zero hn ((nameMatches_iff hno hlen).mpr hname) hzero
  · intro hnone
    by_contra hne
    exact hnone _ (hlists.lookup_mem hne)
      (headerName_of_matches hno hlen (lookupFrom_matches fs (fs.disk f) name _ 0 hne))

/-- Entities may leave their folders. -/
theorem UniqueNames.mono (h : UniqueNames fs ls) (hmem : ∀ g m, m ∈ ls' g → m ∈ ls g)
    (hheader : ∀ g m, m ∈ ls g → ∀ i < SIZE_OFFSET, fs'.disk m i = fs.disk m i) :
    UniqueNames fs' ls' := by
  have hname : ∀ g m, m ∈ ls g → headerName (fs'.disk m) = headerName (fs.disk m) :=
    fun g m hm => headerName_congr (hheader g m hm) (h.short g m hm)
  refine ⟨fun g m hm => ?_, fun g m k hm hk heq => ?_⟩
  · rw [hname g m (hmem g m hm)]
    exact h.short g m (hmem g m hm)
  · rw [hname g m (hmem g m hm), hname g k (hmem g k hk)] at heq
    exact h.distinct g m k (hmem g m hm) (hmem g k hk) heq

/-- The entity `n` enters the folder `f` with a name that is new there. -/
theorem UniqueNames.put (h : UniqueNames fs ls)
    (hmem : ∀ g m, m ∈ ls' g → (m ∈ ls g ∧ m ≠ n) ∨ (g = f ∧ m = n))
    (hheader : ∀ g m, m ∈ ls g → m ≠ n → ∀ i < 268, fs'.disk m i = fs.disk m i)
    (hlen : (headerName (fs'.disk n)).length ≤ DZFS_MAX_FILENAME)
    (hnew : ∀ m ∈ ls f, headerName (fs.disk m) ≠ headerName (fs'.disk n)) :
    UniqueNames fs' ls' := by
  have hname : ∀ g m, m ∈ ls g → m ≠ n → headerName (fs'.disk m) = headerName (fs.disk m) :=
    fun g m hm hmn =>
      headerName_congr (fun i hi => hheader g m hm hmn i (hi.trans (by decide))) (h.short g m hm)
  refine ⟨fun g m hm => ?_, fun g m k hm hk heq => ?_⟩
  · rcases hmem g m hm with ⟨hm, hmn⟩ | ⟨-, rfl⟩
    · rw [hname g m hm hmn]
      exact h.short g m hm
    · exact hlen
  · rcases hmem g m hm with ⟨hm, hmn⟩ | ⟨hg, rfl⟩
    · rcases hmem g k hk with ⟨hk, hkn⟩ | ⟨hg, rfl⟩
      · rw [hname g m hm hmn, hname g k hk hkn] at heq
        exact h.distinct g m k hm hk heq
      · rw [hname g m hm hmn] at heq
        exact absurd heq (hnew m (hg ▸ hm))
    · rcases hmem g k hk with ⟨hk, hkn⟩ | ⟨-, hkm⟩
      · rw [hname g k hk hkn] at heq
        exact absurd heq.symm (hnew k (hg ▸ hk))
      · exact hkm.symm

end

/-! ### The operations -/

section
variable {fs fs' : Dzfs} {E : Finset Nat} {ls : Nat → List Nat} {d f n cur old new : Nat}

section

variable (h : UniqueNames fs ls) (hinv : Inv fs E ls)

include h hinv

/-- A creation of an entity that the lookup did not find. -/
theorem UniqueNames.create (hcur : cur ∈ E)
    (hfolder : entityType (fs.disk cur) = DZFS_ENTITY_FOLDER) {name : List UInt8} {flags : UInt32}
    {date : UInt64} (hc : Creation fs fs' E ls cur n name flags date) (hno : 0 ∉ name)
    (hlen : name.length ≤ DZFS_MAX_FILENAME)
    (hmissing : folderLookupName fs (fs.disk cur) name = 0) :
    UniqueNames fs' (Function.update ls cur (ls cur ++ [n])) := by
  have hname : headerName (fs'.disk n) = name := by
    rw [hc.block]
    exact headerName_of_matches hno hlen (newDnode_name hlen cur flags date)
  refine h.put (f := cur) (n := n) (fun g m hm => ?_) (fun g m hm _ i hi => ?_) ?_ fun m hm => ?_
  · rcases (mem_update_append ls cur n).mp hm with hold | hnew
    · refine Or.inl ⟨hold, ?_⟩
      rintro rfl
      exact hc.not_mem (hinv.entity_of_listed hold).1
    · exact Or.inr hnew
  · exact hc.header_eq hinv (hinv.entity_of_listed hm).1 hi
  · rw [hname]
    exact hlen
  · rw [hname]
    exact ((hinv.lists cur hcur hfolder).lookup_eq_zero_iff hno hlen).mp hmissing m hm

/-- A deletion, up to the order of the list. -/
theorem UniqueNames.unlinked (hf : InFolder fs E ls d f) (hu : Unlinked fs fs' E ls d f freed)
    (hperm : l.Perm ((ls f).erase d)) : UniqueNames fs' (Function.update ls f l) := by
  refine h.mono (fun g m hm => ?_) fun g m hm i hi => ?_
  · exact ((hinv.listing.mem_erase hperm hf.listed).mp hm).1
  · exact hu.header_eq hinv (hinv.entity_of_listed hm).1 (hi.trans (by decide))

/-- After a deletion, the name of the deleted entity is free in its folder. -/
theorem UniqueNames.free_of_unlinked (hf : InFolder fs E ls d f)
    (hu : Unlinked fs fs' E ls d f freed) (hperm : l.Perm ((ls f).erase d)) :
    ∀ m ∈ Function.update ls f l f, headerName (fs'.disk m) ≠ headerName (fs.disk d) := by
  intro m hm heq
  obtain ⟨hmem, hmd⟩ := (hinv.listing.mem_erase hperm hf.listed).mp hm
  have hheader : ∀ i < SIZE_OFFSET, fs'.disk m i = fs.disk m i := fun i hi =>
    hu.header_eq hinv (hinv.entity_of_listed hmem).1 (hi.trans (by decide))
  rw [headerName_congr hheader (h.short f m hmem)] at heq
  exact hmd (h.distinct f m d hmem hf.listed heq)

/-- `dzfsDelete` keeps the names different. -/
theorem UniqueNames.delete (hf : InFolder fs E ls d f) {r : DzfsResult}
    (hdel : dzfsDelete fs d f = (r, fs')) :
    ∃ ls', Inv fs' (if r = .OK then E.erase d else E) ls' ∧ UniqueNames fs' ls' := by
  rcases dzfsDelete_unlinked hinv hf hdel with ⟨rfl, hr⟩ | ⟨rfl, hu⟩
  · rw [if_neg hr]
    exact ⟨ls, hinv, h⟩
  · obtain ⟨l, hperm, hinv'⟩ := hu.inv
    rw [if_pos rfl]
    exact ⟨_, hinv', h.unlinked hinv hf hu hperm⟩

end

/-- A write that keeps the header of its block keeps all headers. -/
theorem header_writeBlock {m : Nat} (hb : ∀ i < 268, b i = fs.disk m i) (e : Nat) :
    ∀ i < 268, (fs.writeBlock m b).disk e i = fs.disk e i := by
  intro i hi
  by_cases hem : e = m
  · rw [hem, ← hb i hi]
    exact congrFun (Function.update_self _ _ _) i
  · exact congrFun (Function.update_of_ne hem _ _) i

/-- What the end of a move of the entity `d` writes: the two folders, without their headers, and for
a new name the block `b` of the entity. -/
structure Entered (fs fs' : Dzfs) (d old new : Nat) (newName : Option (List UInt8)) (b : Bytes) :
    Prop where
  header : ∀ e, (newName.isSome → e ≠ d) → ∀ i < 268, fs'.disk e i = fs.disk e i
  self : newName.isSome → fs'.disk d = b
  disk : ∀ m, m ≠ old → m ≠ new → (newName.isSome → m ≠ d) → fs'.disk m = fs.disk m

/-- What the new parent and the moved entity are afterwards. -/
theorem enterNewParent_entered (hinv : Inv fs E ls) (hold : InFolder fs E ls d old) (hnew : new ∈ E)
    (hfolder : entityType (fs.disk new) = DZFS_ENTITY_FOLDER)
    (hok : enterNewParent fs d old new newName b = (.OK, fs')) :
    Entered fs fs' d old new newName b := by
  have hlists := hinv.lists new hnew hfolder
  have hd := (hinv.entity_of_listed hold.listed).1
  unfold enterNewParent at hok
  simp only [Dzfs.readBlock, hlists.count] at hok
  split at hok
  · cases hok
  rename_i hfull
  have happend := hlists.append (lt_of_le_of_ne hlists.length_le hfull) (hinv.ne_zero hd)
    (hinv.lt_word hd)
  have hkeep : ∀ i < 268, (fs.disk new).setLE 4 (contentOffset (ls new).length) d i
      = fs.disk new i := by
    intro i hi
    refine Bytes.setLE_of_apart (Or.inl ?_)
    simp only [contentOffset]
    omega
  generalize (fs.disk new).setLE 4 (contentOffset (ls new).length) d = newBlock
    at hok happend hkeep
  -- The old folder lists the entity, also when it is the new folder.
  obtain ⟨l, hl, hmem⟩ : ∃ l, Lists ((fs.writeBlock new newBlock).disk old) l ∧ d ∈ l := by
    by_cases hon : old = new
    · refine ⟨ls new ++ [d], ?_, List.mem_append_right _ (List.mem_singleton_self d)⟩
      rw [hon]
      simpa only [Dzfs.writeBlock, Function.update_self] using happend
    · refine ⟨ls old, ?_, hold.listed⟩
      simp only [Dzfs.writeBlock, Function.update_of_ne hon]
      exact hinv.lists old hold.mem hold.folder
  have hfirst : ∀ e, ∀ i < 268, (fs.writeBlock new newBlock).disk e i = fs.disk e i :=
    header_writeBlock hkeep
  obtain ⟨oldBlock, l', hrem, -, -, hkeep'⟩ := hl.remove hmem
  have hoff : entityType ((fs.writeBlock new newBlock).disk old) = DZFS_ENTITY_FOLDER :=
    (hfirst old 0 (by decide)).trans hold.folder
  unfold leaveOldParent at hok
  simp only [Dzfs.readBlock, hoff, ne_eq, not_true_eq_false, if_false, hrem] at hok
  obtain rfl := (Prod.mk.inj hok).2
  have hsecond : ∀ e, ∀ i < 268, ((fs.writeBlock new newBlock).writeBlock old oldBlock).disk e i
      = fs.disk e i := fun e i hi => (header_writeBlock hkeep' e i hi).trans (hfirst e i hi)
  have hother : ∀ m, m ≠ old → m ≠ new →
      ((fs.writeBlock new newBlock).writeBlock old oldBlock).disk m = fs.disk m :=
    fun m hmo hmn => (Function.update_of_ne hmo _ _).trans (Function.update_of_ne hmn _ _)
  cases newName with
  | none =>
    refine ⟨fun e _ => hsecond e, fun hsome => ?_, fun m hmo hmn _ => hother m hmo hmn⟩
    cases hsome
  | some name =>
    refine ⟨fun e hed i hi => ?_, fun _ => Function.update_self _ _ _, fun m hmo hmn hmd => ?_⟩
    · rw [← hsecond e i hi]
      exact congrFun (Function.update_of_ne (hed rfl) _ _) i
    · rw [← hother m hmo hmn]
      exact Function.update_of_ne (hmd rfl) _ _

/-- The moved entity has the name that it had, or its new one. -/
theorem Entered.name_eq (h : Entered fs fs' d old new newName (renamed b newName))
    (hlen : (headerName (fs.disk d)).length ≤ DZFS_MAX_FILENAME)
    (hsame : newName = none → headerName (fs.disk d) = headerName b) :
    headerName (fs'.disk d) = headerName (renamed b newName) := by
  cases newName with
  | none =>
    rw [headerName_congr (fun i hi => h.header d nofun i (hi.trans (by decide))) hlen]
    exact hsame rfl
  | some name => rw [h.self rfl]

/-- The moved file has its block with the new name. -/
theorem Entered.block_eq (h : Entered fs fs' d old new newName (renamed (fs.disk d) newName))
    (hdold : d ≠ old) (hdnew : d ≠ new) : fs'.disk d = renamed (fs.disk d) newName := by
  cases newName with
  | none => exact h.disk d hdold hdnew nofun
  | some name => exact h.self rfl

/-- An entity enters a folder where its name is new. -/
theorem UniqueNames.moved (h : UniqueNames fs ls) (hinv : Inv fs E ls)
    (hold : InFolder fs E ls d old) (hent : Entered fs fs' d old new newName b)
    (hm : Moved fs fs' E ls d old new) (hlen : (headerName (fs'.disk d)).length ≤ DZFS_MAX_FILENAME)
    (hfree : ∀ m ∈ ls new, headerName (fs.disk m) ≠ headerName (fs'.disk d)) :
    ∃ ls', Inv fs' E ls' ∧ UniqueNames fs' ls' := by
  obtain ⟨l, hperm, hinv'⟩ := hm.inv
  refine ⟨_, hinv', h.put (f := new) (n := d) (fun g m hmem => ?_)
    (fun g m _ hmd => hent.header m fun _ => hmd) hlen hfree⟩
  exact (hinv.listing.mem_transfer hold.listed hperm).mp hmem

/-- `dzfsMove` keeps the names different. A move with a new name must not move a folder into or out
of itself. -/
theorem UniqueNames.move (h : UniqueNames fs ls) (hinv : Inv fs E ls)
    (hold : InFolder fs E ls d old) (hnew : new ∈ E)
    (hfolder : entityType (fs.disk new) = DZFS_ENTITY_FOLDER) (newName : Option (List UInt8))
    (hnul : ∀ name ∈ newName, 0 ∉ name) (hsafe : newName.isSome → d ≠ old ∧ d ≠ new) :
    ∃ ls', Inv (dzfsMove fs d old new newName).2 (entitiesAfterMove fs E d old new newName) ls' ∧
      UniqueNames (dzfsMove fs d old new newName).2 ls' := by
  have hlists := hinv.lists new hnew hfolder
  have hd : d ∈ E := (hinv.entity_of_listed hold.listed).1
  have hshort := h.short old d hold.listed
  have hlen : (∀ name ∈ newName, name.length ≤ DZFS_MAX_FILENAME) →
      (headerName (renamed (fs.disk d) newName)).length ≤ DZFS_MAX_FILENAME := by
    intro hfits
    cases newName with
    | none => exact hshort
    | some name =>
      rw [headerName_renamed (hnul name rfl) (hfits name rfl)]
      exact hfits name rfl
  have hno := headerName_no_nul (renamed (fs.disk d) newName)
  rcases dzfsMove_steps hinv hold hnew hfolder newName hnul hsafe with
    ⟨hfs, hE, -⟩ | ⟨-, hfits, hrep, hok, hm, hE⟩ |
      @⟨fs₁, l, -, hfits, hrep, hmem, -, hu, hperm, hinv₁, hold₁, hok, hm, hE⟩
  · rw [hfs, hE]
    exact ⟨ls, hinv, h⟩
  · rw [hE]
    have hent := enterNewParent_entered hinv hold hnew hfolder hok
    have hname := hent.name_eq hshort fun _ => rfl
    refine h.moved hinv hold hent hm ?_ ?_
    · rw [hname]
      exact hlen hfits
    · rw [hname]
      exact (hlists.lookup_eq_zero_iff hno (hlen hfits)).mp hrep
  · rw [hE]
    have hlisted : InFolder fs E ls (replaced fs d new newName) new := ⟨hnew, hfolder, hmem⟩
    have hnew₁ := Finset.mem_erase.mpr ⟨hu.ne.symm, hnew⟩
    have hkept : headerName (fs₁.disk d) = headerName (fs.disk d) :=
      headerName_congr (fun i hi => hu.header_eq hinv hd (hi.trans (by decide))) hshort
    have hent := enterNewParent_entered hinv₁ hold₁ hnew₁ hu.type hok
    have hname := hent.name_eq (hkept ▸ hshort) fun _ => hkept
    refine (h.unlinked hinv hlisted hu hperm).moved hinv₁ hold₁ hent hm ?_ ?_
    · rw [hname]
      exact hlen hfits
    · -- The replaced entity is the one that had the name.
      rw [hname, ← ((h.lookup_iff hlists hno (hlen hfits) hrep).mp rfl).2]
      exact h.free_of_unlinked hinv hlisted hu hperm

end

end DzOS.Proofs.Fs
