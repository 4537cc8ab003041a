import DzOS.Proofs.Fs.Format
import DzOS.Proofs.Fs.Open
import DzOS.Proofs.Fs.WriteLoop

/-!
# `DzOS.Proofs.Fs.Runs`: runs of calls from a formatted disk

`Call` lists the calls that change the file system, and `exec` is one call on a state. A state
is the disk with the dnodes of its entities: the root folder and what was created and not
deleted since.

`Valid` is what the callers promise: the folders that they name are folders, a deleted or
moved entity is in the folder that they name, and every part of a path fits in a name. `Safe`
is what the invariant needs on top of it, and what the code does not ensure: `..` leads to a
folder, a write goes to an entity, and a folder is not renamed while it moves into or out of
itself.

`dzfsNew_inv` gives the invariant for a formatted disk, `exec_inv` keeps it in one call, and
`Reachable.inv` is the invariant for whole runs.
-/

set_option autoImplicit false

namespace DzOS.Proofs.Fs

open DzOS.Lib DzOS.Fs

variable {fs fs' : Dzfs} {out : OpenOut} {E : Finset Nat} {date : UInt64} {f n : Nat}

/-! ### A formatted disk -/

/-- The new root folder has no entries. -/
theorem rootFolder_lists (rootDnode : Nat) (date : UInt64) :
    Lists (rootFolder rootDnode date) [] := by
  refine Lists.nil fun i _ => Bytes.getLE_eq_zero fun j hj _ => ?_
  simp only [contentOffset] at hj
  rw [rootFolder, Bytes.setLE_of_apart (Or.inr (by simp only [SIZE_OFFSET]; omega)),
    Bytes.setLE_of_apart (by omega), Bytes.blit_of_apart (by simp; omega), Bytes.set,
    if_neg (by omega)]
  rfl

/-- A formatted disk is in the invariant. Its one entity is the root folder. -/
theorem Formatted.inv (h : Formatted fs) : Inv fs {fs.rootDnode} fun _ => [] := by
  obtain ⟨date, hblock⟩ := h.root
  have htype : entityType (fs.disk fs.rootDnode) = DZFS_ENTITY_FOLDER := by
    rw [hblock]
    rfl
  have hused : Used fs fs.rootDnode := by
    refine ⟨Nat.le_refl _, ?_, h.low _ (Nat.le_refl _)⟩
    have hroot := h.root_eq
    have hpos := h.bitmap_pos
    simp only [covered, DZFS_BITSET_COVERED_BLOCKS, DZFS_BLOCK_SIZE]
    omega
  -- The root folder is the only place that holds a block.
  have hholds : ∀ p n, Holds fs.disk {fs.rootDnode} p n →
      p = .dnode fs.rootDnode ∧ n = fs.rootDnode := by
    intro p n hp
    cases p with
    | dnode d =>
      obtain ⟨hd, rfl⟩ := hp
      obtain rfl := Finset.mem_singleton.mp hd
      exact ⟨rfl, rfl⟩
    | direct d i =>
      obtain ⟨hd, hfile, -⟩ := hp
      rw [Finset.mem_singleton.mp hd] at hfile
      exact absurd htype (file_ne_folder hfile)
    | indirect d =>
      obtain ⟨hd, hfile, -⟩ := hp
      rw [Finset.mem_singleton.mp hd] at hfile
      exact absurd htype (file_ne_folder hfile)
    | entry d i =>
      obtain ⟨hd, hfile, -⟩ := hp
      rw [Finset.mem_singleton.mp hd] at hfile
      exact absurd htype (file_ne_folder hfile)
  refine ⟨⟨h.root_eq, h.bitmap_le, Finset.mem_singleton_self _, htype, fun d hd => ?_,
    fun n hn => h.low n hn.le, ⟨fun p n hp => ?_, fun p q n hp hq => ?_⟩, fun f hf _ => ?_,
    fun _ _ => rfl⟩, fun _ => List.nodup_nil, ⟨fun _ _ hn => ?_, fun _ _ _ hn => ?_⟩⟩
  · rw [Finset.mem_singleton.mp hd]
    exact Or.inr htype
  · rw [(hholds p n hp).2]
    exact hused
  · rw [(hholds p n hp).1, (hholds q n hq).1]
  · rw [Finset.mem_singleton.mp hf, hblock]
    exact rootFolder_lists _ _
  · cases hn
  · cases hn

/-! ### Calls -/

/-- The disk with the dnodes of the entities on it. -/
structure FsState where
  fs : Dzfs
  entities : Finset Nat

variable {s s₀ : FsState}

/-- The calls that change the file system. -/
inductive Call where
  | openRelative (path : List UInt8) (relativeTo : Nat) (flags : UInt32) (date : UInt64)
  | openAbsolute (path : List UInt8) (flags : UInt32) (date : UInt64)
  | write (dnode : Nat) (data : List UInt8) (offset : Nat)
  | delete (dnode parentDnode : Nat)
  | move (dnode oldParent newParent : Nat) (newName : Option (List UInt8))

variable {calls : List Call}

/-- The entities after an open. -/
def entitiesAfterOpen (E : Finset Nat) (out : OpenOut) : Finset Nat :=
  match out.result, out.dnode with
  | .OK, some n => insert n E
  | _, _ => E

/-- One call. -/
def exec (s : FsState) : Call → FsState
  | .openRelative path relativeTo flags date =>
    let (out, fs) := dzfsOpenRelative s.fs flags date path relativeTo
    ⟨fs, entitiesAfterOpen s.entities out⟩
  | .openAbsolute path flags date =>
    let (out, fs) := dzfsOpenAbsolute s.fs flags date path
    ⟨fs, entitiesAfterOpen s.entities out⟩
  | .write dnode data offset => ⟨(dzfsWrite s.fs dnode data offset).2, s.entities⟩
  | .delete dnode parentDnode =>
    let (r, fs) := dzfsDelete s.fs dnode parentDnode
    ⟨fs, if r = .OK then s.entities.erase dnode else s.entities⟩
  | .move dnode oldParent newParent newName =>
    ⟨(dzfsMove s.fs dnode oldParent newParent newName).2,
      entitiesAfterMove s.fs s.entities dnode oldParent newParent newName⟩

theorem exec_openRelative {path : List UInt8} {relativeTo : Nat} {flags : UInt32}
    (ho : dzfsOpenRelative s.fs flags date path relativeTo = (out, fs')) :
    exec s (.openRelative path relativeTo flags date) =
      ⟨fs', entitiesAfterOpen s.entities out⟩ := by
  simp only [exec, ho]

/-- The dnode `f` is a folder. -/
def IsFolder (s : FsState) (f : Nat) : Prop :=
  f ∈ s.entities ∧ entityType (s.fs.disk f) = DZFS_ENTITY_FOLDER

instance (s : FsState) (f : Nat) : Decidable (IsFolder s f) :=
  inferInstanceAs (Decidable (_ ∧ _))

/-- The folder `f` has an entry for the dnode `n`. -/
def ListedIn (s : FsState) (n f : Nat) : Prop :=
  n ≠ 0 ∧ ∃ i < DZFS_MAX_DIR_CONTENTS, contentDnode (s.fs.disk f) i = n

instance (s : FsState) (n f : Nat) : Decidable (ListedIn s n f) :=
  inferInstanceAs (Decidable (_ ∧ _))

/-- What the callers promise. -/
def Valid (s : FsState) : Call → Prop
  | .openRelative path relativeTo _ _ => IsFolder s relativeTo ∧ Fits path
  | .openAbsolute path _ _ => Fits path
  | .write _ data offset => data.length + offset < 2 ^ 64
  | .delete dnode parentDnode => IsFolder s parentDnode ∧ ListedIn s dnode parentDnode
  | .move dnode oldParent newParent newName =>
    IsFolder s oldParent ∧ IsFolder s newParent ∧ ListedIn s dnode oldParent ∧
      ∀ name ∈ newName, 0 ∉ name

/-- What the code needs on top: `..` leads to folders, a write goes to an entity, and a folder
is not renamed while it moves into or out of itself. -/
def Safe (s : FsState) : Call → Prop
  | .openRelative path relativeTo _ _ => ∀ f ∈ upFolders s.fs path relativeTo, IsFolder s f
  | .openAbsolute path _ _ => ∀ f ∈ upFolders s.fs path s.fs.rootDnode, IsFolder s f
  | .write dnode _ _ => dnode ∈ s.entities
  | .delete _ _ => True
  | .move dnode oldParent newParent newName =>
    newName.isSome → dnode ≠ oldParent ∧ dnode ≠ newParent

/-- The states that calls with `ok` lead to. -/
inductive Reachable (ok : FsState → Call → Prop) (s₀ : FsState) : FsState → Prop
  | start : Reachable ok s₀ s₀
  | call {s : FsState} (c : Call) : Reachable ok s₀ s → ok s c → Reachable ok s₀ (exec s c)

/-! ### The invariant over runs -/

section
variable {s : FsState} {ls : Nat → List Nat}

/-- In the invariant, the entries of a folder are its list. -/
theorem Inv.listedIn_iff (h : Inv s.fs s.entities ls) (hf : IsFolder s f) :
    ListedIn s n f ↔ n ∈ ls f := by
  have hlists := h.lists f hf.1 hf.2
  constructor
  · rintro ⟨hne, hentry⟩
    exact (hlists.mem_iff hne).mp hentry
  · intro hn
    have hne := h.ne_zero (h.entity_of_listed hn).1
    exact ⟨hne, (hlists.mem_iff hne).mpr hn⟩

theorem ListedIn.inFolder (h : Inv s.fs s.entities ls) (hf : IsFolder s f) (hn : ListedIn s n f) :
    InFolder s.fs s.entities ls n f :=
  ⟨hf.1, hf.2, (h.listedIn_iff hf).mp hn⟩

/-- An open that changes nothing names no new entity. -/
theorem entitiesAfterOpen_same (hok : out.result = .OK → ∃ n ∈ E, out.dnode = some n) :
    entitiesAfterOpen E out = E := by
  unfold entitiesAfterOpen
  split
  · rename_i n hr hn
    obtain ⟨m, hm, heq⟩ := hok hr
    obtain rfl : n = m := Option.some.inj (hn.symm.trans heq)
    exact Finset.insert_eq_of_mem hm
  · rfl

/-- An absolute open changes nothing, or it is the relative open of the rest of its path from the
root folder. -/
theorem exec_openAbsolute (hroot : s.fs.rootDnode ∈ s.entities) (path : List UInt8)
    (flags : UInt32) (date : UInt64) :
    exec s (.openAbsolute path flags date) = s ∨
      ∃ rest, path = SLASH :: rest ∧ exec s (.openAbsolute path flags date) =
        exec s (.openRelative rest s.fs.rootDnode flags date) := by
  rcases dzfsOpenAbsolute_cases s.fs flags date path with ⟨hsame, hok⟩ | ⟨rest, rfl, heq⟩
  · have hE : entitiesAfterOpen s.entities (dzfsOpenAbsolute s.fs flags date path).1
        = s.entities := entitiesAfterOpen_same fun hr => ⟨_, hroot, hok hr⟩
    refine Or.inl ?_
    simp only [exec, hsame, hE]
  · refine Or.inr ⟨rest, rfl, ?_⟩
    simp only [exec, heq]

theorem Opened.inv (h : Inv fs E ls) (ho : Opened fs E out fs') :
    ∃ ls', Inv fs' (entitiesAfterOpen E out) ls' := by
  rcases ho with ⟨rfl, hok⟩ | ⟨cur, n, rfl, hc⟩
  · rw [entitiesAfterOpen_same hok]
    exact ⟨ls, h⟩
  · exact hc.inv

/-- A call that is valid and safe keeps the invariant. -/
theorem exec_inv (h : Inv s.fs s.entities ls) {c : Call} (hvalid : Valid s c)
    (hsafe : Safe s c) : ∃ ls', Inv (exec s c).fs (exec s c).entities ls' := by
  cases c with
  | openRelative path relativeTo flags date =>
    rcases ho : dzfsOpenRelative s.fs flags date path relativeTo with ⟨out, fs'⟩
    rw [exec_openRelative ho]
    exact (dzfsOpenRelative_spec h hvalid.1 hvalid.2 hsafe ho).inv h
  | openAbsolute path flags date =>
    rcases ho : dzfsOpenAbsolute s.fs flags date path with ⟨out, fs'⟩
    simp only [exec, ho]
    exact (dzfsOpenAbsolute_spec h hvalid hsafe ho).inv h
  | write dnode data offset => exact ⟨ls, dzfsWrite_inv h hsafe hvalid⟩
  | delete dnode parentDnode =>
    rcases hd : dzfsDelete s.fs dnode parentDnode with ⟨r, fs'⟩
    simp only [exec, hd]
    rcases dzfsDelete_spec h (hvalid.2.inFolder h hvalid.1) hd with ⟨rfl, hr⟩ | ⟨rfl, hdel⟩
    · rw [if_neg hr]
      exact ⟨ls, h⟩
    · rw [if_pos rfl]
      obtain ⟨l, -, hinv⟩ := hdel.inv
      exact ⟨_, hinv⟩
  | move dnode oldParent newParent newName =>
    obtain ⟨hold, hnew, hlisted, hnul⟩ := hvalid
    exact dzfsMove_inv h (hlisted.inFolder h hold) hnew.1 hnew.2 newName hnul hsafe

end

/-- The state after `dzfsNew`. -/
def newState (fs : Dzfs) : FsState := ⟨fs, {fs.rootDnode}⟩

/-- Every state of a run of valid and safe calls from a formatted disk is in the
invariant. -/
theorem Reachable.inv {disk : Nat → Bytes} {blocks : Nat} (hle : blocks ≤ formatLimit)
    (hnew : dzfsNew disk blocks date = (.OK, fs))
    (h : Reachable (fun s c => Valid s c ∧ Safe s c) (newState fs) s) :
    ∃ ls, Inv s.fs s.entities ls := by
  induction h with
  | start => exact ⟨_, (dzfsNew_formatted hle hnew).inv⟩
  | call c _ hc ih =>
    obtain ⟨ls, hinv⟩ := ih
    exact exec_inv hinv hc.1 hc.2

/-! ### Runs of given calls -/

/-- Every call of the list is valid in its state. -/
def ValidRun : FsState → List Call → Prop
  | _, [] => True
  | s, c :: calls => Valid s c ∧ ValidRun (exec s c) calls

instance (s : FsState) (c : Call) : Decidable (Valid s c) :=
  match c with
  | .openRelative _ _ _ _ => inferInstanceAs (Decidable (_ ∧ _))
  | .openAbsolute path _ _ => inferInstanceAs (Decidable (Fits path))
  | .write _ data offset => inferInstanceAs (Decidable (data.length + offset < 2 ^ 64))
  | .delete _ _ => inferInstanceAs (Decidable (_ ∧ _))
  | .move _ _ _ newName =>
    inferInstanceAs (Decidable (_ ∧ _ ∧ _ ∧ ∀ name ∈ newName, (0 : UInt8) ∉ name))

instance (s : FsState) (c : Call) : Decidable (Safe s c) :=
  match c with
  | .openRelative path relativeTo _ _ =>
    inferInstanceAs (Decidable (∀ f ∈ upFolders s.fs path relativeTo, IsFolder s f))
  | .openAbsolute path _ _ =>
    inferInstanceAs (Decidable (∀ f ∈ upFolders s.fs path s.fs.rootDnode, IsFolder s f))
  | .write dnode _ _ => inferInstanceAs (Decidable (dnode ∈ s.entities))
  | .delete _ _ => isTrue trivial
  | .move dnode oldParent newParent newName =>
    inferInstanceAs (Decidable (newName.isSome → dnode ≠ oldParent ∧ dnode ≠ newParent))

instance decidableValidRun : (calls : List Call) → (s : FsState) → Decidable (ValidRun s calls)
  | [], _ => isTrue trivial
  | c :: calls, s => @instDecidableAnd _ _ _ (decidableValidRun calls (exec s c))

/-- A list of valid calls reaches its last state. -/
theorem ValidRun.reachable (hs : Reachable Valid s₀ s) (h : ValidRun s calls) :
    Reachable Valid s₀ (calls.foldl exec s) := by
  induction calls generalizing s with
  | nil => exact hs
  | cons c calls ih => exact ih (.call c hs h.1) h.2

/-- Every call of the list satisfies `ok` in its state. -/
def OkRun (ok : FsState → Call → Prop) : FsState → List Call → Prop
  | _, [] => True
  | s, c :: calls => ok s c ∧ OkRun ok (exec s c) calls

instance decidableOkRun (ok : FsState → Call → Prop) [∀ s c, Decidable (ok s c)] :
    (calls : List Call) → (s : FsState) → Decidable (OkRun ok s calls)
  | [], _ => isTrue trivial
  | c :: calls, s => @instDecidableAnd _ _ _ (decidableOkRun ok calls (exec s c))

theorem OkRun.reachable {ok : FsState → Call → Prop} (hs : Reachable ok s₀ s)
    (h : OkRun ok s calls) :
    Reachable ok s₀ (calls.foldl exec s) := by
  induction calls generalizing s with
  | nil => exact hs
  | cons c calls ih => exact ih (.call c hs h.1) h.2

/-- A disk of 32768 blocks, formatted. Its root folder is block 3. -/
def formattedDisk : Dzfs := (dzfsNew (fun _ => Bytes.zero) 32768 0).2

theorem formattedDisk_new : dzfsNew (fun _ => Bytes.zero) 32768 0 = (.OK, formattedDisk) :=
  Prod.ext (by decide) rfl

/-- A disk with the folder `a` in its root folder. Its dnode is 4. -/
def oneFolderState : FsState := exec (newState formattedDisk) (.openRelative [97] 3 3 0)

/-- A disk with the empty file `f` in its root folder. Its dnode is 4. -/
def oneFileState : FsState := exec (newState formattedDisk) (.openRelative [102] 3 1 0)

/-- The folder `a`, the file `a/b` and the file `c` in the root folder. -/
def threeEntityCalls : List Call :=
  [.openRelative [97] 3 3 0, .openRelative [97, 47, 98] 3 1 0, .openRelative [99] 3 1 0]

/-- The folder `a/b` moves up, and `a` is deleted. The field `parent` of `b` still has the
dnode 4 of `a`, which becomes the file `f`. Then `../x` and `../y`, opened from `b`, create
files "in" the file `f`: their dnodes 7 and 8 become its indirect block and its second
direct block. -/
def staleParentCalls : List Call :=
  [.openRelative [97] 3 3 0, .openRelative [98] 4 3 0, .move 5 4 3 none, .delete 4 3,
    .openRelative [102] 3 1 0, .write 4 (List.replicate 4096 0) 0,
    .openRelative [46, 46, 47, 120] 5 1 0, .openRelative [46, 46, 47, 121] 5 1 0]

/-- The state after these calls. -/
def staleParentState : FsState := staleParentCalls.foldl exec (newState formattedDisk)

end DzOS.Proofs.Fs
