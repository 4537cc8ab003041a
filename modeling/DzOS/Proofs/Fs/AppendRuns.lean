import DzOS.Proofs.Fs.FileSize
import DzOS.Proofs.Fs.StoreRefinement

/-!
# `DzOS.Proofs.Fs.AppendRuns`: files that are written from their front to their end

The store of `StoreRefinement.lean` does not know every byte: an overwrite adds to the size of its
file and leaves the bytes behind the old end open. When each write of a run starts at the end of its
file, all bytes are known. The journal collects the data of the writes to each file since the file
was created, and `append_run_reads` says that a file is its journal: `dzfsStat` reports the length
of it, and `dzfsRead` returns any slice. A write that fails leaves no bytes behind.
-/

set_option autoImplicit false

namespace DzOS.Proofs.Fs

open DzOS.Lib DzOS.Fs

/-! ### The journal -/

/-- A write starts at the end of its file. -/
def AtEnd (s : FsState) : Call → Prop
  | .write dnode _ offset => offset = fileSize (s.fs.disk dnode)
  | _ => True

instance (s : FsState) (c : Call) : Decidable (AtEnd s c) :=
  match c with
  | .openRelative _ _ _ _ => isTrue trivial
  | .openAbsolute _ _ _ => isTrue trivial
  | .write dnode _ offset => inferInstanceAs (Decidable (offset = fileSize (s.fs.disk dnode)))
  | .delete _ _ => isTrue trivial
  | .move _ _ _ _ => isTrue trivial

/-- The data of the writes to each dnode since its entity was created. -/
abbrev Journal : Type := Nat → List UInt8

/-- What an open does to the journal. -/
def journalOpen (t : FsStore) (j : Journal) (out : OpenOut) : Journal :=
  match out with
  | ⟨.OK, some dnode, some _⟩ => if (t dnode).isSome then j else Function.update j dnode []
  | _ => j

/-- What a call does to the journal. -/
def journalStep (t : FsStore) (j : Journal) (out : OpenOut) : Call → Journal
  | .openRelative _ _ _ _ => journalOpen t j out
  | .openAbsolute _ _ _ => journalOpen t j out
  | .write dnode data _ =>
    if out.result = .OK then Function.update j dnode (j dnode ++ data) else j
  | .delete _ _ => j
  | .move _ _ _ _ => j

/-- The journal after the calls of a run. -/
def journalRun : FsState → FsStore → Journal → List Call → Journal
  | _, _, j, [] => j
  | s, t, j, c :: calls =>
    journalRun (exec s c) (storeStep t (outcome s c) c) (journalStep t j (outcome s c) c) calls

/-- The files of the store are those of the journal. -/
def Logged (t : FsStore) (j : Journal) : Prop :=
  ∀ n e c, t n = some e → e.content = some c →
    c.Exact (j n) ∧ (j n).length ≤ DZFS_MAX_FILESIZE

section
variable {t : FsStore} {s : FsState} {ls : Nat → List Nat} {j : Journal}

/-- An open starts the journal of a new file. -/
theorem Logged.open (h : Logged t j) (path : List UInt8) (flags : UInt32) (out : OpenOut) :
    Logged (storeOpen t path flags out) (journalOpen t j out) := by
  by_cases hopened : ∃ n parent, out = ⟨.OK, some n, some parent⟩
  · obtain ⟨n, parent, rfl⟩ := hopened
    have hstore : storeOpen t path flags ⟨.OK, some n, some parent⟩ =
        t.create n (newEntity parent path flags) := rfl
    have hjournal : journalOpen t j ⟨.OK, some n, some parent⟩ =
        if (t n).isSome then j else Function.update j n [] := rfl
    rw [hstore, hjournal]
    by_cases hsome : (t n).isSome
    · rw [NamedStore.create_of_isSome hsome]
      simp only [if_pos hsome]
      exact h
    · rw [NamedStore.create_of_none (Option.not_isSome_iff_eq_none.mp hsome)]
      simp only [if_neg hsome]
      intro m e c he hc
      by_cases hm : m = n
      · subst hm
        rw [Function.update_self] at he ⊢
        cases he
        simp only [newEntity] at hc
        split at hc
        · cases hc
        · cases hc
          exact ⟨Content.exact_empty, Nat.zero_le _⟩
      · rw [Function.update_of_ne hm] at he ⊢
        exact h m e c he hc
  · have hstore : storeOpen t path flags out = t := by
      unfold storeOpen
      split
      · exact absurd ⟨_, _, rfl⟩ hopened
      · rfl
    have hjournal : journalOpen t j out = j := by
      unfold journalOpen
      split
      · exact absurd ⟨_, _, rfl⟩ hopened
      · rfl
    rw [hstore, hjournal]
    exact h

/-- A write at the end of its file. -/
theorem Logged.write (h : Logged t j) (hrep : Represents t s ls) {d : Nat} {data : List UInt8}
    {offset : Nat} (hlt : data.length + offset < 2 ^ 64)
    (hend : offset = fileSize (s.fs.disk d)) :
    Logged (storeWrite t d data offset (dzfsWrite s.fs d data offset).1)
      (journalStep t j ⟨(dzfsWrite s.fs d data offset).1, none, none⟩ (.write d data offset)) := by
  have hat : ∀ e c, t d = some e → e.content = some c → offset = (j d).length := by
    intro e c he hc
    rw [hend, (hrep.file d e c he hc).2.size, (h d e c he hc).1.size]
  have hspoil : ∀ e c, t d = some e → e.content = some c →
      ∀ pos, InReach data.length offset pos → (j d).length ≤ pos := by
    intro e c he hc pos hpos
    have hat := hat e c he hc
    rcases hpos with ⟨hle, -⟩ | ⟨hzero, -, -⟩
    · omega
    · omega
  rcases hw : dzfsWrite s.fs d data offset with ⟨r, fs'⟩
  cases r with
  | OK =>
    obtain ⟨-, -, hmax⟩ := dzfsWrite_size hw
    rw [Nat.mod_eq_of_lt hlt] at hmax
    have hlimit : DZFS_MAX_FILESIZE < 2 ^ 32 := by decide
    intro n e' c' he' hc'
    obtain ⟨e₀, he₀, -, -, hcontent⟩ := NamedStore.modify_eq_some he'
    rw [hc'] at hcontent
    simp only [journalStep, if_true]
    by_cases hn : n = d
    · subst hn
      rw [if_pos rfl] at hcontent
      obtain ⟨c, hc, rfl⟩ := Option.map_eq_some_iff.mp hcontent.symm
      have hexact := (h n e₀ c he₀ hc).1
      have hat := hat e₀ c he₀ hc
      subst hat
      have hlen : (j n ++ data).length ≤ DZFS_MAX_FILESIZE := by
        rw [List.length_append]
        omega
      rw [Function.update_self]
      refine ⟨?_, hlen⟩
      have hsize : (c.size + data.length) % 2 ^ 32 = (j n ++ data).length := by
        rw [hexact.size, ← List.length_append, Nat.mod_eq_of_lt (hlen.trans_lt hlimit)]
      rw [written, hsize]
      exact (hexact.fill fun pos hpos => hspoil e₀ c he₀ hc pos (Or.inr hpos)).append
    · rw [if_neg hn] at hcontent
      rw [Function.update_of_ne hn]
      exact h n e₀ c' he₀ hcontent.symm
  | ERR_FULL =>
    intro n e' c' he' hc'
    obtain ⟨e₀, he₀, -, -, hcontent⟩ := NamedStore.modify_eq_some he'
    rw [hc'] at hcontent
    by_cases hn : n = d
    · subst hn
      rw [if_pos rfl] at hcontent
      obtain ⟨c, hc, rfl⟩ := Option.map_eq_some_iff.mp hcontent.symm
      obtain ⟨hexact, hlen⟩ := h n e₀ c he₀ hc
      exact ⟨hexact.forget (hspoil e₀ c he₀ hc), hlen⟩
    · rw [if_neg hn] at hcontent
      exact h n e₀ c' he₀ hcontent.symm
  | ERR_ARGUMENT | ERR_LIMIT | ERR_NOT_FOUND | ERR_NOT_EMPTY | ERR_TOO_SMALL => exact h

/-- The entities that are left keep their content. -/
theorem Logged.mono (h : Logged t j) {t' : FsStore}
    (hsub : ∀ n e, t' n = some e → ∃ e₀, t n = some e₀ ∧ e.content = e₀.content) : Logged t' j := by
  intro n e c he hc
  obtain ⟨e₀, he₀, hcontent⟩ := hsub n e he
  exact h n e₀ c he₀ (hcontent.symm.trans hc)

theorem Logged.delete (h : Logged t j) (d : Nat) (r : DzfsResult) :
    Logged (storeDelete t d r) j := by
  unfold storeDelete
  split
  · refine h.mono fun n e he => ⟨e, ?_, rfl⟩
    by_cases hn : n = d
    · subst hn
      rw [NamedStore.remove, Function.update_self] at he
      cases he
    · rwa [NamedStore.remove, Function.update_of_ne hn] at he
  · exact h

theorem Logged.move (h : Logged t j) (d new : Nat) (newName : Option (List UInt8))
    (r : DzfsResult) : Logged (storeMove t d new newName r) j := by
  unfold storeMove
  split
  · refine h.mono fun n e he => ?_
    unfold NamedStore.move at he
    split at he
    · rename_i hn
      subst hn
      obtain ⟨e₀, he₀, rfl⟩ := Option.map_eq_some_iff.mp he
      exact ⟨e₀, he₀, rfl⟩
    · exact ⟨e, (Option.filter_eq_some_iff.mp he).1, rfl⟩
  · exact h

/-- A call keeps the files those of the journal. -/
theorem Logged.step (h : Logged t j) (hrep : Represents t s ls) {c : Call} (hc : Sound s c)
    (hend : AtEnd s c) :
    Logged (storeStep t (outcome s c) c) (journalStep t j (outcome s c) c) := by
  cases c with
  | openRelative path relativeTo flags date => exact h.open path flags _
  | openAbsolute path flags date => exact h.open path flags _
  | write dnode data offset => exact h.write hrep hc.1 hend
  | delete dnode parentDnode => exact h.delete dnode _
  | move dnode oldParent newParent newName => exact h.move dnode newParent newName _

/-- The store and the journal of a run. -/
theorem Logged.run (h : Logged t j) (hrep : Represents t s ls) {calls : List Call}
    (hok : OkRun (fun s c => Sound s c ∧ AtEnd s c) s calls) :
    ∃ ls', Represents (storeRun s t calls) (calls.foldl exec s) ls' ∧
      Logged (storeRun s t calls) (journalRun s t j calls) := by
  induction calls generalizing s t ls j with
  | nil => exact ⟨ls, hrep, h⟩
  | cons c calls ih =>
    obtain ⟨ls', hrep'⟩ := hrep.step hok.1.1
    exact ih (h.step hrep hok.1.1 hok.1.2) hrep' hok.2

/-! ### Reads -/

/-- A read of a file whose bytes are all known. -/
theorem ReadShows.eq_slice {c : Content UInt8} {size offset : Nat} {out : Int × List UInt8}
    (h : ReadShows c size offset out) {l : List UInt8} (hexact : c.Exact l)
    (hlen : l.length ≤ DZFS_MAX_FILESIZE) :
    out = (Int.ofNat ((l.drop offset).take size).length, (l.drop offset).take size) := by
  have hlimit : DZFS_MAX_FILESIZE < 2 ^ 31 := by decide
  have hcount : readCount c.size size offset = ((l.drop offset).take size).length := by
    rw [List.length_take, List.length_drop, hexact.size]
    unfold readCount
    split
    · omega
    · rw [Nat.mod_eq_of_lt (by omega), if_pos (by omega)]
      omega
  have hbytes : out.2 = (l.drop offset).take size := by
    refine List.ext_getElem (h.length.trans hcount) fun i hi hi' => ?_
    rw [h.length] at hi
    have hlt : offset + i < l.length := by
      rw [hcount, List.length_take, List.length_drop] at hi
      omega
    have hget := h.known i hi l[offset + i] (by
      rw [hexact.known, List.getElem?_eq_getElem hlt])
    rw [List.getElem_take, List.getElem_drop]
    exact (List.getElem?_eq_some_iff.mp hget).2
  rw [← hbytes, h.length, ← h.count]

end

/-- In a run of sound calls from a formatted disk whose writes start at the end of their files, a
file is the data of the writes to it that succeeded, one behind the other: `dzfsStat` reports the
length, and `dzfsRead` returns the slice. -/
theorem append_run_reads {disk : Nat → Bytes} {blocks : Nat} {date : UInt64} {fs : Dzfs}
    (hle : blocks ≤ formatLimit) (hnew : dzfsNew disk blocks date = (.OK, fs))
    (calls : List Call) (hok : OkRun (fun s c => Sound s c ∧ AtEnd s c) (newState fs) calls)
    (d : Nat) (hd : IsFile (calls.foldl exec (newState fs)) d) :
    let file := journalRun (newState fs) (rootStore fs) (fun _ => []) calls d
    (dzfsStat (calls.foldl exec (newState fs)).fs d).2.size = file.length ∧
      ∀ size offset, dzfsRead (calls.foldl exec (newState fs)).fs d size offset
        = (Int.ofNat ((file.drop offset).take size).length, (file.drop offset).take size) := by
  have hrep := rootStore_represents hle hnew
  have hlogged : Logged (rootStore fs) fun _ => [] := by
    intro n e c he hc
    unfold rootStore at he
    split at he
    · cases he
      cases hc
    · cases he
  obtain ⟨ls, hrep', hlogged'⟩ := hlogged.run hrep hok
  have hshows := hrep'.shows
  obtain ⟨e, c, he, hc⟩ := (hshows.file_iff d).mp hd
  obtain ⟨hexact, hlen⟩ := hlogged' d e c he hc
  refine ⟨(hshows.size d e c he hc).trans hexact.size, fun size offset => ?_⟩
  exact (hshows.read d e c he hc size offset).eq_slice hexact hlen

/-- The file `a` is written twice, and then it replaces the file `b`. -/
def appendRunCalls : List Call :=
  [.openRelative [97] 3 1 0, .openRelative [98] 3 1 0, .write 4 [65, 66] 0, .write 5 [67] 0,
    .write 4 [68] 2, .move 4 3 3 (some [98])]

theorem append_run_reads_twice :
    dzfsRead (appendRunCalls.foldl exec (newState formattedDisk)).fs 4 9 1 = (2, [66, 68]) :=
  ((append_run_reads (show 32768 ≤ formatLimit by decide) formattedDisk_new
    appendRunCalls (by decide +kernel) 4 (by decide +kernel)).2 9 1).trans (by decide +kernel)

end DzOS.Proofs.Fs
