import DzOS.Proofs.Fs.Ownership

/-!
# `DzOS.Proofs.Fs.Leak`: when no block is lost

A block is lost when its bit is 0 and nothing refers to it. `Tight` states that there is no such
block: below a number `total`, the bit of a block is 0 only if the block belongs to the system or
some place holds it. A write allocates only what its file holds afterwards (`dzfsWrite_extended`).

`dzfsDelete` does not free the indirect block of a file, and it stops at the first pointer that
is 0. So it gives back everything that the file holds only if the file has no indirect block and
no hole (`ReleasesAll`). For runs of calls that succeed and delete only such files, `no_leak`
states that no block is lost, and that a file which is created, written and deleted leaves the
number of free blocks as it was. `hole_leaks` is a file with a hole.
-/

set_option autoImplicit false

namespace DzOS.Proofs.Fs

open DzOS.Lib DzOS.Fs

variable {cur f n : Nat} {name : List UInt8} {date : UInt64} {flags : UInt32}

/-! ### What a delete gives back -/

/-- The file `d` has no indirect block, and its direct blocks have no hole. -/
def ReleasesAll (fs : Dzfs) (d : Nat) : Prop :=
  entityType (fs.disk d) = DZFS_ENTITY_FILE →
    fileIndirect (fs.disk d) = 0 ∧
      ∀ i < DZFS_DIRECT_BLOCKS - 1, fileDirect (fs.disk d) i = 0 →
        fileDirect (fs.disk d) (i + 1) = 0

instance (fs : Dzfs) (d : Nat) : Decidable (ReleasesAll fs d) :=
  inferInstanceAs (Decidable (_ → _ ∧ ∀ i < DZFS_DIRECT_BLOCKS - 1, _ → _))

section
variable {fs fs' : Dzfs} {E : Finset Nat} {ls : Nat → List Nat} {d n m : Nat} {p : Place}

/-- Without holes, no pointer in front of a pointer is 0. -/
theorem ne_zero_of_le {ptr : Nat → Nat} {last i j : Nat}
    (hholes : ∀ k < last, ptr k = 0 → ptr (k + 1) = 0) (hij : i ≤ j) (hj : j ≤ last)
    (hne : ptr j ≠ 0) : ptr i ≠ 0 := by
  induction hij using Nat.decreasingInduction with
  | self => exact hne
  | of_succ k hk ih => exact fun hz => ih (hholes k (by omega) hz)

/-- A delete of such a file gives back every block that the file holds. -/
theorem ReleasesAll.mem (h : ReleasesAll fs d) (hp : Holds fs.disk E p m) (hent : p.entity = d) :
    m ∈ released fs d ∨ m = d := by
  cases p with
  | dnode e =>
    obtain rfl : e = d := hent
    exact Or.inr hp.2
  | direct e i =>
    obtain rfl : e = d := hent
    obtain ⟨-, hfile, hi, rfl, hne⟩ := hp
    obtain ⟨-, hholes⟩ := h hfile
    left
    rw [released, if_pos hfile, freedBlocks, List.mem_append]
    refine Or.inr (mem_untilZero_of (Nat.zero_le i) (by omega) fun k _ hk => ?_)
    exact ne_zero_of_le hholes hk (by omega) hne
  | indirect e =>
    obtain rfl : e = d := hent
    obtain ⟨-, hfile, rfl, hne⟩ := hp
    exact absurd (h hfile).1 hne
  | entry e i =>
    obtain rfl : e = d := hent
    obtain ⟨-, hfile, hne, -⟩ := hp
    exact absurd (h hfile).1 hne

/-- What a delete gives back was held by the entity. -/
theorem holds_of_released (hd : d ∈ E) (hm : m ∈ released fs d) :
    ∃ p : Place, p.entity = d ∧ Holds fs.disk E p m := by
  unfold released at hm
  split at hm
  · rename_i hfile
    obtain ⟨p, hp, -, -, hpm⟩ := holds_of_freed hd hfile hm
    exact ⟨p, hp, hpm⟩
  · cases hm

/-! ### What a write takes -/

/-- From `fs` to `fs'` the file `d` takes free blocks, and holds all that are taken. -/
structure Extended (fs fs' : Dzfs) (E : Finset Nat) (d : Nat) : Prop where
  only : covered fs' = covered fs ∧ fs'.rootDnode = fs.rootDnode
  used : ∀ m < covered fs, bit fs m = false → bit fs' m = false
  owned : ∀ m < covered fs, bit fs m = true → bit fs' m = false →
    ∃ p : Place, p.entity = d ∧ Holds fs'.disk E p m
  grows : ∀ p m, Holds fs.disk E p m → Holds fs'.disk E p m
  old : ∀ p m, Holds fs'.disk E p m → Holds fs.disk E p m ∨ bit fs m = true

theorem dzfsWrite_extended (h : Core fs E ls) (hd : d ∈ E) {data : List UInt8} {offset : Nat}
    (hlt : data.length + offset < 2 ^ 64) (hw : dzfsWrite fs d data offset = (.OK, fs')) :
    Extended fs fs' E d := by
  rcases dzfsWrite_cases h hd hlt hw with
    ⟨-, hr⟩ | ⟨hfile, -, -, st, hst, ⟨hr, -⟩ | ⟨-, rfl, -⟩⟩
  · exact absurd rfl hr
  · cases hr
  have hF := (finishWrite_freeBitmapBlocks d st data.length).trans hst.freeBitmapBlocks
  have hR := (finishWrite_rootDnode d st data.length).trans hst.rootDnode
  have hbit := fun m hm => hst.finish_bit (k := m) h data.length hm
  have hholds := hst.finish_holds hd hfile data.length
  refine ⟨⟨by simp only [covered, hF], hR⟩, fun m hm hused => ?_, fun m hm hfree hused => ?_,
    fun q m hq => ?_, fun q m hq => ?_⟩
  · rw [hbit m hm]
    exact hst.bits m hm hused
  · rw [hbit m hm] at hused
    obtain ⟨q, hq⟩ := hst.tight m hm hfree hused
    exact ⟨q, hq.entity, (hholds q m).mpr (Or.inr hq)⟩
  · refine (hholds q m).mpr ?_
    by_cases hent : q.entity = d
    · exact Or.inr (hst.grows q m hent hq)
    · exact Or.inl ⟨hent, hq⟩
  · rcases (hholds q m).mp hq with hq | hq
    · exact Or.inl hq.2
    · exact hst.old q m hq

/-! ### The invariant -/

/-- The invariant of the file system, every entity is listed, and no block below `total` is
lost. -/
structure Tight (total : Nat) (fs : Dzfs) (E : Finset Nat) (ls : Nat → List Nat) : Prop
    extends Inv fs E ls where
  total_le : total ≤ covered fs
  listed : ∀ e ∈ E, e ≠ fs.rootDnode → ∃ f, e ∈ ls f
  held : ∀ m < total, bit fs m = false → m ≤ fs.rootDnode ∨ ∃ p, Holds fs.disk E p m

variable {total : Nat}

theorem Tight.write (h : Tight total fs E ls) (hd : d ∈ E) {data : List UInt8} {offset : Nat}
    (hlt : data.length + offset < 2 ^ 64) (hok : (dzfsWrite fs d data offset).1 = .OK) :
    Tight total (dzfsWrite fs d data offset).2 E ls := by
  have hext := dzfsWrite_extended h.toCore hd hlt (Prod.ext hok rfl)
  have hroot := hext.only.2
  refine ⟨dzfsWrite_inv h.toInv hd hlt, hext.only.1 ▸ h.total_le, fun e he hne => ?_,
    fun m hm hused => ?_⟩
  · rw [hroot] at hne
    exact h.listed e he hne
  · have hcov := lt_of_lt_of_le hm h.total_le
    rw [hroot]
    by_cases hbit : bit fs m = false
    · refine (h.held m hm hbit).imp_right ?_
      rintro ⟨p, hp⟩
      exact ⟨p, hext.grows p m hp⟩
    · obtain ⟨p, -, hp⟩ := hext.owned m hcov (by simpa using hbit) hused
      exact Or.inr ⟨p, hp⟩

theorem Tight.create (h : Tight total fs E ls) (hcur : cur ∈ E)
    (hfolder : entityType (fs.disk cur) = DZFS_ENTITY_FOLDER)
    (hc : Creation fs fs' E ls cur n name flags date) :
    Tight total fs' (insert n E) (Function.update ls cur (ls cur ++ [n])) := by
  have hroot := hc.only.2
  have hmem := fun g m => mem_update_append ls cur n (g := g) (m := m)
  refine ⟨hc.inv, hc.only.1 ▸ h.total_le, fun e he hne => ?_, fun m hm hused => ?_⟩
  · rw [hroot] at hne
    rcases Finset.mem_insert.mp he with rfl | he
    · exact ⟨cur, (hmem cur e).mpr (Or.inr ⟨rfl, rfl⟩)⟩
    · obtain ⟨f, hf⟩ := h.listed e he hne
      exact ⟨f, (hmem f e).mpr (Or.inl hf)⟩
  · rw [hc.bits m (lt_of_lt_of_le hm h.total_le), Bool.and_eq_false_iff,
      decide_eq_false_iff_not, not_not] at hused
    rw [hroot]
    rcases hused with hused | rfl
    · refine (h.held m hm hused).imp_right ?_
      rintro ⟨p, hp⟩
      have hp' := (hc.holds_iff h.toInv hcur hfolder p m).mpr hp
      exact ⟨p, hp'.of_mem (Finset.mem_insert_of_mem hp'.mem)⟩
    · exact Or.inr ⟨.dnode m, Finset.mem_insert_self _ _, rfl⟩

theorem Tight.delete (h : Tight total fs E ls) (hf : InFolder fs E ls d f) (hall : ReleasesAll fs d)
    {l : List Nat} (hu : Unlinked fs fs' E ls d f (released fs d)) (hperm : l.Perm ((ls f).erase d))
    (hinv : Inv fs' (E.erase d) (Function.update ls f l)) :
    Tight total fs' (E.erase d) (Function.update ls f l) := by
  have hroot := hu.only.2
  refine ⟨hinv, hu.only.1 ▸ h.total_le, fun e he hne => ?_, fun m hm hused => ?_⟩
  · obtain ⟨hed, he⟩ := Finset.mem_erase.mp he
    rw [hroot] at hne
    obtain ⟨g, hg⟩ := h.listed e he hne
    exact ⟨g, (h.listing.mem_erase hperm hf.listed).mpr ⟨hg, hed⟩⟩
  · rw [hu.bits m (lt_of_lt_of_le hm h.total_le), Bool.or_eq_false_iff, Bool.or_eq_false_iff,
      decide_eq_false_iff_not, decide_eq_false_iff_not] at hused
    obtain ⟨⟨hused, hnot⟩, hmd⟩ := hused
    rw [hroot]
    refine (h.held m hm hused).imp_right ?_
    rintro ⟨p, hp⟩
    have hent : p.entity ≠ d := by
      intro hent
      rcases hall.mem hp hent with hmem | heq
      · exact hnot hmem
      · exact hmd heq
    have hp' := (hu.holds_iff h.toInv hf p m).mpr hp
    exact ⟨p, hp'.of_mem (Finset.mem_erase.mpr ⟨hent, hp'.mem⟩)⟩

theorem Tight.moved (h : Tight total fs E ls) {old new : Nat} (hold : InFolder fs E ls d old)
    (hm : Moved fs fs' E ls d old new) : ∃ ls', Tight total fs' E ls' := by
  obtain ⟨l, hperm, hinv⟩ := hm.inv
  have hmem := fun g m => h.listing.mem_transfer hold.listed hperm (k := g) (m := m)
  obtain ⟨hcov, hroot⟩ := hm.same.only
  refine ⟨_, hinv, hcov ▸ h.total_le, fun e he hne => ?_, fun m hlt hused => ?_⟩
  · rw [hroot] at hne
    by_cases hed : e = d
    · exact ⟨new, (hmem new e).mpr (Or.inr ⟨rfl, hed⟩)⟩
    · obtain ⟨g, hg⟩ := h.listed e he hne
      exact ⟨g, (hmem g e).mpr (Or.inl ⟨hg, hed⟩)⟩
  · rw [hm.same.bits m (lt_of_lt_of_le hlt h.total_le)] at hused
    rw [hroot]
    refine (h.held m hlt hused).imp_right ?_
    rintro ⟨p, hp⟩
    exact ⟨p, (hm.same.holds p m).mpr hp⟩

end

/-! ### Calls -/

/-- What a call returns. -/
def callResult (s : FsState) : Call → DzfsResult
  | .openRelative path relativeTo flags date =>
    (dzfsOpenRelative s.fs flags date path relativeTo).1.result
  | .openAbsolute path flags date => (dzfsOpenAbsolute s.fs flags date path).1.result
  | .write dnode data offset => (dzfsWrite s.fs dnode data offset).1
  | .delete dnode parentDnode => (dzfsDelete s.fs dnode parentDnode).1
  | .move dnode oldParent newParent newName =>
    (dzfsMove s.fs dnode oldParent newParent newName).1

/-- The calls of the callers that succeed. -/
def Succeeds (s : FsState) (c : Call) : Prop :=
  (Valid s c ∧ Safe s c) ∧ callResult s c = .OK

instance (s : FsState) (c : Call) : Decidable (Succeeds s c) :=
  inferInstanceAs (Decidable ((_ ∧ _) ∧ _))

/-- Calls that succeed, where every entity that goes is given back as a whole. -/
def LeakOk (s : FsState) (c : Call) : Prop :=
  Succeeds s c ∧ ∀ e ∈ s.entities \ (exec s c).entities, ReleasesAll s.fs e

instance (s : FsState) (c : Call) : Decidable (LeakOk s c) :=
  inferInstanceAs (Decidable (_ ∧ ∀ e ∈ s.entities \ (exec s c).entities, _))

section
variable {total : Nat} {s : FsState} {ls : Nat → List Nat}

/-- An open changes nothing, or it creates an entity. -/
theorem Tight.openRelative (h : Tight total s.fs s.entities ls) {path : List UInt8}
    {relativeTo : Nat} {out : OpenOut} {fs' : Dzfs} (hrel : IsFolder s relativeTo)
    (hfits : Fits path) (hdots : ∀ f ∈ upFolders s.fs path relativeTo, IsFolder s f)
    (ho : dzfsOpenRelative s.fs flags date path relativeTo = (out, fs')) :
    ∃ ls', Tight total fs' (entitiesAfterOpen s.entities out) ls' := by
  rcases dzfsOpenRelative_creation h.toInv hrel hfits.newNameFits hdots ho with
    ⟨rfl, hok⟩ | ⟨cur, n, name, -, -, hcur, rfl, hc⟩
  · rw [entitiesAfterOpen_same hok]
    exact ⟨ls, h⟩
  · exact ⟨_, h.create hcur.1 hcur.2 hc⟩

/-- A call that is `LeakOk` loses no block. -/
theorem exec_tight (h : Tight total s.fs s.entities ls) {c : Call} (hc : LeakOk s c) :
    ∃ ls', Tight total (exec s c).fs (exec s c).entities ls' := by
  obtain ⟨⟨⟨hvalid, hsafe⟩, hok⟩, hall⟩ := hc
  cases c with
  | openRelative path relativeTo flags date =>
    rcases ho : dzfsOpenRelative s.fs flags date path relativeTo with ⟨out, fs'⟩
    rw [exec_openRelative ho]
    exact h.openRelative hvalid.1 hvalid.2 hsafe ho
  | openAbsolute path flags date =>
    rcases exec_openAbsolute h.root_mem path flags date with hexec | ⟨rest, rfl, hexec⟩
    · rw [hexec]
      exact ⟨ls, h⟩
    · rcases ho : dzfsOpenRelative s.fs flags date rest s.fs.rootDnode with ⟨out, fs'⟩
      rw [hexec, exec_openRelative ho]
      exact h.openRelative ⟨h.root_mem, h.root_folder⟩ (hvalid.drop 1) hsafe ho
  | write dnode data offset => exact ⟨ls, h.write hsafe hvalid hok⟩
  | delete dnode parentDnode =>
    have hf := hvalid.2.inFolder h.toInv hvalid.1
    rcases hd : dzfsDelete s.fs dnode parentDnode with ⟨r, fs'⟩
    simp only [exec, hd] at hall ⊢
    rcases dzfsDelete_unlinked h.toInv hf hd with ⟨rfl, hr⟩ | ⟨rfl, hu⟩
    · rw [if_neg hr]
      exact ⟨ls, h⟩
    · rw [if_pos rfl] at hall ⊢
      obtain ⟨l, hperm, hinv⟩ := hu.inv
      refine ⟨_, h.delete hf (hall dnode ?_) hu hperm hinv⟩
      simp [(h.entity_of_listed hf.listed).1]
  | move dnode oldParent newParent newName =>
    obtain ⟨hold, hnew, hlisted, hnul⟩ := hvalid
    have hin := hlisted.inFolder h.toInv hold
    simp only [exec] at hall ⊢
    rcases dzfsMove_cases h.toInv hin hnew.1 hnew.2 newName hnul hsafe with
      ⟨hfs, hE⟩ | ⟨hmoved, hE⟩ | ⟨e, l, he, hed, hu, hperm, hinv, hin', hmoved, hE⟩
    · rw [hfs, hE]
      exact ⟨ls, h⟩
    · rw [hE]
      exact h.moved hin hmoved
    · have hall' : ReleasesAll s.fs e := by
        refine hall e ?_
        rw [hE]
        simp [(h.entity_of_listed he).1]
      rw [hE]
      exact (h.delete ⟨hnew.1, hnew.2, he⟩ hall' hu hperm hinv).moved hin' hmoved

/-! ### A file that comes and goes -/

/-- Since the disk `fs₁`, the blocks of the entity `n` were taken, and no others. -/
structure Since (fs₁ fs : Dzfs) (E : Finset Nat) (n : Nat) : Prop where
  only : covered fs = covered fs₁
  used : ∀ m < covered fs₁, bit fs₁ m = false → bit fs m = false
  owned : ∀ m < covered fs₁, bit fs₁ m = true → bit fs m = false →
    ∃ p : Place, p.entity = n ∧ Holds fs.disk E p m
  own : ∀ p m, p.entity = n → Holds fs.disk E p m → m < covered fs₁ ∧ bit fs₁ m = true

variable {fs₁ fs fs' : Dzfs} {E : Finset Nat} {n : Nat}

theorem Since.create (hc : Creation fs fs' E ls cur n name flags date) :
    Since fs fs' (insert n E) n := by
  refine ⟨hc.only.1, fun m hm hused => ?_, fun m hm hfree hused => ?_, fun p m hent hp => ?_⟩
  · rw [hc.bits m hm, hused, Bool.false_and]
  · rw [hc.bits m hm, hfree, Bool.true_and, decide_eq_false_iff_not, not_not] at hused
    rw [hused]
    exact ⟨.dnode n, rfl, Finset.mem_insert_self _ _, rfl⟩
  · -- A new entity has no links yet.
    have hcov := (hc.inv.blocks.used p m hp).2.1
    rw [hc.only.1] at hcov
    have hzero : ∀ off, 268 ≤ off → (fs'.disk n).getLE 4 off = 0 := fun off hoff =>
      Bytes.getLE_eq_zero fun i hi _ => hc.links i (hoff.trans hi)
    cases p with
    | dnode e =>
      obtain rfl : e = n := hent
      obtain ⟨-, rfl⟩ := hp
      exact ⟨hcov, hc.free⟩
    | direct e i =>
      obtain rfl : e = n := hent
      obtain ⟨-, -, -, hm, hne⟩ := hp
      exact absurd (hm.trans (hzero _ (by simp only [directOffset]; omega))) hne
    | indirect e =>
      obtain rfl : e = n := hent
      obtain ⟨-, -, hm, hne⟩ := hp
      exact absurd (hm.trans (hzero _ (Nat.le_refl _))) hne
    | entry e i =>
      obtain rfl : e = n := hent
      obtain ⟨-, -, hne, -⟩ := hp
      exact absurd (hzero _ (Nat.le_refl _)) hne

theorem Since.write (h : Since fs₁ fs E n) (hext : Extended fs fs' E n)
    (hinv : Inv fs' E ls) : Since fs₁ fs' E n := by
  have hcov : covered fs' = covered fs₁ := hext.only.1.trans h.only
  have hlt : ∀ {m}, m < covered fs₁ → m < covered fs := fun hm => h.only ▸ hm
  refine ⟨hcov, fun m hm hused => hext.used m (hlt hm) (h.used m hm hused),
    fun m hm hfree hused => ?_, fun p m hent hp => ?_⟩
  · by_cases hbit : bit fs m = false
    · obtain ⟨p, hent, hp⟩ := h.owned m hm hfree hbit
      exact ⟨p, hent, hext.grows p m hp⟩
    · exact hext.owned m (hlt hm) (by simpa using hbit) hused
  · rcases hext.old p m hp with hp' | hfree
    · exact h.own p m hent hp'
    · have hm := (hinv.blocks.used p m hp).2.1
      rw [hcov] at hm
      refine ⟨hm, ?_⟩
      by_contra hused
      rw [h.used m hm (by simpa using hused)] at hfree
      cases hfree

/-- After the delete the bits are those of the disk `fs₁`. -/
theorem Since.delete (h : Since fs₁ fs E n) (hn : n ∈ E) (hall : ReleasesAll fs n)
    (hu : Unlinked fs fs' E ls n f (released fs n)) {m : Nat} (hm : m < covered fs₁) :
    bit fs' m = bit fs₁ m := by
  rw [hu.bits m (h.only ▸ hm)]
  cases hbit : bit fs₁ m with
  | true =>
    cases hused : bit fs m with
    | true => rfl
    | false =>
      obtain ⟨p, hent, hp⟩ := h.owned m hm hbit hused
      rcases hall.mem hp hent with hmem | heq
      · simp [hmem]
      · simp [heq]
  | false =>
    -- The blocks of the entity were free on the disk `fs₁`.
    have hother : ∀ p : Place, p.entity = n → ¬ Holds fs.disk E p m := by
      intro p hent hp
      rw [(h.own p m hent hp).2] at hbit
      cases hbit
    have hnot : m ∉ released fs n := by
      intro hmem
      obtain ⟨p, hent, hp⟩ := holds_of_released hn hmem
      exact hother p hent hp
    have hne : m ≠ n := by
      rintro rfl
      exact hother (.dnode m) rfl ⟨hn, rfl⟩
    simp [h.used m hm hbit, hnot, hne]

/-- Writes to the entity `n`, and its deletion from the folder `cur`. -/
def writesThenDelete (n cur : Nat) : List (List UInt8 × Nat) → List Call
  | [] => [.delete n cur]
  | w :: writes => .write n w.1 w.2 :: writesThenDelete n cur writes

/-- The writes and the delete, from any state since the creation. -/
theorem Since.run {writes : List (List UInt8 × Nat)} (h : Tight total s.fs s.entities ls)
    (hn : n ∈ s.entities) (hsince : Since fs₁ s.fs s.entities n)
    (hrun : OkRun LeakOk s (writesThenDelete n cur writes)) :
    dzfsFreeBlocks ((writesThenDelete n cur writes).foldl exec s).fs = dzfsFreeBlocks fs₁ := by
  induction writes generalizing s with
  | nil =>
    obtain ⟨⟨⟨⟨hvalid, -⟩, hok⟩, hall⟩, -⟩ := hrun
    have hf := hvalid.2.inFolder h.toInv hvalid.1
    rcases hd : dzfsDelete s.fs n cur with ⟨r, fs'⟩
    simp only [callResult, hd] at hok
    subst hok
    rcases dzfsDelete_unlinked h.toInv hf hd with ⟨-, hr⟩ | ⟨-, hu⟩
    · exact absurd rfl hr
    · have hall' : ReleasesAll s.fs n := hall n (by simp [exec, hd, hn])
      have hend : ((writesThenDelete n cur []).foldl exec s).fs = fs' := by
        simp only [writesThenDelete, List.foldl_cons, List.foldl_nil, exec, hd]
      rw [hend]
      exact dzfsFreeBlocks_congr (hu.only.1.trans hsince.only) fun m hm =>
        hsince.delete hn hall' hu hm
  | cons w writes ih =>
    obtain ⟨hc, hrest⟩ := hrun
    obtain ⟨⟨⟨hvalid, -⟩, hok⟩, -⟩ := hc
    have htight := h.write hn hvalid hok
    have hext := dzfsWrite_extended h.toCore hn hvalid (Prod.ext hok rfl)
    rw [writesThenDelete, List.foldl_cons]
    exact ih htight hn (hsince.write hext htight.toInv) hrest

end

/-! ### Runs -/

/-- The folder or the file that a reference is in. -/
def Ref.owner : Ref → Nat
  | .content f _ => f
  | .direct d _ => d
  | .indirect d => d
  | .entry d _ => d

/-- No block below `total` is lost, and an entity that comes and goes leaves no trace in the
number of free blocks. -/
structure NoLeak (total : Nat) (s : FsState) : Prop where
  referenced : ∀ n < total, bit s.fs n = false → n ≤ s.fs.rootDnode ∨ ∃ r, Refers s r n ∧
    (r.owner = s.fs.rootDnode ∨ ∃ f, IsFolder s f ∧ ListedIn s r.owner f)
  undone : ∀ path relativeTo flags date n cur writes, n ∉ s.entities →
    (dzfsOpenRelative s.fs flags date path relativeTo).1 = ⟨.OK, some n, some cur⟩ →
    OkRun LeakOk s (.openRelative path relativeTo flags date :: writesThenDelete n cur writes) →
    dzfsFreeBlocks ((writesThenDelete n cur writes).foldl exec
      (exec s (.openRelative path relativeTo flags date))).fs = dzfsFreeBlocks s.fs

section
variable {total : Nat} {s : FsState} {ls : Nat → List Nat}

/-- A place that holds a block is a reference to it, or it is the dnode of the entity. -/
theorem Refers.of_holds {p : Place} (hp : Holds s.fs.disk s.entities p n) :
    p = .dnode n ∨ ∃ r, Refers s r n ∧ r.owner = p.entity := by
  cases p with
  | dnode d =>
    rw [hp.2]
    exact Or.inl rfl
  | direct d i =>
    obtain ⟨hd, hfile, hi, hn, hne⟩ := hp
    exact Or.inr ⟨.direct d i, ⟨⟨⟨hd, hfile⟩, hi⟩, hn.symm, hne⟩, rfl⟩
  | indirect d =>
    obtain ⟨hd, hfile, hn, hne⟩ := hp
    exact Or.inr ⟨.indirect d, ⟨⟨hd, hfile⟩, hn.symm, hne⟩, rfl⟩
  | entry d i =>
    obtain ⟨hd, hfile, hnz, hi, hn, hne⟩ := hp
    exact Or.inr ⟨.entry d i, ⟨⟨⟨hd, hfile⟩, hnz, hi⟩, hn.symm, hne⟩, rfl⟩

/-- Every entity but the root folder is in a folder. -/
theorem Tight.owner (h : Tight total s.fs s.entities ls) {e : Nat} (he : e ∈ s.entities) :
    e = s.fs.rootDnode ∨ ∃ f, IsFolder s f ∧ ListedIn s e f := by
  by_cases hroot : e = s.fs.rootDnode
  · exact Or.inl hroot
  · obtain ⟨f, hf⟩ := h.listed e he hroot
    have hfolder := h.folder_of_listed hf
    exact Or.inr ⟨f, hfolder, (h.listedIn_iff hfolder).mpr hf⟩

/-- When each used block has an owner that is listed, nothing leaks. -/
theorem Tight.noLeak (h : Tight total s.fs s.entities ls) : NoLeak total s := by
  constructor
  · intro n hn hused
    rcases h.held n hn hused with hle | ⟨p, hp⟩
    · exact Or.inl hle
    rcases Refers.of_holds hp with rfl | ⟨r, hr, howner⟩
    · rcases h.owner hp.mem with heq | ⟨f, hf, hne, i, hi, hentry⟩
      · exact Or.inl (Nat.le_of_eq heq)
      · exact Or.inr ⟨.content f i, ⟨⟨hf, hi⟩, hentry, hne⟩, h.owner hf.1⟩
    · refine Or.inr ⟨r, hr, ?_⟩
      rw [howner]
      exact h.owner hp.mem
  · intro path relativeTo flags date n cur writes hnew hout hrun
    obtain ⟨hc, hrest⟩ := hrun
    obtain ⟨⟨⟨hvalid, hsafe⟩, -⟩, -⟩ := hc
    rcases ho : dzfsOpenRelative s.fs flags date path relativeTo with ⟨out, fs'⟩
    rw [ho] at hout
    subst hout
    have hexec : exec s (.openRelative path relativeTo flags date)
        = ⟨fs', insert n s.entities⟩ := by
      simp only [exec, ho, entitiesAfterOpen]
    rcases dzfsOpenRelative_creation h.toInv hvalid.1 hvalid.2.newNameFits hsafe ho with
      ⟨-, hok⟩ | ⟨cur', n', name, -, -, hcur, hout, hcreate⟩
    · obtain ⟨m, hm, heq⟩ := hok rfl
      rw [Option.some.inj heq] at hnew
      exact absurd hm hnew
    · obtain ⟨-, hn, hc⟩ := OpenOut.mk.inj hout
      obtain rfl := Option.some.inj hn
      obtain rfl := Option.some.inj hc
      rw [hexec] at hrest ⊢
      exact Since.run (s := ⟨fs', insert n s.entities⟩) (h.create hcur.1 hcur.2 hcreate)
        (Finset.mem_insert_self _ _)
        (Since.create hcreate) hrest

end

/-- A formatted disk that fits one bitmap block. -/
theorem dzfsNew_tight {disk : Nat → Bytes} {blocks : Nat} {fs : Dzfs}
    (hle : blocks ≤ DZFS_BITSET_COVERED_BLOCKS) (hnew : dzfsNew disk blocks date = (.OK, fs)) :
    Tight blocks fs {fs.rootDnode} fun _ => [] := by
  have hinv := (dzfsNew_formatted (hle.trans (by decide)) hnew).inv
  obtain ⟨hcov, hbits⟩ := dzfsNew_bits hle hnew
  refine ⟨hinv, hcov, fun e he hne => absurd (Finset.mem_singleton.mp he) hne,
    fun m hm hused => Or.inl ?_⟩
  by_contra hgt
  have hroot := hinv.root_eq
  have hfree := (hbits m (lt_of_lt_of_le hm hcov)).mpr ⟨by omega, hm⟩
  rw [hfree] at hused
  cases hused

/-- In every state of a run of calls that are `LeakOk`, from a disk that fits one bitmap block,
no block is lost. -/
theorem no_leak {disk : Nat → Bytes} {blocks : Nat} {date : UInt64} {fs : Dzfs}
    (hle : blocks ≤ DZFS_BITSET_COVERED_BLOCKS) (hnew : dzfsNew disk blocks date = (.OK, fs))
    {s : FsState} (hs : Reachable LeakOk (newState fs) s) : NoLeak blocks s := by
  have htight : ∃ ls, Tight blocks s.fs s.entities ls := by
    induction hs with
    | start => exact ⟨_, dzfsNew_tight hle hnew⟩
    | call c _ hc ih =>
      obtain ⟨ls, h⟩ := ih
      exact exec_tight h hc
  obtain ⟨ls, h⟩ := htight
  exact h.noLeak

/-- The file `f` gets two blocks of data and goes again. -/
def twoBlockCalls : List Call :=
  [.openRelative [102] 3 1 0, .write 4 (List.replicate 4097 0) 0, .delete 4 3]

theorem no_leak_twoBlocks : NoLeak 32768 (twoBlockCalls.foldl exec (newState formattedDisk)) :=
  no_leak (by decide) formattedDisk_new
    (OkRun.reachable .start (show OkRun LeakOk (newState formattedDisk) twoBlockCalls by
      decide +kernel))

/-- With nothing but a root folder that does not list it, a block in use is lost. -/
theorem not_noLeak_of_alone {total : Nat} {s : FsState} (hE : s.entities = {s.fs.rootDnode})
    (hfolder : entityType (s.fs.disk s.fs.rootDnode) = DZFS_ENTITY_FOLDER)
    (hno : ∀ i < DZFS_MAX_DIR_CONTENTS, contentDnode (s.fs.disk s.fs.rootDnode) i ≠ n)
    (hn : n < total) (hroot : s.fs.rootDnode < n) (hused : bit s.fs n = false) :
    ¬ NoLeak total s := by
  intro hlaw
  have halone : ∀ d ∈ s.entities, d = s.fs.rootDnode := fun d hd => by simpa [hE] using hd
  have hnoFile : ∀ d, ¬ IsFile s d := by
    rintro d ⟨hd, hfile⟩
    rw [halone d hd] at hfile
    exact file_ne_folder hfile hfolder
  obtain ⟨r, ⟨hpresent, hblock, -⟩, -⟩ :=
    (hlaw.referenced n hn hused).resolve_left (not_le.mpr hroot)
  cases r with
  | content f i =>
    obtain ⟨⟨hf, -⟩, hi⟩ := hpresent
    rw [halone f hf] at hblock
    exact hno i hi hblock
  | direct d i => exact hnoFile d hpresent.1
  | indirect d => exact hnoFile d hpresent
  | entry d i => exact hnoFile d hpresent.1

/-- The first block of the file `f` is written twice, which doubles its size, and then the third
one. Its second block is missing when the file is deleted. -/
def holeCalls : List Call :=
  [.openRelative [102] 3 1 0, .write 4 (List.replicate 4096 0) 0,
    .write 4 (List.replicate 4096 0) 0, .write 4 [1] 8192, .delete 4 3]

/-- After these calls, which all succeed, block 6 is in use and nothing refers to it. -/
theorem hole_leaks :
    Reachable Succeeds (newState formattedDisk) (holeCalls.foldl exec (newState formattedDisk)) ∧
      ¬ NoLeak 32768 (holeCalls.foldl exec (newState formattedDisk)) := by
  have hrun : OkRun Succeeds (newState formattedDisk) holeCalls := by decide +kernel
  exact ⟨hrun.reachable .start, not_noLeak_of_alone (n := 6) (by decide +kernel)
    (by decide +kernel) (by decide +kernel) (by decide) (by decide +kernel) (by decide +kernel)⟩

end DzOS.Proofs.Fs
