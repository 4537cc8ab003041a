import DzOS.Lib.Owner
import DzOS.Proofs.Fs.Bitmap
import DzOS.Proofs.Fs.Folder

/-!
# `DzOS.Proofs.Fs.Invariant`: who owns a block

An entity is a file or a folder that was created and not deleted since. The entities `E` of a
disk are known by their dnodes. `Holds` lists the places that hold a block: an entity holds
its own dnode, and a file also holds its direct blocks, its indirect block and the entries of
that block.

`Inv` is the invariant of the file system. Every block that is held is in use and is held
once (`blocks`), every folder lists entities, and every entity is listed once at most
(`listing`). The lists are a parameter `ls`. `Core` is the invariant without the last part,
which does not hold in the middle of a move.

The rules below say which writes keep it: an allocated bit (`Core.alloc`), a write to the header
of a dnode (`Core.writeHeader`) and a write to the entries of a folder (`Core.writeFolder`).
-/

set_option autoImplicit false

namespace DzOS.Proofs.Fs

open DzOS.Lib DzOS.Fs

variable {b : Bytes} {disk disk' : Nat → Bytes} {l : List Nat}

/-- The places that hold a block. -/
inductive Place where
  | dnode (d : Nat)
  | direct (d i : Nat)
  | indirect (d : Nat)
  | entry (d i : Nat)
  deriving DecidableEq

variable {p : Place}

/-- The entity of a place. -/
def Place.entity : Place → Nat
  | .dnode d => d
  | .direct d _ => d
  | .indirect d => d
  | .entry d _ => d

/-- The place `p` holds the block `n`. -/
def Holds (disk : Nat → Bytes) (E : Finset Nat) : Place → Nat → Prop
  | .dnode d, n => d ∈ E ∧ n = d
  | .direct d i, n => d ∈ E ∧ entityType (disk d) = DZFS_ENTITY_FILE ∧
      i < DZFS_DIRECT_BLOCKS ∧ n = fileDirect (disk d) i ∧ n ≠ 0
  | .indirect d, n => d ∈ E ∧ entityType (disk d) = DZFS_ENTITY_FILE ∧
      n = fileIndirect (disk d) ∧ n ≠ 0
  | .entry d i, n => d ∈ E ∧ entityType (disk d) = DZFS_ENTITY_FILE ∧
      fileIndirect (disk d) ≠ 0 ∧ i < DZFS_INDIRECT_BLOCK_COUNT ∧
      n = indirectEntry (disk (fileIndirect (disk d))) i ∧ n ≠ 0

/-- The block `n` is in use: it is no block of the system, and its bit is 0. -/
def Used (fs : Dzfs) (n : Nat) : Prop :=
  fs.rootDnode ≤ n ∧ n < covered fs ∧ bit fs n = false

/-- The blocks and the folders of the file system, with the entities `E` and the lists `ls` of
its folders. -/
structure Core (fs : Dzfs) (E : Finset Nat) (ls : Nat → List Nat) : Prop where
  root_eq : fs.rootDnode = fs.freeBitmapBlocks + 2
  bitmap_le : fs.freeBitmapBlocks + 3 ≤ DZFS_BITSET_COVERED_BLOCKS
  root_mem : fs.rootDnode ∈ E
  root_folder : entityType (fs.disk fs.rootDnode) = DZFS_ENTITY_FOLDER
  typed : ∀ d ∈ E, entityType (fs.disk d) = DZFS_ENTITY_FILE ∨
    entityType (fs.disk d) = DZFS_ENTITY_FOLDER
  low : ∀ n < fs.rootDnode, bit fs n = false
  blocks : Owns (Holds fs.disk E) (Used fs)
  lists : ∀ f ∈ E, entityType (fs.disk f) = DZFS_ENTITY_FOLDER → Lists (fs.disk f) (ls f)
  unlisted : ∀ f, f ∉ E ∨ entityType (fs.disk f) ≠ DZFS_ENTITY_FOLDER → ls f = []

/-- The invariant of the file system. -/
structure Inv (fs : Dzfs) (E : Finset Nat) (ls : Nat → List Nat) : Prop
    extends Core fs E ls where
  listing : Listing ls fun n => n ∈ E ∧ n ≠ fs.rootDnode

/-- A file is not a folder. -/
theorem file_ne_folder (h : entityType b = DZFS_ENTITY_FILE) :
    entityType b ≠ DZFS_ENTITY_FOLDER := by
  rw [h]
  decide

/-- The dnode of a file is not that of a folder. -/
theorem file_dnode_ne {fs : Dzfs} {d f : Nat} (hd : entityType (fs.disk d) = DZFS_ENTITY_FILE)
    (hf : entityType (fs.disk f) = DZFS_ENTITY_FOLDER) : d ≠ f := by
  rintro rfl
  exact file_ne_folder hd hf

section
variable {fs fs' : Dzfs} {E : Finset Nat} {ls : Nat → List Nat} {d n m : Nat}

/-! ### What the invariant says about a block number -/

section

variable (h : Core fs E ls)

include h

theorem Core.mem_used (hd : d ∈ E) : Used fs d :=
  h.blocks.used (.dnode d) d ⟨hd, rfl⟩

theorem Core.covered_le : covered fs ≤ 2 ^ 30 := by
  have hle := h.bitmap_le
  simp only [covered, DZFS_BITSET_COVERED_BLOCKS, DZFS_BLOCK_SIZE] at hle ⊢
  omega

theorem Core.root_le (hd : d ∈ E) : fs.rootDnode ≤ d := (h.mem_used hd).1

theorem Core.two_le : 2 ≤ fs.rootDnode := by
  rw [h.root_eq]
  exact Nat.le_add_left 2 _

theorem Core.ne_zero (hd : d ∈ E) : d ≠ 0 := by
  have hroot := h.root_le hd
  have htwo := h.two_le
  omega

theorem Core.lt_word (hd : d ∈ E) : d < 2 ^ 32 := by
  have hcov := h.covered_le
  have hlt := (h.mem_used hd).2.1
  omega

/-- The content blocks and the indirect block of a file are not dnodes. -/
theorem Core.not_mem_of_holds (hp : Holds fs.disk E p n) (hne : p ≠ .dnode n) : n ∉ E :=
  fun hn => hne (h.blocks.inj p (.dnode n) n hp ⟨hn, rfl⟩)

/-- The indirect block of a file. -/
theorem Core.indirect_spec (hd : d ∈ E) (hfile : entityType (fs.disk d) = DZFS_ENTITY_FILE)
    (hne : fileIndirect (fs.disk d) ≠ 0) :
    fileIndirect (fs.disk d) ∉ E ∧ fs.rootDnode ≤ fileIndirect (fs.disk d) := by
  have hp : Holds fs.disk E (.indirect d) (fileIndirect (fs.disk d)) := ⟨hd, hfile, rfl, hne⟩
  exact ⟨h.not_mem_of_holds hp (by simp), (h.blocks.used _ _ hp).1⟩

end

/-! ### Frames -/

/-- The blocks `b` and `b'` have the same type and the same pointers. -/
def SameLinks (b b' : Bytes) : Prop := b' 0 = b 0 ∧ ∀ i, 268 ≤ i → b' i = b i

section
variable {b b' : Bytes}

theorem SameLinks.refl (b : Bytes) : SameLinks b b := ⟨rfl, fun _ _ => rfl⟩

theorem SameLinks.of_eq (h : b' = b) : SameLinks b b' := h ▸ SameLinks.refl b

section

variable (h : SameLinks b b')

include h

theorem SameLinks.type : entityType b' = entityType b := h.1

theorem SameLinks.word {off : Nat} (hoff : 268 ≤ off) : b'.getLE 4 off = b.getLE 4 off :=
  Bytes.getLE_congr fun i hi _ => h.2 i (hoff.trans hi)

theorem SameLinks.indirect : fileIndirect b' = fileIndirect b :=
  h.word (Nat.le_refl 268)

theorem SameLinks.direct (i : Nat) : fileDirect b' i = fileDirect b i :=
  h.word (by simp only [directOffset]; omega)

theorem SameLinks.lists (hl : Lists b l) : Lists b' l :=
  hl.congr fun i _ => h.word (by simp only [contentOffset]; omega)

end

end

/-- A place depends on the type of its dnode, the links of its file and its indirect block only. -/
theorem Holds.congr_place (p : Place) (n : Nat)
    (htype : p.entity ∈ E → entityType (disk' p.entity) = entityType (disk p.entity))
    (hlinks : p.entity ∈ E → entityType (disk p.entity) = DZFS_ENTITY_FILE →
      SameLinks (disk p.entity) (disk' p.entity))
    (hind : p.entity ∈ E → entityType (disk p.entity) = DZFS_ENTITY_FILE →
      fileIndirect (disk p.entity) ≠ 0 →
      disk' (fileIndirect (disk p.entity)) = disk (fileIndirect (disk p.entity))) :
    Holds disk' E p n ↔ Holds disk E p n := by
  cases p <;> simp only [Holds, Place.entity] at htype hlinks hind ⊢
  case direct d i =>
    refine and_congr_right fun hd => ?_
    rw [htype hd]
    refine and_congr_right fun hfile => ?_
    rw [(hlinks hd hfile).direct]
  case indirect d =>
    refine and_congr_right fun hd => ?_
    rw [htype hd]
    refine and_congr_right fun hfile => ?_
    rw [(hlinks hd hfile).indirect]
  case entry d i =>
    refine and_congr_right fun hd => ?_
    rw [htype hd]
    refine and_congr_right fun hfile => ?_
    rw [(hlinks hd hfile).indirect]
    refine and_congr_right fun hne => ?_
    rw [hind hd hfile hne]

/-- The same for all places. -/
theorem Holds.congr_iff (htype : ∀ d ∈ E, entityType (disk' d) = entityType (disk d))
    (hlinks : ∀ d ∈ E, entityType (disk d) = DZFS_ENTITY_FILE → SameLinks (disk d) (disk' d))
    (hind : ∀ d ∈ E, entityType (disk d) = DZFS_ENTITY_FILE → fileIndirect (disk d) ≠ 0 →
      disk' (fileIndirect (disk d)) = disk (fileIndirect (disk d))) (p : Place) (n : Nat) :
    Holds disk' E p n ↔ Holds disk E p n :=
  congr_place p n (htype _) (hlinks _) (hind _)

theorem Holds.mem (h : Holds disk E p n) : p.entity ∈ E := by
  cases p <;> exact h.1

/-- A place depends on its own entity only. -/
theorem Holds.of_mem (h : Holds disk E p n) {E' : Finset Nat} (hmem : p.entity ∈ E') :
    Holds disk E' p n := by
  cases p <;> exact ⟨hmem, h.2⟩

/-- The invariant depends on the links of the dnodes, the indirect blocks and the bits of the
blocks that are held. -/
theorem Core.congr (h : Core fs E ls) (hF : fs'.freeBitmapBlocks = fs.freeBitmapBlocks)
    (hroot : fs'.rootDnode = fs.rootDnode) (hE : ∀ d ∈ E, SameLinks (fs.disk d) (fs'.disk d))
    (hind : ∀ d ∈ E, entityType (fs.disk d) = DZFS_ENTITY_FILE →
      fileIndirect (fs.disk d) ≠ 0 →
      fs'.disk (fileIndirect (fs.disk d)) = fs.disk (fileIndirect (fs.disk d)))
    (hbit : ∀ m < covered fs, bit fs m = false → bit fs' m = false) : Core fs' E ls where
  root_eq := by rw [hroot, hF, h.root_eq]
  bitmap_le := by rw [hF]; exact h.bitmap_le
  root_mem := by rw [hroot]; exact h.root_mem
  root_folder := by rw [hroot, (hE _ h.root_mem).type]; exact h.root_folder
  typed d hd := by rw [(hE d hd).type]; exact h.typed d hd
  low n hn := by
    rw [hroot] at hn
    refine hbit n ?_ (h.low n hn)
    exact lt_trans hn (h.mem_used h.root_mem).2.1
  blocks := by
    have hholds := Holds.congr_iff (fun d hd => (hE d hd).type) (fun d hd _ => hE d hd) hind
    refine h.blocks.sub (fun p n => (hholds p n).mp) fun p n _ hu => ?_
    have hcov : covered fs' = covered fs := by simp only [covered, hF]
    exact ⟨hroot ▸ hu.1, hcov ▸ hu.2.1, hbit n hu.2.1 hu.2.2⟩
  lists f hf hfolder := by
    rw [(hE f hf).type] at hfolder
    exact (hE f hf).lists (h.lists f hf hfolder)
  unlisted f hf := by
    by_cases hmem : f ∈ E
    · rw [(hE f hmem).type] at hf
      exact h.unlisted f hf
    · exact h.unlisted f (Or.inl hmem)

/-- A write to a block of the file area does not change the bitmap. -/
theorem bit_writeBlock (hm : fs.freeBitmapBlocks + 2 ≤ m) (b : Bytes) {k : Nat}
    (hk : k < covered fs) : bit (fs.writeBlock m b) k = bit fs k :=
  bit_writeBlock_apart (Or.inr hm) b hk

/-- A write to the header of a dnode. -/
theorem Core.writeHeader (h : Core fs E ls) (hd : d ∈ E) (hb : SameLinks (fs.disk d) b) :
    Core (fs.writeBlock d b) E ls := by
  have hroot := h.root_le hd
  refine h.congr rfl rfl (fun e _ => ?_) (fun e he hfile hne => ?_) (fun k hk hbit => ?_)
  · by_cases hed : e = d
    · subst hed
      simpa [Dzfs.writeBlock] using hb
    · exact SameLinks.of_eq (Function.update_of_ne hed _ _)
  · refine Function.update_of_ne ?_ _ _
    rintro heq
    exact (h.indirect_spec he hfile hne).1 (heq ▸ hd)
  · rw [bit_writeBlock (by rw [← h.root_eq]; exact hroot) b hk, hbit]

section
variable {f : Nat} {b : Bytes}

/-- A write to the entries of a folder changes no type. -/
theorem entityType_writeFolder (hfolder : entityType (fs.disk f) = DZFS_ENTITY_FOLDER)
    (hb : entityType b = DZFS_ENTITY_FOLDER) (e : Nat) :
    entityType ((fs.writeBlock f b).disk e) = entityType (fs.disk e) := by
  by_cases he : e = f
  · rw [he, hfolder, ← hb]
    exact congrArg entityType (Function.update_self _ _ _)
  · exact congrArg entityType (Function.update_of_ne he _ _)

/-- A write to the entries of a folder changes no place that holds a block. -/
theorem Core.holds_writeFolder (h : Core fs E ls) (hf : f ∈ E)
    (hfolder : entityType (fs.disk f) = DZFS_ENTITY_FOLDER)
    (hb : entityType b = DZFS_ENTITY_FOLDER) (p : Place) (n : Nat) :
    Holds (fs.writeBlock f b).disk E p n ↔ Holds fs.disk E p n := by
  refine Holds.congr_iff (fun e _ => entityType_writeFolder hfolder hb e) (fun e _ he => ?_)
    (fun e he hefile hne => ?_) p n
  · refine SameLinks.of_eq (Function.update_of_ne ?_ _ _)
    rintro rfl
    exact file_ne_folder he hfolder
  · refine Function.update_of_ne ?_ _ _
    intro heq
    exact (h.indirect_spec he hefile hne).1 (heq ▸ hf)

/-- A write to the header of a dnode changes no place that holds a block. -/
theorem Core.holds_writeHeader (h : Core fs E ls) (hd : d ∈ E) (hb : SameLinks (fs.disk d) b)
    (p : Place) (n : Nat) : Holds (fs.writeBlock d b).disk E p n ↔ Holds fs.disk E p n := by
  have hlinks : ∀ e, SameLinks (fs.disk e) ((fs.writeBlock d b).disk e) := by
    intro e
    by_cases hed : e = d
    · subst hed
      simpa [Dzfs.writeBlock] using hb
    · exact SameLinks.of_eq (Function.update_of_ne hed _ _)
  refine Holds.congr_iff (fun e _ => (hlinks e).type) (fun e _ _ => hlinks e)
    (fun e he hfile hne => ?_) p n
  refine Function.update_of_ne ?_ _ _
  intro heq
  exact (h.indirect_spec he hfile hne).1 (heq ▸ hd)

/-- A write to the entries of a folder. -/
theorem Core.writeFolder (h : Core fs E ls) (hf : f ∈ E)
    (hfolder : entityType (fs.disk f) = DZFS_ENTITY_FOLDER) (hb : entityType b = DZFS_ENTITY_FOLDER)
    (hl : Lists b l) : Core (fs.writeBlock f b) E (Function.update ls f l) := by
  have hroot := h.root_le hf
  have hother : ∀ e, e ≠ f → (fs.writeBlock f b).disk e = fs.disk e := fun e he =>
    Function.update_of_ne he _ _
  have hself : (fs.writeBlock f b).disk f = b := Function.update_self _ _ _
  have htype := entityType_writeFolder hfolder hb
  have hbits : ∀ k < covered fs, bit (fs.writeBlock f b) k = bit fs k := fun k hk =>
    bit_writeBlock (by rw [← h.root_eq]; exact hroot) b hk
  refine ⟨h.root_eq, h.bitmap_le, h.root_mem, (htype _).trans h.root_folder, fun d hd => ?_,
    fun n hn => ?_, ?_, fun g hg hgfolder => ?_, fun g hg => ?_⟩
  · rw [htype]
    exact h.typed d hd
  · rw [hbits n (lt_trans hn (h.mem_used h.root_mem).2.1)]
    exact h.low n hn
  · exact h.blocks.sub (fun p n => (h.holds_writeFolder hf hfolder hb p n).mp) fun p n _ hu =>
      ⟨hu.1, hu.2.1, (hbits n hu.2.1).trans hu.2.2⟩
  · by_cases hgf : g = f
    · rw [hgf, hself, Function.update_self]
      exact hl
    · rw [hother g hgf, Function.update_of_ne hgf]
      rw [htype] at hgfolder
      exact h.lists g hg hgfolder
  · rw [htype] at hg
    have hgf : g ≠ f := by
      rintro rfl
      rcases hg with hg | hg
      · exact hg hf
      · exact hg hfolder
    rw [Function.update_of_ne hgf]
    exact h.unlisted g hg

end

/-- The two disks have the same bits, and on them the entities hold the same blocks and have
the same types and parents. -/
structure SameBlocks (fs fs' : Dzfs) (E : Finset Nat) : Prop where
  only : covered fs' = covered fs ∧ fs'.rootDnode = fs.rootDnode
  bits : ∀ m < covered fs, bit fs' m = bit fs m
  holds : ∀ p n, Holds fs'.disk E p n ↔ Holds fs.disk E p n
  type : ∀ e, entityType (fs'.disk e) = entityType (fs.disk e)
  parent : ∀ e, folderParent (fs'.disk e) = folderParent (fs.disk e)

theorem SameBlocks.trans {fs'' : Dzfs} (h : SameBlocks fs fs' E) (h' : SameBlocks fs' fs'' E) :
    SameBlocks fs fs'' E where
  only := ⟨h'.only.1.trans h.only.1, h'.only.2.trans h.only.2⟩
  bits m hm := (h'.bits m (h.only.1 ▸ hm)).trans (h.bits m hm)
  holds p n := (h'.holds p n).trans (h.holds p n)
  type e := (h'.type e).trans (h.type e)
  parent e := (h'.parent e).trans (h.parent e)

/-- A write to a dnode that keeps the type and the parent. -/
theorem SameBlocks.write (h : Core fs E ls) (hd : d ∈ E) {b : Bytes}
    (htype : entityType b = entityType (fs.disk d))
    (hparent : folderParent b = folderParent (fs.disk d))
    (hholds : ∀ p n, Holds (fs.writeBlock d b).disk E p n ↔ Holds fs.disk E p n) :
    SameBlocks fs (fs.writeBlock d b) E := by
  have hcases : ∀ e, (fs.writeBlock d b).disk e = fs.disk e ∨
      e = d ∧ (fs.writeBlock d b).disk e = b := by
    intro e
    by_cases hed : e = d
    · rw [hed]
      exact Or.inr ⟨rfl, Function.update_self _ _ _⟩
    · exact Or.inl (Function.update_of_ne hed _ _)
  refine ⟨⟨rfl, rfl⟩, fun m hm => ?_, hholds, fun e => ?_, fun e => ?_⟩
  · have hroot := h.root_le hd
    exact bit_writeBlock (by rw [← h.root_eq]; exact hroot) b hm
  · rcases hcases e with heq | ⟨rfl, heq⟩
    · rw [heq]
    · rw [heq, htype]
  · rcases hcases e with heq | ⟨rfl, heq⟩
    · rw [heq]
    · rw [heq, hparent]

/-- A write to the entries of a folder. -/
theorem SameBlocks.writeFolder (h : Core fs E ls) (hd : d ∈ E)
    (hfolder : entityType (fs.disk d) = DZFS_ENTITY_FOLDER) (hb : ∀ i < 268, b i = fs.disk d i) :
    SameBlocks fs (fs.writeBlock d b) E := by
  have htype : entityType b = entityType (fs.disk d) := hb 0 (by decide)
  refine SameBlocks.write h hd htype ?_ (h.holds_writeFolder hd hfolder (htype.trans hfolder))
  exact Bytes.getLE_congr fun i _ hi => hb i (by simp only [SIZE_OFFSET] at hi; omega)

/-! ### Allocation -/

/-- The block `n` is in use, but no place holds it. -/
structure Fresh (fs : Dzfs) (E : Finset Nat) (n : Nat) : Prop where
  used : Used fs n
  not_holds : ∀ p, ¬ Holds fs.disk E p n

theorem Fresh.not_mem (h : Fresh fs E n) : n ∉ E := fun hn => h.not_holds (.dnode n) ⟨hn, rfl⟩

/-- An allocated block is fresh, and the invariant holds after the allocation. -/
theorem Core.alloc (h : Core fs E ls) (hn : n < covered fs) (hfree : bit fs n = true)
    (honly : BitsOnly fs fs')
    (hbits : ∀ m < covered fs, bit fs' m = (bit fs m && decide (m ≠ n))) :
    Core fs' E ls ∧ Fresh fs' E n := by
  have hnroot : fs.rootDnode ≤ n := by
    by_contra hlt
    rw [h.low n (by omega)] at hfree
    cases hfree
  have hE : ∀ m, fs.rootDnode ≤ m → fs'.disk m = fs.disk m := fun m hm =>
    honly.disk m (Or.inr (by rw [← h.root_eq]; exact hm))
  have hlinks : ∀ d ∈ E, SameLinks (fs.disk d) (fs'.disk d) := fun d hd =>
    SameLinks.of_eq (hE d (h.root_le hd))
  have hind : ∀ d ∈ E, entityType (fs.disk d) = DZFS_ENTITY_FILE →
      fileIndirect (fs.disk d) ≠ 0 →
      fs'.disk (fileIndirect (fs.disk d)) = fs.disk (fileIndirect (fs.disk d)) :=
    fun d hd hfile hne => hE _ (h.indirect_spec hd hfile hne).2
  refine ⟨h.congr honly.freeBitmapBlocks honly.rootDnode hlinks hind
    fun m hm hbit => ?_, ⟨⟨?_, ?_, ?_⟩, fun p hp => ?_⟩⟩
  · simp [hbits m hm, hbit]
  · rw [honly.rootDnode]
    exact hnroot
  · rw [honly.covered]
    exact hn
  · simp [hbits n hn]
  · have hholds := Holds.congr_iff (fun d hd => (hlinks d hd).type) (fun d hd _ => hlinks d hd) hind
    have hused := h.blocks.used p n ((hholds p n).mp hp)
    rw [hused.2.2] at hfree
    cases hfree

/-! ### Entities -/

/-- A fresh block becomes the dnode of an entity without links. -/
theorem Core.addEntity (h : Core fs E ls) (hn : Fresh fs E n)
    (htype : entityType b = DZFS_ENTITY_FILE ∨ entityType b = DZFS_ENTITY_FOLDER)
    (hb : ∀ i, 268 ≤ i → b i = 0) : Core (fs.writeBlock n b) (insert n E) ls := by
  have hword : ∀ off, 268 ≤ off → b.getLE 4 off = 0 := fun off hoff =>
    Bytes.getLE_eq_zero fun i hi _ => hb i (hoff.trans hi)
  have hself : (fs.writeBlock n b).disk n = b := Function.update_self _ _ _
  have hother : ∀ m, m ≠ n → (fs.writeBlock n b).disk m = fs.disk m := fun m hm =>
    Function.update_of_ne hm _ _
  have hE : ∀ d ∈ E, (fs.writeBlock n b).disk d = fs.disk d := fun d hd => by
    refine hother d ?_
    rintro rfl
    exact hn.not_mem hd
  have hroot : fs.rootDnode ≤ n := hn.used.1
  have hbits : ∀ k < covered fs, bit (fs.writeBlock n b) k = bit fs k := fun k hk =>
    bit_writeBlock (by rw [← h.root_eq]; exact hroot) b hk
  have hholds : ∀ p m, Holds (fs.writeBlock n b).disk (insert n E) p m →
      Holds fs.disk E p m ∨ p = .dnode n ∧ m = n := by
    intro p m hp
    cases p with
    | dnode d =>
      obtain ⟨hd, rfl⟩ := hp
      rcases Finset.mem_insert.mp hd with rfl | hd
      · exact Or.inr ⟨rfl, rfl⟩
      · exact Or.inl ⟨hd, rfl⟩
    | direct d i =>
      obtain ⟨hd, hfile, hi, hm, hnz⟩ := hp
      rcases Finset.mem_insert.mp hd with rfl | hd
      · rw [hself, fileDirect, hword _ (by simp only [directOffset]; omega)] at hm
        exact absurd hm hnz
      · rw [hE d hd] at hfile hm
        exact Or.inl ⟨hd, hfile, hi, hm, hnz⟩
    | indirect d =>
      obtain ⟨hd, hfile, hm, hnz⟩ := hp
      rcases Finset.mem_insert.mp hd with rfl | hd
      · rw [hself, fileIndirect, hword INDIRECT_OFFSET (Nat.le_refl _)] at hm
        exact absurd hm hnz
      · rw [hE d hd] at hfile hm
        exact Or.inl ⟨hd, hfile, hm, hnz⟩
    | entry d i =>
      obtain ⟨hd, hfile, hne, hrest⟩ := hp
      rcases Finset.mem_insert.mp hd with rfl | hd
      · rw [hself, fileIndirect, hword INDIRECT_OFFSET (Nat.le_refl _)] at hne
        exact absurd rfl hne
      · rw [hE d hd] at hfile hne hrest
        have hind : fileIndirect (fs.disk d) ≠ n := fun heq =>
          hn.not_holds (.indirect d) ⟨hd, hfile, heq.symm, heq ▸ hne⟩
        rw [hother _ hind] at hrest
        exact Or.inl ⟨hd, hfile, hne, hrest⟩
  refine ⟨h.root_eq, h.bitmap_le, Finset.mem_insert_of_mem h.root_mem, ?_, fun d hd => ?_,
    fun m hm => ?_, ?_, fun f hf hfolder => ?_, fun f hf => ?_⟩
  · exact (congrArg entityType (hE _ h.root_mem)).trans h.root_folder
  · rcases Finset.mem_insert.mp hd with rfl | hd
    · rw [hself]
      exact htype
    · rw [hE d hd]
      exact h.typed d hd
  · exact (hbits m (lt_trans hm (h.mem_used h.root_mem).2.1)).trans (h.low m hm)
  · refine h.blocks.take (.dnode n) n hholds hn.not_holds (fun m hu => ?_) ?_
    · exact ⟨hu.1, hu.2.1, (hbits m hu.2.1).trans hu.2.2⟩
    · exact ⟨hn.used.1, hn.used.2.1, (hbits n hn.used.2.1).trans hn.used.2.2⟩
  · rcases Finset.mem_insert.mp hf with rfl | hf
    · rw [hself, h.unlisted f (Or.inl hn.not_mem)]
      exact Lists.nil fun i _ => hword _ (by simp only [contentOffset]; omega)
    · rw [hE f hf] at hfolder ⊢
      exact h.lists f hf hfolder
  · by_cases hmem : f ∈ E
    · rw [hE f hmem] at hf
      exact h.unlisted f (Or.inr (hf.resolve_left fun hno => hno (Finset.mem_insert_of_mem hmem)))
    · exact h.unlisted f (Or.inl hmem)

/-- The entity `d` goes, and the bits of its blocks may be set. -/
theorem Core.removeEntity (h : Core fs E ls) (hroot : d ≠ fs.rootDnode) (hls : ls d = [])
    (honly : BitsOnly fs fs')
    (hbits : ∀ m < covered fs, bit fs m = false → bit fs' m = true →
      ∃ p : Place, p.entity = d ∧ Holds fs.disk E p m) : Core fs' (E.erase d) ls := by
  have hE : ∀ m, fs.rootDnode ≤ m → fs'.disk m = fs.disk m := fun m hm =>
    honly.disk m (Or.inr (by rw [← h.root_eq]; exact hm))
  have hmem : ∀ e ∈ E.erase d, e ≠ d ∧ e ∈ E ∧ fs'.disk e = fs.disk e := fun e he => by
    obtain ⟨hne, he⟩ := Finset.mem_erase.mp he
    exact ⟨hne, he, hE e (h.root_le he)⟩
  have hholds : ∀ p n, Holds fs'.disk (E.erase d) p n → p.entity ≠ d ∧ Holds fs.disk E p n := by
    intro p n hp
    cases p with
    | dnode e =>
      obtain ⟨hne, he, -⟩ := hmem e hp.1
      exact ⟨hne, he, hp.2⟩
    | direct e i =>
      obtain ⟨hd, hrest⟩ := hp
      obtain ⟨hne, he, heq⟩ := hmem e hd
      rw [heq] at hrest
      exact ⟨hne, he, hrest⟩
    | indirect e =>
      obtain ⟨hd, hrest⟩ := hp
      obtain ⟨hne, he, heq⟩ := hmem e hd
      rw [heq] at hrest
      exact ⟨hne, he, hrest⟩
    | entry e i =>
      obtain ⟨hd, hfile, hnz, hrest⟩ := hp
      obtain ⟨hne, he, heq⟩ := hmem e hd
      rw [heq] at hfile hnz hrest
      rw [hE _ (h.indirect_spec he hfile hnz).2] at hrest
      exact ⟨hne, he, hfile, hnz, hrest⟩
  have hF := honly.freeBitmapBlocks
  have hR := honly.rootDnode
  refine ⟨by rw [hF, hR, h.root_eq], hF ▸ h.bitmap_le, ?_, ?_, fun e he => ?_, fun n hn => ?_,
    ?_, fun f hf hfolder => ?_, fun f hf => ?_⟩
  · rw [hR]
    exact Finset.mem_erase.mpr ⟨hroot.symm, h.root_mem⟩
  · rw [hR, hE _ (h.root_le h.root_mem)]
    exact h.root_folder
  · obtain ⟨-, he, heq⟩ := hmem e he
    rw [heq]
    exact h.typed e he
  · rw [hR] at hn
    by_contra hset
    have hlt := lt_trans hn (h.mem_used h.root_mem).2.1
    obtain ⟨p, -, hp⟩ := hbits n hlt (h.low n hn) (by simpa using hset)
    exact absurd (h.blocks.used p n hp).1 (not_le.mpr hn)
  · refine h.blocks.sub (fun p n hp => (hholds p n hp).2) fun p n hp hu => ?_
    refine ⟨hR ▸ hu.1, honly.covered ▸ hu.2.1, ?_⟩
    by_contra hset
    obtain ⟨q, hq, hqn⟩ := hbits n hu.2.1 hu.2.2 (by simpa using hset)
    obtain ⟨hne, hpn⟩ := hholds p n hp
    exact hne (h.blocks.inj p q n hpn hqn ▸ hq)
  · obtain ⟨-, hf, heq⟩ := hmem f hf
    rw [heq] at hfolder ⊢
    exact h.lists f hf hfolder
  · by_cases hfd : f = d
    · rw [hfd, hls]
    · by_cases hfE : f ∈ E
      · have hfe : f ∈ E.erase d := Finset.mem_erase.mpr ⟨hfd, hfE⟩
        rw [(hmem f hfe).2.2] at hf
        exact h.unlisted f (Or.inr (hf.resolve_left fun hno => hno hfe))
      · exact h.unlisted f (Or.inl hfE)

end

end DzOS.Proofs.Fs
