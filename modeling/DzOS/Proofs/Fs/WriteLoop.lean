import DzOS.Proofs.Fs.Invariant

/-!
# `DzOS.Proofs.Fs.WriteLoop`: the blocks of a file while it is written

`dzfsWrite` keeps the dnode and the indirect block of its file in memory, allocates blocks for
the pointers that are 0, and writes both blocks at the end. `Own` lists the blocks that the
pointers in memory hold, and `WHolds` lists them together with the blocks of the other
entities.

`Writing` is the invariant of the loop. A block is held once, also by the pointers in memory
(`owns`). The disk keeps every dnode and every indirect block (`kept`), so that the loop may
stop at any turn. `writeLoop_writing` proves the invariant for a whole run of the loop.
`Writing.stopped` and `Writing.finished` give the invariant of the file system at the two
ends of `dzfsWrite`.
-/

set_option autoImplicit false

namespace DzOS.Proofs.Fs

open DzOS.Lib DzOS.Fs

variable {b' b ind ind' : Bytes} {d e m n offset : Nat} {fs' fs : Dzfs} {P : Place → Prop}
  {r : DzfsResult} {p : Place} {data : List UInt8} {st' : WriteState}

/-- The place `p` of the file `d` holds the block `n` by the blocks `b` and `ind` in memory. -/
def Own (d : Nat) (b ind : Bytes) : Place → Nat → Prop
  | .dnode e, n => e = d ∧ n = d
  | .direct e i, n => e = d ∧ i < DZFS_DIRECT_BLOCKS ∧ n = fileDirect b i ∧ n ≠ 0
  | .indirect e, n => e = d ∧ n = fileIndirect b ∧ n ≠ 0
  | .entry e i, n => e = d ∧ fileIndirect b ≠ 0 ∧ i < DZFS_INDIRECT_BLOCK_COUNT ∧
      n = indirectEntry ind i ∧ n ≠ 0

theorem Own.entity (h : Own d b ind p n) : p.entity = d := by
  cases p <;> exact h.1

/-- The blocks that are held while the file `d` is written. -/
def WHolds (disk : Nat → Bytes) (E : Finset Nat) (d : Nat) (b ind : Bytes) (p : Place)
    (n : Nat) : Prop :=
  (p.entity ≠ d ∧ Holds disk E p n) ∨ Own d b ind p n

/-- The indirect block that `dzfsWrite` and `dzfsRead` have in memory at the start. -/
def indirectOf (fs : Dzfs) (d : Nat) : Bytes :=
  if fileIndirect (fs.readBlock d) ≠ 0 then fs.readBlock (fileIndirect (fs.readBlock d))
  else Bytes.zero

theorem indirectOf_of_ne (h : fileIndirect (fs.disk d) ≠ 0) :
    indirectOf fs d = fs.disk (fileIndirect (fs.disk d)) := if_pos h

theorem indirectOf_of_eq (h : fileIndirect (fs.disk d) = 0) :
    indirectOf fs d = Bytes.zero := if_neg (not_not_intro h)

/-- The invariant of the loop of `dzfsWrite` on the file `d`, from the disk `fs₀` on. -/
structure Writing (fs₀ : Dzfs) (E : Finset Nat) (d : Nat) (st : WriteState) : Prop where
  freeBitmapBlocks : st.fs.freeBitmapBlocks = fs₀.freeBitmapBlocks
  rootDnode : st.fs.rootDnode = fs₀.rootDnode
  bits : ∀ m < covered fs₀, bit fs₀ m = false → bit st.fs m = false
  noIndirect : fileIndirect st.dnodeBlock = 0 → st.indirectBlock = Bytes.zero
  header : ∀ i < 268, st.dnodeBlock i = fs₀.disk d i
  owns : Owns (WHolds fs₀.disk E d st.dnodeBlock st.indirectBlock) (Used st.fs)
  tight : ∀ m < covered fs₀, bit fs₀ m = true → bit st.fs m = false →
    ∃ p, Own d st.dnodeBlock st.indirectBlock p m
  old : ∀ p n, Own d st.dnodeBlock st.indirectBlock p n →
    Holds fs₀.disk E p n ∨ bit fs₀ n = true
  grows : ∀ p n, p.entity = d → Holds fs₀.disk E p n → Own d st.dnodeBlock st.indirectBlock p n
  kept : ∀ p n, Holds fs₀.disk E p n → p.entity ≠ d ∨ p = .dnode d ∨ p = .indirect d →
    st.fs.disk n = fs₀.disk n
  boot : st.fs.disk 0 = fs₀.disk 0

section
variable {fs₀ : Dzfs} {E : Finset Nat} {ls : Nat → List Nat} {d : Nat} {st : WriteState}

theorem Writing.covered (h : Writing fs₀ E d st) : covered st.fs = covered fs₀ := by
  simp only [Fs.covered, h.freeBitmapBlocks]

/-- The pointers in memory are those of the disk at the start. -/
theorem own_start (hd : d ∈ E) (hfile : entityType (fs₀.disk d) = DZFS_ENTITY_FILE) (p : Place)
    (n : Nat) : Own d (fs₀.disk d) (indirectOf fs₀ d) p n ↔
      p.entity = d ∧ Holds fs₀.disk E p n := by
  cases p <;> simp only [Own, Holds, Place.entity]
  case dnode e =>
    refine and_congr_right ?_
    rintro rfl
    simp [hd]
  case direct e i =>
    refine and_congr_right ?_
    rintro rfl
    simp [hd, hfile]
  case indirect e =>
    refine and_congr_right ?_
    rintro rfl
    simp [hd, hfile]
  case entry e i =>
    refine and_congr_right ?_
    rintro rfl
    simp only [hd, hfile, true_and]
    refine and_congr_right fun hne => ?_
    rw [indirectOf_of_ne hne]

/-- The pointers in memory depend on the links and the indirect block. -/
theorem Own.congr (hlinks : SameLinks b b') (hind : fileIndirect b ≠ 0 → ind' = ind) (p : Place)
    (n : Nat) : Own d b' ind' p n ↔ Own d b ind p n := by
  cases p <;> simp only [Own, hlinks.direct, hlinks.indirect]
  case entry e i =>
    refine and_congr_right fun _ => and_congr_right fun hne => ?_
    rw [hind hne]

/-- The loop starts in the invariant. -/
theorem Writing.start (h : Core fs₀ E ls) (hd : d ∈ E)
    (hfile : entityType (fs₀.disk d) = DZFS_ENTITY_FILE) (dataBlock : Bytes)
    (data : List UInt8) (offset : Nat) :
    Writing fs₀ E d ⟨fs₀, fs₀.readBlock d, indirectOf fs₀ d, dataBlock, data, offset⟩ where
  freeBitmapBlocks := rfl
  rootDnode := rfl
  bits _ _ hbit := hbit
  tight m _ hfree hused := by
    rw [hfree] at hused
    cases hused
  noIndirect hzero := indirectOf_of_eq hzero
  header _ _ := rfl
  owns := by
    refine h.blocks.sub (fun p n hp => ?_) fun _ _ _ hu => hu
    rcases hp with ⟨-, hp⟩ | hp
    · exact hp
    · exact ((own_start hd hfile p n).mp hp).2
  old p n hp := Or.inl ((own_start hd hfile p n).mp hp).2
  grows p n hp hn := (own_start hd hfile p n).mpr ⟨hp, hn⟩
  kept _ _ _ _ := rfl
  boot := rfl

/-! ### A pointer takes a block -/

/-- From the blocks `b` and `ind` to `b'` and `ind'`, the place `p` takes the block `n`. -/
structure Points (d : Nat) (b ind b' ind' : Bytes) (p : Place) (n : Nat) : Prop where
  own : ∀ q m, Own d b' ind' q m → Own d b ind q m ∨ q = p ∧ m = n
  grow : ∀ q m, Own d b ind q m → Own d b' ind' q m
  self : Own d b' ind' p n
  header : ∀ i < 268, b' i = b i
  noIndirect : fileIndirect b' = 0 → ind' = Bytes.zero

/-- A word after a write to a word that is the same or apart. -/
theorem getLE_setLE_word (b : Bytes) (off off' : Nat) (hn : n < 2 ^ 32)
    (h : off' = off ∨ off' + 4 ≤ off ∨ off + 4 ≤ off') :
    (b.setLE 4 off n).getLE 4 off' = if off' = off then n else b.getLE 4 off' := by
  split
  · rename_i heq
    rw [heq, Bytes.getLE_setLE_self]
    exact Nat.mod_eq_of_lt (by simpa using hn)
  · rename_i hne
    exact Bytes.getLE_setLE_of_apart (h.resolve_left hne)

section
variable {b ind : Bytes} {i n : Nat}

/-- A new direct pointer is the only place that changes. -/
theorem Points.direct (hi : i < DZFS_DIRECT_BLOCKS) (hz : fileDirect b i = 0) (hn : n ≠ 0)
    (hn32 : n < 2 ^ 32) (hind : fileIndirect b = 0 → ind = Bytes.zero) :
    Points d b ind (b.setLE 4 (directOffset i) n) ind (.direct d i) n := by
  have hdirect : ∀ j, fileDirect (b.setLE 4 (directOffset i) n) j
      = if j = i then n else fileDirect b j := by
    intro j
    have hword := getLE_setLE_word b (directOffset i) (directOffset j) hn32
      (by simp only [directOffset]; omega)
    have hiff : directOffset j = directOffset i ↔ j = i := by
      simp only [directOffset]
      omega
    simpa only [fileDirect, hiff] using hword
  have hindirect : fileIndirect (b.setLE 4 (directOffset i) n) = fileIndirect b :=
    Bytes.getLE_setLE_of_apart (by simp only [directOffset, INDIRECT_OFFSET]; omega)
  refine ⟨fun q m hq => ?_, fun q m hq => ?_, ⟨rfl, hi, by rw [hdirect, if_pos rfl], hn⟩,
    fun k hk => Bytes.setLE_of_apart (by simp only [directOffset]; omega),
    fun h0 => hind (hindirect ▸ h0)⟩
  · cases q with
    | dnode e => exact Or.inl hq
    | direct e j =>
      obtain ⟨rfl, hj, hm, hnz⟩ := hq
      rw [hdirect] at hm
      split at hm
      · rename_i hji
        exact Or.inr ⟨by rw [hji], hm⟩
      · exact Or.inl ⟨rfl, hj, hm, hnz⟩
    | indirect e => exact Or.inl (by simpa only [Own, hindirect] using hq)
    | entry e j => exact Or.inl (by simpa only [Own, hindirect] using hq)
  · cases q with
    | dnode e => exact hq
    | direct e j =>
      obtain ⟨rfl, hj, hm, hnz⟩ := hq
      have hji : j ≠ i := by
        rintro rfl
        exact hnz (hm.trans hz)
      exact ⟨rfl, hj, by rw [hdirect, if_neg hji, hm], hnz⟩
    | indirect e => simpa only [Own, hindirect] using hq
    | entry e j => simpa only [Own, hindirect] using hq

/-- A new indirect block is the only place that changes. -/
theorem Points.indirect (hz : fileIndirect b = 0) (hn : n ≠ 0) (hn32 : n < 2 ^ 32)
    (hind : ind = Bytes.zero) :
    Points d b ind (b.setLE 4 INDIRECT_OFFSET n) ind (.indirect d) n := by
  have hdirect : ∀ j, fileDirect (b.setLE 4 INDIRECT_OFFSET n) j = fileDirect b j := fun j =>
    Bytes.getLE_setLE_of_apart (by simp only [directOffset, INDIRECT_OFFSET]; omega)
  have hindirect : fileIndirect (b.setLE 4 INDIRECT_OFFSET n) = n := by
    simpa [fileIndirect] using Nat.mod_eq_of_lt hn32
  -- The new indirect block has no entries yet.
  have hentry : ∀ j, indirectEntry ind j = 0 := fun j => by simp [hind, indirectEntry]
  refine ⟨fun q m hq => ?_, fun q m hq => ?_, ⟨rfl, hindirect.symm, hn⟩,
    fun k hk => Bytes.setLE_of_apart (by simp only [INDIRECT_OFFSET]; omega), fun _ => hind⟩
  · cases q with
    | dnode e => exact Or.inl hq
    | direct e j => exact Or.inl (by simpa only [Own, hdirect] using hq)
    | indirect e =>
      obtain ⟨rfl, hm, -⟩ := hq
      exact Or.inr ⟨rfl, hm.trans hindirect⟩
    | entry e j =>
      obtain ⟨-, -, -, hm, hnz⟩ := hq
      exact absurd (hm.trans (hentry j)) hnz
  · cases q with
    | dnode e => exact hq
    | direct e j => simpa only [Own, hdirect] using hq
    | indirect e =>
      obtain ⟨-, hm, hnz⟩ := hq
      exact absurd (hm.trans hz) hnz
    | entry e j =>
      obtain ⟨-, hne, -⟩ := hq
      exact absurd hz hne

/-- A new entry of the indirect block is the only place that changes. -/
theorem Points.entry (hi : i < DZFS_INDIRECT_BLOCK_COUNT) (hne : fileIndirect b ≠ 0)
    (hz : indirectEntry ind i = 0) (hn : n ≠ 0) (hn32 : n < 2 ^ 32) :
    Points d b ind b (ind.setLE 4 (4 * i) n) (.entry d i) n := by
  have hentry : ∀ j, indirectEntry (ind.setLE 4 (4 * i) n) j
      = if j = i then n else indirectEntry ind j := by
    intro j
    have hword := getLE_setLE_word ind (4 * i) (4 * j) hn32 (by omega)
    have hiff : 4 * j = 4 * i ↔ j = i := by omega
    simpa only [indirectEntry, hiff] using hword
  refine ⟨fun q m hq => ?_, fun q m hq => ?_, ⟨rfl, hne, hi, by rw [hentry, if_pos rfl], hn⟩,
    fun _ _ => rfl, fun h0 => absurd h0 hne⟩
  · cases q with
    | dnode e => exact Or.inl hq
    | direct e j => exact Or.inl hq
    | indirect e => exact Or.inl hq
    | entry e j =>
      obtain ⟨rfl, hne, hj, hm, hnz⟩ := hq
      rw [hentry] at hm
      split at hm
      · rename_i hji
        exact Or.inr ⟨by rw [hji], hm⟩
      · exact Or.inl ⟨rfl, hne, hj, hm, hnz⟩
  · cases q with
    | dnode e => exact hq
    | direct e j => exact hq
    | indirect e => exact hq
    | entry e j =>
      obtain ⟨rfl, hne, hj, hm, hnz⟩ := hq
      have hji : j ≠ i := by
        rintro rfl
        exact hnz (hm.trans hz)
      exact ⟨rfl, hne, hj, by rw [hentry, if_neg hji, hm], hnz⟩

end

/-! ### One turn -/

/-- A block that is in use at the start keeps its place in the file area. -/
theorem Core.held_root_le (h : Core fs₀ E ls) (hp : Holds fs₀.disk E p n) :
    fs₀.freeBitmapBlocks + 2 ≤ n := by
  rw [← h.root_eq]
  exact (h.blocks.used p n hp).1

/-- An allocation, and the pointer at the place `p` that takes the block. -/
theorem Writing.point (hinv : Core fs₀ E ls) (h : Writing fs₀ E d st) (hn : n < Fs.covered st.fs)
    (hfree : bit st.fs n = true) (honly : BitsOnly st.fs fs')
    (hbits : ∀ m, bit fs' m = (bit st.fs m && decide (m ≠ n)))
    (hp : Points d st.dnodeBlock st.indirectBlock b' ind' p n) :
    Writing fs₀ E d { st with fs := fs', dnodeBlock := b', indirectBlock := ind' } := by
  have hn₀ : bit fs₀ n = true := by
    by_contra hbit
    rw [h.bits n (h.covered ▸ hn) (by simpa using hbit)] at hfree
    cases hfree
  have hroot : fs₀.rootDnode ≤ n := by
    by_contra hlt
    rw [hinv.low n (by omega)] at hn₀
    cases hn₀
  have hfresh : ∀ q, ¬ WHolds fs₀.disk E d st.dnodeBlock st.indirectBlock q n := by
    intro q hq
    rw [(h.owns.used q n hq).2.2] at hfree
    cases hfree
  refine ⟨honly.freeBitmapBlocks.trans h.freeBitmapBlocks, honly.rootDnode.trans h.rootDnode,
    fun m hm hbit => ?_, hp.noIndirect, fun i hi => (hp.header i hi).trans (h.header i hi), ?_,
    fun m hm hfree hused => ?_, fun q m hq => ?_,
    fun q m hq hm => hp.grow q m (h.grows q m hq hm), fun q m hq hm => ?_, ?_⟩
  · simp [hbits m, h.bits m hm hbit]
  · refine h.owns.take p n (fun q m hq => ?_) hfresh (fun m hu => ?_) ?_
    · rcases hq with hq | hq
      · exact Or.inl (Or.inl hq)
      · rcases hp.own q m hq with hq | hq
        · exact Or.inl (Or.inr hq)
        · exact Or.inr hq
    · refine ⟨honly.rootDnode ▸ hu.1, honly.covered ▸ hu.2.1, ?_⟩
      simp [hbits m, hu.2.2]
    · refine ⟨?_, honly.covered ▸ hn, by simp [hbits n]⟩
      rw [honly.rootDnode, h.rootDnode]
      exact hroot
  · by_cases hmn : m = n
    · rw [hmn]
      exact ⟨p, hp.self⟩
    · have hbit : bit st.fs m = false := by simpa [hbits m, hmn] using hused
      obtain ⟨q, hq⟩ := h.tight m hm hfree hbit
      exact ⟨q, hp.grow q m hq⟩
  · rcases hp.own q m hq with hq | ⟨-, rfl⟩
    · exact h.old q m hq
    · exact Or.inr hn₀
  · have hle := hinv.held_root_le hq
    rw [← h.freeBitmapBlocks] at hle
    exact (honly.disk m (Or.inr hle)).trans (h.kept q m hq hm)
  · exact (honly.disk 0 (Or.inl (by decide))).trans h.boot

/-- From `st` to `st'` the loop may have allocated blocks for places with `P`, and nothing
else. -/
structure Grown (d : Nat) (P : Place → Prop) (st st' : WriteState) : Prop where
  only : BitsOnly st.fs st'.fs
  new : ∀ q m, Own d st'.dnodeBlock st'.indirectBlock q m →
    Own d st.dnodeBlock st.indirectBlock q m ∨ P q
  own : ∀ q m, Own d st.dnodeBlock st.indirectBlock q m →
    Own d st'.dnodeBlock st'.indirectBlock q m
  dataBlock : st'.dataBlock = st.dataBlock
  data : st'.data = st.data
  offset : st'.offset = st.offset

theorem Grown.refl (d : Nat) (P : Place → Prop) (st : WriteState) : Grown d P st st :=
  ⟨BitsOnly.refl _, fun _ _ hq => Or.inl hq, fun _ _ hq => hq, rfl, rfl, rfl⟩

theorem Grown.trans {st'' : WriteState} (h : Grown d P st st') (h' : Grown d P st' st'') :
    Grown d P st st'' where
  only := h.only.trans h'.only
  new q m hq := (h'.new q m hq).elim (h.new q m) Or.inr
  own q m hq := h'.own q m (h.own q m hq)
  dataBlock := h'.dataBlock.trans h.dataBlock
  data := h'.data.trans h.data
  offset := h'.offset.trans h.offset

/-- `getOrAllocateBlock` for the pointer at the place `p`, which is in the block `b`. The
function `put` puts that block back among the two blocks in memory. -/
theorem Writing.getOrAllocate (hinv : Core fs₀ E ls) (h : Writing fs₀ E d st) (b : Bytes)
    (off : Nat) (p : Place) (put : Bytes → Bytes × Bytes)
    (hput : put b = (st.dnodeBlock, st.indirectBlock))
    (hold : b.getLE 4 off ≠ 0 → Own d st.dnodeBlock st.indirectBlock p (b.getLE 4 off))
    (hset : b.getLE 4 off = 0 → ∀ n, n ≠ 0 → n < 2 ^ 32 →
      Points d st.dnodeBlock st.indirectBlock (put (b.setLE 4 off n)).1
        (put (b.setLE 4 off n)).2 p n) (hget : getOrAllocateBlock st.fs b off = (n, fs', b'))
    (hst : st' = { st with fs := fs', dnodeBlock := (put b').1, indirectBlock := (put b').2 })
    (hP : P p) :
    Writing fs₀ E d st' ∧ Grown d P st st' ∧
      (n ≠ 0 → Own d st'.dnodeBlock st'.indirectBlock p n) := by
  have hsame : { st with dnodeBlock := (put b).1, indirectBlock := (put b).2 } = st := by
    rw [hput]
  unfold getOrAllocateBlock at hget
  by_cases hz : b.getLE 4 off = 0
  · rw [if_pos hz] at hget
    rcases blockAlloc_spec st.fs with hfull | ⟨k, fs'', halloc, hk, hlt, hfree, honly, hbits⟩
    · rw [hfull] at hget
      obtain ⟨rfl, rfl, rfl⟩ := hget
      rw [hst, hsame]
      exact ⟨h, Grown.refl d P st, fun hne => absurd rfl hne⟩
    · obtain ⟨k, rfl⟩ := Nat.exists_eq_succ_of_ne_zero hk
      rw [halloc] at hget
      obtain ⟨rfl, rfl, rfl⟩ := hget
      have hword : k + 1 < 2 ^ 32 := by
        have hle := hinv.covered_le
        rw [h.covered] at hlt
        omega
      have hp := hset hz (k + 1) hk hword
      rw [hst]
      refine ⟨h.point hinv hlt hfree honly hbits hp,
        ⟨honly, fun q m hq => ?_, hp.grow, rfl, rfl, rfl⟩, fun _ => hp.self⟩
      rcases hp.own q m hq with hq | ⟨rfl, -⟩
      · exact Or.inl hq
      · exact Or.inr hP
  · rw [if_neg hz] at hget
    obtain ⟨rfl, rfl, rfl⟩ := hget
    rw [hst, hsame]
    exact ⟨h, Grown.refl d P st, fun hne => hold hne⟩

/-- The place of the pointer to the content block `index`. -/
def contentPlace (d index : Nat) : Place :=
  if index ≥ DZFS_DIRECT_BLOCKS then .entry d (index - DZFS_DIRECT_BLOCKS) else .direct d index

/-- `contentBlock` allocates, and the block that it returns is the content block of the
offset. -/
theorem Writing.contentBlock (hinv : Core fs₀ E ls) (h : Writing fs₀ E d st)
    (hoff : st.offset < DZFS_MAX_FILESIZE) (hc : DzOS.Fs.contentBlock st = (n, st')) :
    Writing fs₀ E d st' ∧
      Grown d (fun q => q = .indirect d ∨ q = contentPlace d (st.offset / DZFS_BLOCK_SIZE)) st st' ∧
      (n ≠ 0 → Own d st'.dnodeBlock st'.indirectBlock
        (contentPlace d (st.offset / DZFS_BLOCK_SIZE)) n) := by
  have hidx : st.offset / DZFS_BLOCK_SIZE < 1024 + DZFS_DIRECT_BLOCKS :=
    Nat.div_lt_of_lt_mul hoff
  unfold DzOS.Fs.contentBlock at hc
  simp only at hc
  by_cases hge : st.offset / DZFS_BLOCK_SIZE ≥ DZFS_DIRECT_BLOCKS
  · rw [if_pos hge] at hc
    rw [contentPlace, if_pos hge]
    -- First the indirect block, then the entry in it.
    rcases hind : getOrAllocateBlock st.fs st.dnodeBlock INDIRECT_OFFSET with ⟨k, fs', b'⟩
    obtain ⟨hw, hg, hown⟩ := h.getOrAllocate (P := fun q => q = .indirect d ∨
        q = .entry d (st.offset / DZFS_BLOCK_SIZE - DZFS_DIRECT_BLOCKS)) hinv _ INDIRECT_OFFSET
      (.indirect d) (fun b => (b, st.indirectBlock)) rfl (fun hne => ⟨rfl, rfl, hne⟩)
      (fun hz n hn hn32 => Points.indirect hz hn hn32 (h.noIndirect hz)) hind rfl (Or.inl rfl)
    rw [hind] at hc
    simp only at hc
    by_cases hk : k = 0
    · rw [if_pos hk] at hc
      obtain ⟨rfl, rfl⟩ := hc
      exact ⟨hw, hg, fun hne => absurd rfl hne⟩
    · rw [if_neg hk] at hc
      have hne : fileIndirect b' ≠ 0 := (hown hk).2.1 ▸ hk
      have hi : st.offset / DZFS_BLOCK_SIZE - DZFS_DIRECT_BLOCKS < DZFS_INDIRECT_BLOCK_COUNT := by
        simp only [DZFS_INDIRECT_BLOCK_COUNT]
        omega
      generalize st.offset / DZFS_BLOCK_SIZE - DZFS_DIRECT_BLOCKS = i at hi hc hg ⊢
      rcases hent : getOrAllocateBlock fs' st.indirectBlock (4 * i) with ⟨m, fs'', ind'⟩
      obtain ⟨hw', hg', hown'⟩ := hw.getOrAllocate
        (P := fun q => q = .indirect d ∨ q = .entry d i) hinv st.indirectBlock _ (.entry d i)
        (fun ind => (b', ind)) rfl (fun hnz => ⟨rfl, hne, hi, rfl, hnz⟩)
        (fun hz n hn hn32 => Points.entry hi hne hz hn hn32) hent rfl (Or.inr rfl)
      rw [hent] at hc
      obtain ⟨rfl, rfl⟩ := hc
      exact ⟨hw', hg.trans hg', hown'⟩
  · rw [if_neg hge] at hc
    rw [contentPlace, if_neg hge]
    rcases hdir : getOrAllocateBlock st.fs st.dnodeBlock
      (directOffset (st.offset / DZFS_BLOCK_SIZE)) with ⟨k, fs', b'⟩
    have hi : st.offset / DZFS_BLOCK_SIZE < DZFS_DIRECT_BLOCKS := by omega
    have hspec := h.getOrAllocate (P := fun q => q = .indirect d ∨
        q = .direct d (st.offset / DZFS_BLOCK_SIZE)) hinv _ _ (.direct d _)
      (fun b => (b, st.indirectBlock)) rfl (fun hne => ⟨rfl, hi, rfl, hne⟩)
      (fun hz n hn hn32 => Points.direct hi hz hn hn32 h.noIndirect) hdir rfl (Or.inr rfl)
    rw [hdir] at hc
    obtain ⟨rfl, rfl⟩ := hc
    exact hspec

/-- The place of a content block is neither a dnode nor an indirect block. -/
theorem contentPlace_ne (d index : Nat) :
    (∀ e, contentPlace d index ≠ .dnode e) ∧ ∀ e, contentPlace d index ≠ .indirect e := by
  unfold contentPlace
  split <;> simp

section

variable {index : Nat} (hinv : Core fs₀ E ls) (h : Writing fs₀ E d st)
  (hown : Own d st.dnodeBlock st.indirectBlock (contentPlace d index) n)

include hinv h hown

/-- A content block of the file is no block that the disk has to keep. -/
theorem Writing.content_ne (hp : Holds fs₀.disk E p m)
    (hcase : p.entity ≠ d ∨ p = .dnode d ∨ p = .indirect d) : m ≠ n := by
  rintro rfl
  rcases h.old _ _ hown with hold | hfree
  · obtain rfl := hinv.blocks.inj _ _ _ hp hold
    rcases hcase with hne | heq | heq
    · exact hne hown.entity
    · exact (contentPlace_ne d index).1 d heq
    · exact (contentPlace_ne d index).2 d heq
  · rw [(hinv.blocks.used p m hp).2.2] at hfree
    cases hfree

/-- The copy of a turn writes to a content block of the file. -/
theorem Writing.copyToBlock : Writing fs₀ E d (copyToBlock st n) := by
  have hused := h.owns.used _ n (Or.inr hown)
  have hroot : st.fs.freeBitmapBlocks + 2 ≤ n := by
    rw [h.freeBitmapBlocks, ← hinv.root_eq, ← h.rootDnode]
    exact hused.1
  have hbits : ∀ (b : Bytes) (k : Nat), k < Fs.covered fs₀ →
      bit (st.fs.writeBlock n b) k = bit st.fs k := fun b k hk =>
    bit_writeBlock hroot b (h.covered ▸ hk)
  refine ⟨h.freeBitmapBlocks, h.rootDnode, fun m hm hbit => ?_, h.noIndirect, h.header, ?_,
    fun m hm hfree hused => ?_, h.old, h.grows, fun p m hp hcase => ?_, ?_⟩
  · exact (hbits _ m hm).trans (h.bits m hm hbit)
  · refine h.owns.sub (fun _ _ hq => hq) fun _ m _ hu => ⟨hu.1, hu.2.1, ?_⟩
    exact (hbits _ m (h.covered ▸ hu.2.1)).trans hu.2.2
  · exact h.tight m hm hfree ((hbits _ m hm).symm.trans hused)
  · have hne := h.content_ne hinv hown hp hcase
    exact (Function.update_of_ne hne _ _).trans (h.kept p m hp hcase)
  · have hne : 0 ≠ n := by omega
    exact (Function.update_of_ne hne _ _).trans h.boot

end

theorem copyToBlock_end (st : WriteState) (n : Nat) :
    (copyToBlock st n).offset + (copyToBlock st n).data.length
      = st.offset + st.data.length := by
  simp only [copyToBlock, List.length_drop]
  omega

/-! ### Whole runs of the loop -/

/-- The loop keeps its invariant. It ends well or with a full disk. -/
theorem writeLoop_writing (hinv : Core fs₀ E ls) (fuel : Nat) (h : Writing fs₀ E d st)
    (hoff : st.offset + st.data.length ≤ DZFS_MAX_FILESIZE) (hloop : writeLoop fuel st = (r, st')) :
    Writing fs₀ E d st' ∧ (r = .OK ∨ r = .ERR_FULL) := by
  induction fuel generalizing st with
  | zero =>
    obtain ⟨rfl, rfl⟩ := hloop
    exact ⟨h, Or.inl rfl⟩
  | succ fuel ih =>
    unfold writeLoop at hloop
    by_cases hdata : st.data = []
    · rw [if_pos hdata] at hloop
      obtain ⟨rfl, rfl⟩ := hloop
      exact ⟨h, Or.inl rfl⟩
    · rw [if_neg hdata] at hloop
      have hpos : 0 < st.data.length := List.length_pos_of_ne_nil hdata
      rcases hc : contentBlock st with ⟨n, st₁⟩
      obtain ⟨hw, hg, hown⟩ := h.contentBlock hinv (by omega) hc
      rw [hc] at hloop
      simp only at hloop
      by_cases hn : n = 0
      · rw [if_pos hn] at hloop
        obtain ⟨rfl, rfl⟩ := hloop
        exact ⟨hw, Or.inr rfl⟩
      · rw [if_neg hn] at hloop
        refine ih (hw.copyToBlock hinv (hown hn)) ?_ hloop
        rw [copyToBlock_end, hg.offset, hg.data]
        exact hoff

/-- The loop stops at a full disk. The disk keeps what it has. -/
theorem Writing.stopped (hinv : Core fs₀ E ls) (h : Writing fs₀ E d st) : Core st.fs E ls :=
  hinv.congr h.freeBitmapBlocks h.rootDnode
    (fun e he => SameLinks.of_eq (h.kept (.dnode e) e ⟨he, rfl⟩ (by
      by_cases hed : e = d
      · exact Or.inr (Or.inl (by rw [hed]))
      · exact Or.inl hed)))
    (fun e he hfile hne => h.kept (.indirect e) _ ⟨he, hfile, rfl, hne⟩ (by
      by_cases hed : e = d
      · exact Or.inr (Or.inr (by rw [hed]))
      · exact Or.inl hed))
    h.bits

/-! ### The end of a write -/

section
variable (st d) (size : Nat)

/-- The dnode that `finishWrite` writes. -/
def finalDnode : Bytes :=
  st.dnodeBlock.setLE 4 SIZE_OFFSET ((fileSize st.dnodeBlock + size) % 2 ^ 32)

theorem finalDnode_links : SameLinks st.dnodeBlock (finalDnode st size) :=
  ⟨Bytes.setLE_of_apart (Or.inl (by decide)),
    fun _ hi => Bytes.setLE_of_apart (Or.inr hi)⟩

theorem finishWrite_disk_self : (finishWrite st d size).disk d = finalDnode st size :=
  Function.update_self _ _ _

theorem finishWrite_disk_indirect (hne : fileIndirect st.dnodeBlock ≠ 0)
    (hd : fileIndirect st.dnodeBlock ≠ d) :
    (finishWrite st d size).disk (fileIndirect st.dnodeBlock) = st.indirectBlock := by
  unfold finishWrite
  rw [if_pos hne]
  exact (Function.update_of_ne hd _ _).trans (Function.update_self _ _ _)

theorem finishWrite_disk_other (hd : m ≠ d)
    (hind : fileIndirect st.dnodeBlock ≠ 0 → m ≠ fileIndirect st.dnodeBlock) :
    (finishWrite st d size).disk m = st.fs.disk m := by
  unfold finishWrite
  by_cases hne : fileIndirect st.dnodeBlock ≠ 0
  · rw [if_pos hne]
    exact (Function.update_of_ne hd _ _).trans (Function.update_of_ne (hind hne) _ _)
  · rw [if_neg hne]
    exact Function.update_of_ne hd _ _

theorem finishWrite_freeBitmapBlocks :
    (finishWrite st d size).freeBitmapBlocks = st.fs.freeBitmapBlocks := by
  unfold finishWrite
  split <;> rfl

theorem finishWrite_rootDnode : (finishWrite st d size).rootDnode = st.fs.rootDnode := by
  unfold finishWrite
  split <;> rfl

end

/-- The indirect block is not the dnode. -/
theorem Writing.indirect_ne (h : Writing fs₀ E d st) (hne : fileIndirect st.dnodeBlock ≠ 0) :
    fileIndirect st.dnodeBlock ≠ d := by
  intro heq
  have hinj := h.owns.inj (.indirect d) (.dnode d) _ (Or.inr ⟨rfl, rfl, hne⟩)
    (Or.inr ⟨rfl, heq⟩)
  cases hinj

/-- The end of the write touches the dnode and the indirect block of the file, and no block
that another place holds. -/
theorem Writing.finish_disk (h : Writing fs₀ E d st) (size : Nat)
    (hp : WHolds fs₀.disk E d st.dnodeBlock st.indirectBlock p n) (hd : p ≠ .dnode d)
    (hind : p ≠ .indirect d) : (finishWrite st d size).disk n = st.fs.disk n := by
  refine finishWrite_disk_other d st size ?_ fun hne => ?_
  · rintro rfl
    exact hd (h.owns.inj _ _ _ hp (Or.inr ⟨rfl, rfl⟩))
  · rintro rfl
    exact hind (h.owns.inj _ _ _ hp (Or.inr ⟨rfl, rfl, hne⟩))

/-- The blocks of the other entities are those of the start. -/
theorem Writing.finish_kept (h : Writing fs₀ E d st) (size : Nat) (hp : Holds fs₀.disk E p n)
    (hent : p.entity ≠ d) : (finishWrite st d size).disk n = fs₀.disk n := by
  have hne : ∀ q : Place, q.entity = d → p ≠ q := by
    rintro q hq rfl
    exact hent hq
  exact (h.finish_disk size (Or.inl ⟨hent, hp⟩) (hne _ rfl) (hne _ rfl)).trans
    (h.kept p n hp (Or.inl hent))

theorem Writing.finish_bit (hinv : Core fs₀ E ls) (h : Writing fs₀ E d st) (size : Nat)
    {k : Nat} (hk : k < Fs.covered fs₀) : bit (finishWrite st d size) k = bit st.fs k := by
  have hroot : ∀ p n, WHolds fs₀.disk E d st.dnodeBlock st.indirectBlock p n →
      st.fs.freeBitmapBlocks + 2 ≤ n := by
    intro p n hp
    rw [h.freeBitmapBlocks, ← hinv.root_eq, ← h.rootDnode]
    exact (h.owns.used p n hp).1
  rw [← h.covered] at hk
  have hlt := (bitmapBlock_lt hk).2
  have hdroot := hroot (.dnode d) d (Or.inr ⟨rfl, rfl⟩)
  simp only [bit]
  rw [finishWrite_disk_other d st size (by omega) fun hne => ?_]
  have hindroot := hroot (.indirect d) _ (Or.inr ⟨rfl, rfl, hne⟩)
  omega

/-- The pointers on the disk at the end are those in memory. -/
theorem Writing.finish_holds (hd : d ∈ E) (hfile : entityType (fs₀.disk d) = DZFS_ENTITY_FILE)
    (h : Writing fs₀ E d st) (size : Nat) (p : Place) (n : Nat) :
    Holds (finishWrite st d size).disk E p n ↔
      WHolds fs₀.disk E d st.dnodeBlock st.indirectBlock p n := by
  have hlinks := finalDnode_links st size
  have hself := finishWrite_disk_self d st size
  by_cases hent : p.entity = d
  · -- A place of the file itself.
    have hfile' : entityType ((finishWrite st d size).disk d) = DZFS_ENTITY_FILE := by
      rw [hself, hlinks.type]
      exact (h.header 0 (by decide)).trans hfile
    have hind : fileIndirect st.dnodeBlock ≠ 0 →
        indirectOf (finishWrite st d size) d = st.indirectBlock := by
      intro hne
      rw [indirectOf_of_ne (by rwa [hself, hlinks.indirect]), hself, hlinks.indirect]
      exact finishWrite_disk_indirect d st size hne (h.indirect_ne hne)
    have hstart := own_start hd hfile' p n
    rw [hself, Own.congr hlinks hind] at hstart
    simp only [WHolds, hstart, hent, ne_eq, not_true_eq_false, false_and, false_or, true_and]
  · -- A place of another entity.
    have hkeep : p.entity ∈ E → (finishWrite st d size).disk p.entity = fs₀.disk p.entity :=
      fun he => h.finish_kept size (p := .dnode p.entity) ⟨he, rfl⟩ hent
    rw [Holds.congr_place p n (fun he => congrArg entityType (hkeep he))
      (fun he _ => SameLinks.of_eq (hkeep he))
      fun he hefile hne => h.finish_kept size (p := .indirect p.entity) ⟨he, hefile, rfl, hne⟩ hent]
    exact ⟨fun hp => Or.inl ⟨hent, hp⟩,
      fun hp => hp.elim And.right fun hown => absurd hown.entity hent⟩

/-- The write ends well. The file system is in its invariant again. -/
theorem Writing.finished (hinv : Core fs₀ E ls) (hd : d ∈ E)
    (hfile : entityType (fs₀.disk d) = DZFS_ENTITY_FILE) (h : Writing fs₀ E d st)
    (size : Nat) : Core (finishWrite st d size) E ls := by
  have hF : (finishWrite st d size).freeBitmapBlocks = fs₀.freeBitmapBlocks :=
    (finishWrite_freeBitmapBlocks d st size).trans h.freeBitmapBlocks
  have hR : (finishWrite st d size).rootDnode = fs₀.rootDnode :=
    (finishWrite_rootDnode d st size).trans h.rootDnode
  have hcov : Fs.covered (finishWrite st d size) = Fs.covered fs₀ := by
    simp only [Fs.covered, hF]
  have htype : ∀ e ∈ E, entityType ((finishWrite st d size).disk e) = entityType (fs₀.disk e) := by
    intro e he
    by_cases hed : e = d
    · subst hed
      rw [finishWrite_disk_self, (finalDnode_links st size).type]
      exact h.header 0 (by decide)
    · rw [h.finish_kept size (p := .dnode e) ⟨he, rfl⟩ hed]
  have hbit := fun k hk => h.finish_bit (k := k) hinv size hk
  refine ⟨by rw [hF, hR, hinv.root_eq], hF ▸ hinv.bitmap_le, hR ▸ hinv.root_mem, ?_,
    fun e he => ?_, fun n hn => ?_, ?_, fun f hf hfolder => ?_, fun f hf => ?_⟩
  · rw [hR, htype _ hinv.root_mem]
    exact hinv.root_folder
  · rw [htype e he]
    exact hinv.typed e he
  · rw [hR] at hn
    have hlt := lt_trans hn (hinv.mem_used hinv.root_mem).2.1
    exact (hbit n hlt).trans (h.bits n hlt (hinv.low n hn))
  · refine h.owns.sub (fun p n => (h.finish_holds hd hfile size p n).mp)
      fun p n _ hu => ⟨?_, ?_, ?_⟩
    · rw [hR, ← h.rootDnode]
      exact hu.1
    · rw [hcov, ← h.covered]
      exact hu.2.1
    · exact (hbit n (h.covered ▸ hu.2.1)).trans hu.2.2
  · rw [htype f hf] at hfolder
    have hfd : f ≠ d := by
      rintro rfl
      exact file_ne_folder hfile hfolder
    rw [h.finish_kept size (p := .dnode f) ⟨hf, rfl⟩ hfd]
    exact hinv.lists f hf hfolder
  · by_cases hmem : f ∈ E
    · rw [htype f hmem] at hf
      exact hinv.unlisted f hf
    · exact hinv.unlisted f (Or.inl hmem)

/-! ### `dzfsWrite` -/

section

variable (hinv : Core fs₀ E ls) (hd : d ∈ E) (hlt : data.length + offset < 2 ^ 64)

include hinv hd hlt

/-- The branches of `dzfsWrite`: it refuses, it stops at a full disk, or it ends well. -/
theorem dzfsWrite_cases (hw : dzfsWrite fs₀ d data offset = (r, fs')) :
    (fs' = fs₀ ∧ r ≠ .OK) ∨
      entityType (fs₀.disk d) = DZFS_ENTITY_FILE ∧ data.length + offset ≤ DZFS_MAX_FILESIZE ∧
        offset ≤ fileSize (fs₀.disk d) ∧ ∃ st, Writing fs₀ E d st ∧
          (r = .ERR_FULL ∧ fs' = st.fs ∨ r = .OK ∧ fs' = finishWrite st d data.length ∧
            writeLoop data.length
              ⟨fs₀, fs₀.readBlock d, indirectOf fs₀ d, Bytes.zero, data, offset⟩ = (.OK, st)) := by
  unfold dzfsWrite at hw
  simp only [Nat.mod_eq_of_lt hlt] at hw
  split at hw
  · obtain ⟨rfl, rfl⟩ := hw
    exact Or.inl ⟨rfl, by simp⟩
  · rename_i hfile
    rw [not_not] at hfile
    split at hw
    · obtain ⟨rfl, rfl⟩ := hw
      exact Or.inl ⟨rfl, by simp⟩
    · rename_i hmax
      split at hw
      · obtain ⟨rfl, rfl⟩ := hw
        exact Or.inl ⟨rfl, by simp⟩
      · rename_i hoff
        rcases hloop : writeLoop data.length
          ⟨fs₀, fs₀.readBlock d, indirectOf fs₀ d, Bytes.zero, data, offset⟩ with ⟨r', st⟩
        obtain ⟨hwriting, hr⟩ := writeLoop_writing hinv data.length
          (Writing.start hinv hd hfile Bytes.zero data offset) (by simp only; omega) hloop
        unfold indirectOf at hloop
        rw [hloop] at hw
        refine Or.inr ⟨hfile, by omega, by simpa [Dzfs.readBlock] using hoff, st, hwriting, ?_⟩
        rcases hr with rfl | rfl
        · obtain ⟨rfl, rfl⟩ := hw
          exact Or.inr ⟨rfl, rfl, rfl⟩
        · obtain ⟨rfl, rfl⟩ := hw
          exact Or.inl ⟨rfl, rfl⟩

/-- A write changes no dnode but that of its file. -/
theorem dzfsWrite_other (he : e ∈ E) (hed : e ≠ d) :
    (dzfsWrite fs₀ d data offset).2.disk e = fs₀.disk e := by
  rcases hw : dzfsWrite fs₀ d data offset with ⟨r, fs'⟩
  rcases dzfsWrite_cases hinv hd hlt hw with
    ⟨rfl, -⟩ | ⟨-, -, -, st, hst, ⟨-, rfl⟩ | ⟨-, rfl, -⟩⟩
  · rfl
  · exact hst.kept (.dnode e) e ⟨he, rfl⟩ (Or.inl hed)
  · exact hst.finish_kept _ (p := .dnode e) ⟨he, rfl⟩ hed

/-- In the dnodes, a write changes nothing in front of the size. -/
theorem dzfsWrite_header (he : e ∈ E) {i : Nat} (hi : i < SIZE_OFFSET) :
    (dzfsWrite fs₀ d data offset).2.disk e i = fs₀.disk e i := by
  by_cases hed : e ≠ d
  · rw [dzfsWrite_other hinv hd hlt he hed]
  obtain rfl := not_not.mp hed
  rcases hw : dzfsWrite fs₀ e data offset with ⟨r, fs'⟩
  rcases dzfsWrite_cases hinv hd hlt hw with
    ⟨rfl, -⟩ | ⟨-, -, -, st, hst, ⟨-, rfl⟩ | ⟨-, rfl, -⟩⟩
  · rfl
  · exact congrFun (hst.kept (.dnode e) e ⟨he, rfl⟩ (Or.inr (Or.inl rfl))) i
  · rw [finishWrite_disk_self, finalDnode, Bytes.setLE_of_apart (Or.inl hi)]
    exact hst.header i (lt_of_lt_of_le hi (by decide))

/-- A write changes no dnode but that of its file, and no type. -/
theorem dzfsWrite_dnode (he : e ∈ E) :
    entityType ((dzfsWrite fs₀ d data offset).2.disk e) = entityType (fs₀.disk e) ∧
      (e ≠ d → (dzfsWrite fs₀ d data offset).2.disk e = fs₀.disk e) :=
  ⟨dzfsWrite_header hinv hd hlt he (by decide), dzfsWrite_other hinv hd hlt he⟩

end

/-- `dzfsWrite` keeps the invariant, whatever it returns. -/
theorem dzfsWrite_inv (hinv : Inv fs₀ E ls) (hd : d ∈ E) (hlt : data.length + offset < 2 ^ 64) :
    Inv (dzfsWrite fs₀ d data offset).2 E ls := by
  rcases hw : dzfsWrite fs₀ d data offset with ⟨r, fs'⟩
  rcases dzfsWrite_cases hinv.toCore hd hlt hw with
    ⟨rfl, -⟩ | ⟨hfile, -, -, st, hst, ⟨-, rfl⟩ | ⟨-, rfl, -⟩⟩
  · exact hinv
  · refine ⟨hst.stopped hinv.toCore, ?_⟩
    simp only [hst.rootDnode]
    exact hinv.listing
  · refine ⟨hst.finished hinv.toCore hd hfile _, ?_⟩
    simp only [finishWrite_rootDnode, hst.rootDnode]
    exact hinv.listing

end

end DzOS.Proofs.Fs
