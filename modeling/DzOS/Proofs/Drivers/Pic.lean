import DzOS.Drivers.Pic

/-!
# `DzOS.Proofs.Drivers.Pic`: how far the search for the IOAPIC reads

`EntryFrom madt p q` says that the chain from `p` on has an entry at `q`: an entry starts where
the one before it ends, its first two bytes are in the table, and its length is at least 2.
The first IOAPIC entry of the chain decides what the search does. The search takes it if it ends
inside the table (`findIoapicLoop_taken`), and then reads its 12 bytes, whatever its length says.
Otherwise the search ends without a result (`findIoapicLoop_none`).

So the search stays inside the table, and finds every whole entry, exactly when the length of that
entry puts its end inside the table just when its 12 bytes are (`parsedWithin_iff`).
-/

set_option autoImplicit false

namespace DzOS.Proofs.Drivers

open DzOS.Lib DzOS.Drivers

variable {scan : MadtScan}

/-- The length byte of the entry at `p`. -/
def entryLen (madt : Bytes) (p : Nat) : Nat := (madt (p + 1)).toNat

/-- The head of an entry that the chain can go on from. -/
def EntryHead (madt : Bytes) (p : Nat) : Prop :=
  p + 2 ≤ madtLength madt ∧ 2 ≤ entryLen madt p

/-- The chain from `p` on has an entry at `q`. -/
inductive EntryFrom (madt : Bytes) : Nat → Nat → Prop
  | here {p : Nat} (head : EntryHead madt p) : EntryFrom madt p p
  | next {p q : Nat} (head : EntryHead madt p) (rest : EntryFrom madt (p + entryLen madt p) q) :
      EntryFrom madt p q

/-- The entry at `q` is the first one of the chain from `p` on with `P`. -/
structure FirstEntry (madt : Bytes) (P : Nat → Prop) (p q : Nat) : Prop where
  entry : EntryFrom madt p q
  prop : P q
  first : ∀ r, EntryFrom madt p r → r < q → ¬ P r

/-- The type byte says IOAPIC. -/
def IsIoapic (madt : Bytes) (p : Nat) : Prop := madt p = 1

/-- An IOAPIC entry with all its 12 bytes in the table. -/
def WholeIoapic (madt : Bytes) (p : Nat) : Prop :=
  IsIoapic madt p ∧ p + 12 ≤ madtLength madt

/-- The search ends, stays inside the table, and stores the first whole IOAPIC entry. -/
def ParsedWithin (madt : Bytes) : Prop :=
  ∃ scan, (∀ fuel > madtLength madt, findIoapicFromMadt (some madt) fuel = some scan) ∧
    (∀ off ∈ scan.reads, off < madtLength madt) ∧
    ∀ p, FirstEntry madt (WholeIoapic madt) MADT_ENTRIES p →
      scan.ioapic = some (ioapicEntry madt p)

variable {madt : Bytes} {p q fuel : Nat} {reads : List Nat}

/-! ### The chain -/

theorem EntryFrom.le (h : EntryFrom madt p q) : p ≤ q := by
  induction h with
  | here => exact Nat.le_refl _
  | next _ _ ih => omega

/-- The chain starts with an entry, or it has none. -/
theorem EntryFrom.start (h : EntryFrom madt p q) : EntryHead madt p := by
  cases h with
  | here head => exact head
  | next head => exact head

/-- There is one first entry. -/
theorem FirstEntry.unique {P : Nat → Prop} {q' : Nat} (h : FirstEntry madt P p q)
    (h' : FirstEntry madt P p q') : q = q' := by
  rcases Nat.lt_trichotomy q q' with hlt | heq | hlt
  · exact absurd h.prop (h'.first q h.entry hlt)
  · exact heq
  · exact absurd h'.prop (h.first q' h'.entry hlt)

/-- The first entry behind an entry that has not `P`. -/
theorem FirstEntry.tail {P : Nat → Prop} (head : EntryHead madt p) (hp : ¬ P p)
    (h : FirstEntry madt P (p + entryLen madt p) q) : FirstEntry madt P p q := by
  refine ⟨.next head h.entry, h.prop, fun r hr hlt => ?_⟩
  cases hr with
  | here => exact hp
  | next _ rest => exact h.first r rest hlt

/-- A whole entry that is the first whole one is the first one: an entry before it is whole too. -/
theorem FirstEntry.ioapic (h : FirstEntry madt (WholeIoapic madt) p q) :
    FirstEntry madt (IsIoapic madt) p q := by
  refine ⟨h.entry, h.prop.1, fun r hr hlt hio => h.first r hr hlt ⟨hio, ?_⟩⟩
  have := h.prop.2
  omega

/-! ### The loop -/

theorem forall_mem_append_field {L off len : Nat} (hreads : ∀ r ∈ reads, r < L)
    (h : off + len ≤ L) : ∀ r ∈ reads ++ field off len, r < L := by
  intro r hr
  rcases List.mem_append.mp hr with hr | hr
  · exact hreads r hr
  · have := List.mem_range'_1.mp hr
    omega

/-- More fuel does not change a result. -/
theorem findIoapicLoop_mono {fuel' : Nat} (hle : fuel ≤ fuel')
    (h : findIoapicLoop madt (madtLength madt) fuel p reads = some scan) :
    findIoapicLoop madt (madtLength madt) fuel' p reads = some scan := by
  induction fuel generalizing fuel' p reads with
  | zero => cases h
  | succ fuel ih =>
    obtain ⟨fuel', rfl⟩ : ∃ k, fuel' = k + 1 := ⟨fuel' - 1, by omega⟩
    simp only [findIoapicLoop] at h ⊢
    split at h
    · rename_i hin
      rw [if_pos hin]
      split at h
      · rename_i hlen
        rw [if_pos hlen]
        exact h
      · rename_i hlen
        rw [if_neg hlen]
        split at h
        · rename_i htake
          rw [if_pos htake]
          exact h
        · rename_i htake
          rw [if_neg htake]
          exact ih (Nat.le_of_succ_le_succ hle) h
    · rename_i hin
      rw [if_neg hin]
      exact h

/-- The loop ends without a result if the first IOAPIC entry does not end in the table. -/
theorem findIoapicLoop_none (hfuel : madtLength madt ≤ p + fuel)
    (hnone : ∀ q, FirstEntry madt (IsIoapic madt) p q → madtLength madt < q + entryLen madt q)
    (hreads : ∀ off ∈ reads, off < madtLength madt) :
    ∃ reads', findIoapicLoop madt (madtLength madt) (fuel + 1) p reads = some ⟨none, reads'⟩ ∧
      ∀ off ∈ reads', off < madtLength madt := by
  induction fuel generalizing p reads with
  | zero =>
    have hin : ¬ p + 2 ≤ madtLength madt := by omega
    refine ⟨reads, ?_, hreads⟩
    simp only [findIoapicLoop, if_neg hin]
  | succ fuel ih =>
    rw [findIoapicLoop]
    dsimp only
    by_cases hin : p + 2 ≤ madtLength madt
    · have hreads' := forall_mem_append_field hreads hin
      rw [if_pos hin]
      by_cases hlen : (madt (p + 1)).toNat < 2
      · rw [if_pos hlen]
        exact ⟨_, rfl, hreads'⟩
      · have hlen' : 2 ≤ entryLen madt p := Nat.le_of_not_lt hlen
        -- An entry at `p` that the loop takes is the first IOAPIC entry, against `hnone`.
        have hskip : ¬ (madt p = 1 ∧ p + (madt (p + 1)).toNat ≤ madtLength madt) := by
          rintro ⟨hio, hend⟩
          have hfirst : FirstEntry madt (IsIoapic madt) p p :=
            ⟨.here ⟨hin, hlen'⟩, hio, fun r hr hlt => absurd hr.le (Nat.not_le_of_lt hlt)⟩
          exact Nat.not_le_of_lt (hnone p hfirst) hend
        rw [if_neg hlen, if_neg hskip]
        refine ih (by unfold entryLen at hlen'; omega) (fun q hq => ?_) hreads'
        -- Behind an IOAPIC entry that is cut there is no entry, and behind any other one the first
        -- IOAPIC entry is that of the rest.
        by_cases hio : IsIoapic madt p
        · have hstart := hq.entry.start.1
          have hend : ¬ p + entryLen madt p ≤ madtLength madt := fun hend => hskip ⟨hio, hend⟩
          unfold entryLen at hend
          omega
        · exact hnone q (hq.tail ⟨hin, hlen'⟩ hio)
    · rw [if_neg hin]
      exact ⟨reads, rfl, hreads⟩

/-- The loop takes the first IOAPIC entry if it ends in the table. It reads the 12 bytes of this
entry, and stays inside the table before. -/
theorem findIoapicLoop_taken (hfuel : madtLength madt ≤ p + fuel)
    (hq : FirstEntry madt (IsIoapic madt) p q) (hend : q + entryLen madt q ≤ madtLength madt)
    (hreads : ∀ off ∈ reads, off < madtLength madt) :
    ∃ reads', findIoapicLoop madt (madtLength madt) (fuel + 1) p reads =
        some ⟨some (ioapicEntry madt q), reads'⟩ ∧ q + 11 ∈ reads' ∧
      ∀ off ∈ reads', off < madtLength madt ∨ off < q + 12 := by
  obtain ⟨hentry, hio, hfirst⟩ := hq
  -- The induction is on the chain up to the entry: all entries before it are skipped.
  induction hentry generalizing fuel reads with
  | @here p head =>
    have hreads' := forall_mem_append_field hreads head.1
    have hlen : ¬ (madt (p + 1)).toNat < 2 := Nat.not_lt_of_le head.2
    refine ⟨reads ++ field p 2 ++ field (p + 4) 4 ++ field (p + 8) 4 ++ field (p + 2) 1, ?_, ?_, ?_⟩
    · simp only [findIoapicLoop, if_pos head.1, if_neg hlen]
      rw [if_pos ⟨hio, hend⟩]
    · simp [field, List.mem_range'_1]
    · intro off hoff
      simp only [List.mem_append, field, List.mem_range'_1] at hoff
      rcases hoff with (((hoff | hoff) | hoff) | hoff) | hoff
      · exact .inl (hreads off hoff)
      all_goals exact .inr (by omega)
  | @next p q head rest ih =>
    have hle := rest.le
    have hlen : ¬ (madt (p + 1)).toNat < 2 := Nat.not_lt_of_le head.2
    have hskip : ¬ IsIoapic madt p := by
      have h2 := head.2
      exact hfirst p (.here head) (by omega)
    have hstart := rest.start.1
    have h2 := head.2
    obtain ⟨fuel, rfl⟩ : ∃ k, fuel = k + 1 := ⟨fuel - 1, by omega⟩
    have hread : ∀ off ∈ reads ++ field p 2, off < madtLength madt :=
      forall_mem_append_field hreads head.1
    obtain ⟨reads', hrun, hin, hout⟩ :=
      ih (show madtLength madt ≤ p + entryLen madt p + fuel by omega) hend hread hio
      fun r hr => hfirst r (.next head hr)
    refine ⟨reads', ?_, hin, hout⟩
    rw [findIoapicLoop]
    dsimp only
    rw [if_pos head.1, if_neg hlen, if_neg fun h => hskip h.1]
    exact hrun

/-- The reads before the loop stay in the list. -/
theorem findIoapicLoop_reads {off : Nat}
    (h : findIoapicLoop madt (madtLength madt) fuel p reads = some scan) (hoff : off ∈ reads) :
    off ∈ scan.reads := by
  induction fuel generalizing p reads with
  | zero => cases h
  | succ fuel ih =>
    have happ : ∀ l, off ∈ reads ++ l := fun l => List.mem_append_left l hoff
    simp only [findIoapicLoop] at h
    split at h
    · split at h
      · cases h
        exact happ _
      · split at h
        · cases h
          simp only [List.append_assoc]
          exact happ _
        · exact ih h (happ _)
    · cases h
      exact hoff

/-! ### The whole search -/

/-- The search at some fuel, and so at every fuel above the length. -/
theorem findIoapicFromMadt_of_loop
    (h : findIoapicLoop madt (madtLength madt) (madtLength madt + 1) MADT_ENTRIES
      (field MADT_LENGTH 4) = some scan) :
    ∀ fuel > madtLength madt, findIoapicFromMadt (some madt) fuel = some scan :=
  fun _ hfuel => findIoapicLoop_mono hfuel h

theorem header_reads (hlen : 8 ≤ madtLength madt) :
    ∀ off ∈ field MADT_LENGTH 4, off < madtLength madt := by
  intro off hoff
  have := List.mem_range'_1.mp hoff
  unfold MADT_LENGTH at this
  omega

/-- The search with a first IOAPIC entry that ends in the table. -/
theorem findIoapicFromMadt_taken (hlen : 8 ≤ madtLength madt)
    (hq : FirstEntry madt (IsIoapic madt) MADT_ENTRIES q)
    (hend : q + entryLen madt q ≤ madtLength madt) :
    ∃ reads, (∀ fuel > madtLength madt,
        findIoapicFromMadt (some madt) fuel = some ⟨some (ioapicEntry madt q), reads⟩) ∧
      q + 11 ∈ reads ∧ ∀ off ∈ reads, off < madtLength madt ∨ off < q + 12 := by
  obtain ⟨reads, hrun, hreads⟩ :=
    findIoapicLoop_taken (Nat.le_add_left _ _) hq hend (header_reads hlen)
  exact ⟨reads, findIoapicFromMadt_of_loop hrun, hreads⟩

/-- The search without one. -/
theorem findIoapicFromMadt_none (hlen : 8 ≤ madtLength madt)
    (hnone : ∀ q, FirstEntry madt (IsIoapic madt) MADT_ENTRIES q →
      madtLength madt < q + entryLen madt q) :
    ∃ reads, (∀ fuel > madtLength madt,
        findIoapicFromMadt (some madt) fuel = some ⟨none, reads⟩) ∧
      ∀ off ∈ reads, off < madtLength madt := by
  obtain ⟨reads, hrun, hreads⟩ :=
    findIoapicLoop_none (Nat.le_add_left _ _) hnone (header_reads hlen)
  exact ⟨reads, findIoapicFromMadt_of_loop hrun, hreads⟩

/-- A search that stays inside the table has read its length there. -/
theorem ParsedWithin.length (h : ParsedWithin madt) : 8 ≤ madtLength madt := by
  obtain ⟨scan, hrun, hreads, -⟩ := h
  have hseven : (7 : Nat) ∈ field MADT_LENGTH 4 := by decide
  exact hreads 7 (findIoapicLoop_reads (hrun _ (Nat.lt_succ_self _)) hseven)

/-- The search is bounded and finds the first whole IOAPIC entry if and only if the table has its
own length field, and the first IOAPIC entry of the chain has a length that ends it inside the
table just when its 12 bytes are inside. -/
theorem parsedWithin_iff :
    ParsedWithin madt ↔ 8 ≤ madtLength madt ∧
      ∀ p, FirstEntry madt (IsIoapic madt) MADT_ENTRIES p →
        (p + entryLen madt p ≤ madtLength madt ↔ p + 12 ≤ madtLength madt) := by
  constructor
  · intro h
    have hlen := h.length
    obtain ⟨scan, hrun, hreads, hset⟩ := h
    refine ⟨hlen, fun p hp => ⟨fun hend => ?_, fun hwhole => ?_⟩⟩
    · obtain ⟨reads, htaken, hlast, -⟩ := findIoapicFromMadt_taken hlen hp hend
      have hsame := (hrun _ (Nat.lt_succ_self _)).symm.trans (htaken _ (Nat.lt_succ_self _))
      have hscan : scan.reads = reads := congrArg MadtScan.reads (Option.some.inj hsame)
      exact hreads (p + 11) (hscan ▸ hlast)
    · by_contra hend
      obtain ⟨reads, hnone, -⟩ := findIoapicFromMadt_none hlen
        fun q hq => hq.unique hp ▸ Nat.lt_of_not_le hend
      have hsame := (hrun _ (Nat.lt_succ_self _)).symm.trans (hnone _ (Nat.lt_succ_self _))
      have hscan : scan.ioapic = none := congrArg MadtScan.ioapic (Option.some.inj hsame)
      have hfirst : FirstEntry madt (WholeIoapic madt) MADT_ENTRIES p :=
        ⟨hp.entry, ⟨hp.prop, hwhole⟩, fun r hr hlt hr' => hp.first r hr hlt hr'.1⟩
      rw [hset p hfirst] at hscan
      cases hscan
  · rintro ⟨hlen, hbound⟩
    -- The search is decided by the first IOAPIC entry, if there is one that ends in the table.
    by_cases htaken : ∃ q, FirstEntry madt (IsIoapic madt) MADT_ENTRIES q ∧
        q + entryLen madt q ≤ madtLength madt
    · obtain ⟨q, hq, hend⟩ := htaken
      have hwhole := (hbound q hq).mp hend
      obtain ⟨reads, hrun, -, hreads⟩ := findIoapicFromMadt_taken hlen hq hend
      refine ⟨_, hrun, fun off hoff => ?_, fun p hp => ?_⟩
      · rcases hreads off hoff with hin | hin
        · exact hin
        · omega
      · rw [hp.ioapic.unique hq]
    · have hnone : ∀ q, FirstEntry madt (IsIoapic madt) MADT_ENTRIES q →
          madtLength madt < q + entryLen madt q :=
        fun q hq => Nat.lt_of_not_le fun hend => htaken ⟨q, hq, hend⟩
      obtain ⟨reads, hrun, hreads⟩ := findIoapicFromMadt_none hlen hnone
      refine ⟨_, hrun, hreads, fun p hp => ?_⟩
      have hend := (hbound p hp.ioapic).mpr hp.prop.2
      exact absurd hend (Nat.not_le_of_lt (hnone p hp.ioapic))

/-- A table of 46 bytes that ends with the two bytes of an IOAPIC entry. -/
def cutEntry : Bytes := fun i => if i = 4 then 46 else if i = 44 then 1 else if i = 45 then 2 else 0

/-- The search reads up to 10 bytes behind this table. -/
theorem not_parsedWithin_cutEntry : ¬ ParsedWithin cutEntry := by
  rintro ⟨scan, hrun, hreads, -⟩
  have hfound : findIoapicFromMadt (some cutEntry) 47 = some ⟨some ⟨0, 0⟩,
      [4, 5, 6, 7, 44, 45, 48, 49, 50, 51, 52, 53, 54, 55, 46]⟩ := by decide
  have hscan := Option.some.inj ((hrun 47 (by decide)).symm.trans hfound)
  have hbehind : 55 < madtLength cutEntry := hreads 55 (hscan ▸ by decide)
  exact absurd hbehind (by decide)

end DzOS.Proofs.Drivers
