import DzOS.Fs.Dzfs

/-!
# `DzOS.Proofs.Fs.Folder`: the entries of a folder block

`Lists b l` states that the folder block `b` lists the dnodes `l`: they are its first
entries, in order, and the entries behind them are 0. The lemmas give the folder functions as
functions on this list. `folderContentCount` is its length, an entry behind the last one
appends to it (`Lists.append`), and `folderRemoveContent` takes one dnode out and changes the
order of the others (`Lists.remove`).
-/

set_option autoImplicit false

namespace DzOS.Proofs.Fs

open DzOS.Lib DzOS.Fs

variable {t n : Nat} {u v : List Nat} {fs : Dzfs} {name : List UInt8}

/-- The folder block `b` lists the dnodes `l`. -/
structure Lists (b : Bytes) (l : List Nat) : Prop where
  length_le : l.length ≤ DZFS_MAX_DIR_CONTENTS
  word : ∀ i < DZFS_MAX_DIR_CONTENTS, contentDnode b i = l.getD i 0
  ne_zero : 0 ∉ l

/-- One entry after a write to an entry. -/
theorem contentDnode_setLE (b : Bytes) (i j n : Nat) (hn : n < 2 ^ 32) :
    contentDnode (b.setLE 4 (contentOffset j) n) i = if i = j then n else contentDnode b i := by
  unfold contentDnode
  split
  · rename_i hij
    rw [hij, Bytes.getLE_setLE_self]
    exact Nat.mod_eq_of_lt (by simpa using hn)
  · rename_i hij
    refine Bytes.getLE_setLE_of_apart ?_
    simp only [contentOffset]
    omega

section
variable {b : Bytes} {l : List Nat}

theorem Lists.getD_eq_zero (h : Lists b l) (i : Nat) : l.getD i 0 = 0 ↔ l.length ≤ i := by
  by_cases hi : i < l.length
  · have hmem : l[i] ∈ l := List.getElem_mem hi
    rw [List.getD_eq_getElem _ _ hi]
    exact ⟨fun hz => absurd (hz ▸ hmem) h.ne_zero, fun hle => by omega⟩
  · simp [not_lt.mp hi]

/-- `folderContentCount` is the number of listed dnodes. -/
theorem Lists.count (h : Lists b l) : folderContentCount b = l.length := by
  have hzero : ∀ i < DZFS_MAX_DIR_CONTENTS, contentDnode b i = 0 ↔ l.length ≤ i := by
    intro i hi
    rw [h.word i hi, h.getD_eq_zero]
  have hle := h.length_le
  unfold folderContentCount
  cases hs : scan (fun i => contentDnode b i = 0) DZFS_MAX_DIR_CONTENTS 0 with
  | none =>
    have hfull : ¬ l.length < DZFS_MAX_DIR_CONTENTS := by
      intro hlt
      have hne := scan_eq_none hs l.length (Nat.zero_le _) (by omega)
      exact absurd ((hzero l.length hlt).mpr (Nat.le_refl _)) (of_decide_eq_false hne)
    simp only [Option.getD_none]
    omega
  | some j =>
    obtain ⟨-, hj, hz, hmin⟩ := scan_eq_some hs
    have hlen : l.length ≤ j := (hzero j (by omega)).mp (of_decide_eq_true hz)
    simp only [Option.getD_some]
    by_contra hne
    have hlt : l.length < j := by omega
    have hmin' := hmin l.length (Nat.zero_le _) hlt
    exact of_decide_eq_false hmin' ((hzero l.length (by omega)).mpr (Nat.le_refl _))

/-- A new entry behind the last one. -/
theorem Lists.append (h : Lists b l) (hlt : l.length < DZFS_MAX_DIR_CONTENTS) (hn : n ≠ 0)
    (hn32 : n < 2 ^ 32) :
    Lists (b.setLE 4 (contentOffset l.length) n) (l ++ [n]) where
  length_le := by simpa using hlt
  word i hi := by
    rw [contentDnode_setLE _ _ _ _ hn32]
    split
    · rename_i heq
      subst heq
      simp
    · rename_i hne
      rw [h.word i hi]
      rcases Nat.lt_or_gt_of_ne hne with hi' | hi'
      · rw [List.getD_append _ _ _ _ hi']
      · rw [(h.getD_eq_zero i).mpr hi'.le, List.getD_eq_default]
        simp
        omega
  ne_zero := by
    simp only [List.mem_append, List.mem_singleton, not_or]
    exact ⟨h.ne_zero, fun heq => hn heq.symm⟩

theorem Lists.mem_iff (h : Lists b l) (hn : n ≠ 0) :
    (∃ i < DZFS_MAX_DIR_CONTENTS, contentDnode b i = n) ↔ n ∈ l := by
  constructor
  · rintro ⟨i, hi, hword⟩
    have hlt : i < l.length := by
      by_contra hge
      rw [h.word i hi, (h.getD_eq_zero i).mpr (not_lt.mp hge)] at hword
      exact hn hword.symm
    rw [h.word i hi, List.getD_eq_getElem _ _ hlt] at hword
    exact hword ▸ List.getElem_mem hlt
  · intro hmem
    obtain ⟨i, hi, rfl⟩ := List.getElem_of_mem hmem
    have hlt := lt_of_lt_of_le hi h.length_le
    exact ⟨i, hlt, by rw [h.word i hlt, List.getD_eq_getElem _ _ hi]⟩

/-- A block with no entries. -/
theorem Lists.nil (hb : ∀ i < DZFS_MAX_DIR_CONTENTS, contentDnode b i = 0) : Lists b [] :=
  ⟨Nat.zero_le _, fun i hi => by simpa using hb i hi, List.not_mem_nil⟩

/-- The list depends on the entries only. -/
theorem Lists.congr (h : Lists b l) {b' : Bytes}
    (hb : ∀ i < DZFS_MAX_DIR_CONTENTS, contentDnode b' i = contentDnode b i) : Lists b' l :=
  ⟨h.length_le, fun i hi => (hb i hi).trans (h.word i hi), h.ne_zero⟩

/-- A block lists one list only. -/
theorem Lists.unique (h : Lists b l) {l' : List Nat} (h' : Lists b l') : l = l' := by
  have hlen : l.length = l'.length := h.count.symm.trans h'.count
  refine List.ext_getElem hlen fun i hi hi' => ?_
  have hlt : i < DZFS_MAX_DIR_CONTENTS := lt_of_lt_of_le hi h.length_le
  rw [← List.getD_eq_getElem l 0 hi, ← List.getD_eq_getElem l' 0 hi', ← h.word i hlt,
    h'.word i hlt]

/-- An empty folder, as `dzfsDelete` checks it. -/
theorem Lists.eq_nil (h : Lists b l)
    (hs : scan (fun i => contentDnode b i ≠ 0) DZFS_MAX_DIR_CONTENTS 0 = none) : l = [] := by
  refine h.unique (Lists.nil fun i hi => ?_)
  simpa using scan_eq_none hs i (Nat.zero_le i) (by omega)

/-! ### Lookup -/

/-- What the lookup finds is listed. -/
theorem Lists.lookupFrom_mem (h : Lists b l) (fs : Dzfs) (name : List UInt8) (left i : Nat)
    (hi : i + left ≤ DZFS_MAX_DIR_CONTENTS) (hne : lookupFrom fs b name left i ≠ 0) :
    lookupFrom fs b name left i ∈ l := by
  induction left generalizing i with
  | zero => exact absurd rfl hne
  | succ left ih =>
    unfold lookupFrom at hne ⊢
    split at hne
    · exact absurd rfl hne
    · rename_i hz
      rw [if_neg hz]
      split at hne
      · rename_i hmatch
        rw [if_pos hmatch, h.word i (by omega)]
        rw [h.word i (by omega), h.getD_eq_zero, not_le] at hz
        rw [List.getD_eq_getElem _ _ hz]
        exact List.getElem_mem hz
      · rename_i hmatch
        rw [if_neg hmatch]
        exact ih (i + 1) (by omega) hne

/-- The lookup finds something, if an entry has the name. -/
theorem Lists.lookup_ne_zero (h : Lists b l) {c : Nat} (hc : c ∈ l)
    (hmatch : nameMatches (fs.disk c) name = true) : folderLookupName fs b name ≠ 0 := by
  have hfrom : ∀ left i, i + left = DZFS_MAX_DIR_CONTENTS → c ∈ l.drop i →
      lookupFrom fs b name left i ≠ 0 := by
    intro left
    induction left with
    | zero =>
      intro i hi hmem
      have hle := h.length_le
      rw [List.drop_eq_nil_of_le (by omega)] at hmem
      cases hmem
    | succ left ih =>
      intro i hi hmem
      have hlt : i < l.length := by
        by_contra hge
        rw [List.drop_eq_nil_of_le (not_lt.mp hge)] at hmem
        cases hmem
      have hword : contentDnode b i = l[i] := by
        rw [h.word i (by omega), List.getD_eq_getElem _ _ hlt]
      have hne : l[i] ≠ 0 := fun heq => h.ne_zero (heq ▸ List.getElem_mem hlt)
      unfold lookupFrom
      rw [hword, if_neg hne]
      split
      · exact hne
      · rename_i hno
        refine ih (i + 1) (by omega) ?_
        rw [List.drop_eq_getElem_cons hlt, List.mem_cons] at hmem
        refine hmem.resolve_left ?_
        rintro rfl
        exact hno hmatch
  exact hfrom _ 0 (Nat.zero_add _) (by simpa using hc)

/-- What the lookup finds has the name. -/
theorem lookupFrom_matches (fs : Dzfs) (b : Bytes) (name : List UInt8) (left i : Nat)
    (hne : lookupFrom fs b name left i ≠ 0) :
    nameMatches (fs.disk (lookupFrom fs b name left i)) name = true := by
  induction left generalizing i with
  | zero => exact absurd rfl hne
  | succ left ih =>
    unfold lookupFrom at hne ⊢
    split at hne
    · exact absurd rfl hne
    · rename_i hz
      rw [if_neg hz]
      split at hne
      · rename_i hmatch
        rw [if_pos hmatch]
        exact hmatch
      · rename_i hmatch
        rw [if_neg hmatch]
        exact ih (i + 1) hne

theorem Lists.lookup_mem (h : Lists b l) (hne : folderLookupName fs b name ≠ 0) :
    folderLookupName fs b name ∈ l :=
  h.lookupFrom_mem fs name _ 0 (Nat.le_of_eq (Nat.zero_add _)) hne

/-! ### Removal -/

/-- `folderRemoveContent` fails if and only if no entry is the target. -/
theorem folderRemoveContent_eq_none {d : Nat} :
    folderRemoveContent b d = none ↔ ¬ ∃ i < DZFS_MAX_DIR_CONTENTS, contentDnode b i = d := by
  unfold folderRemoveContent
  rw [Option.map_eq_none_iff]
  constructor
  · rintro hnone ⟨i, hi, heq⟩
    have hne := scan_eq_none hnone i (Nat.zero_le i) (by omega)
    exact of_decide_eq_false hne heq
  · intro hno
    cases hs : scan (fun i => contentDnode b i = d) DZFS_MAX_DIR_CONTENTS 0 with
    | none => rfl
    | some i =>
      obtain ⟨-, hi, heq, -⟩ := scan_eq_some hs
      exact absurd ⟨i, by omega, of_decide_eq_true heq⟩ hno

/-- The search of `folderRemoveContent` finds the first occurrence. -/
theorem Lists.scan_target (h : Lists b l) (hl : l = u ++ t :: v) (hu : t ∉ u) :
    scan (fun i => contentDnode b i = t) DZFS_MAX_DIR_CONTENTS 0 = some u.length := by
  have hle := h.length_le
  have hlen : u.length < DZFS_MAX_DIR_CONTENTS := by
    rw [hl] at hle
    simp at hle
    omega
  refine scan_eq_some_of (Nat.zero_le _) (by omega) ?_ ?_
  · rw [decide_eq_true_eq, h.word _ hlen, hl]
    simp
  · intro k _ hk
    rw [decide_eq_false_iff_not, h.word k (by omega), hl, List.getD_append _ _ _ _ hk,
      List.getD_eq_getElem _ _ hk]
    rintro rfl
    exact hu (List.getElem_mem hk)

/-- The last entry goes. -/
theorem Lists.dropLast (h : Lists b (u ++ [t])) :
    Lists (b.setLE 4 (contentOffset u.length) 0) u where
  length_le := by
    have hle := h.length_le
    simp at hle
    omega
  word i hi := by
    rw [contentDnode_setLE _ _ _ _ (by decide)]
    split
    · rename_i heq
      subst heq
      simp
    · rename_i hne
      rw [h.word i hi]
      rcases Nat.lt_or_gt_of_ne hne with hi' | hi'
      · rw [List.getD_append _ _ _ _ hi']
      · rw [List.getD_eq_default _ _ hi'.le, List.getD_eq_default]
        simp
        omega
  ne_zero := fun hmem => h.ne_zero (by simp [hmem])

/-- An entry is replaced by another one. -/
theorem Lists.replace {z : Nat} (h : Lists b (u ++ t :: v)) (hz : z ≠ 0) (hz32 : z < 2 ^ 32) :
    Lists (b.setLE 4 (contentOffset u.length) z) (u ++ z :: v) where
  length_le := by simpa using h.length_le
  word i hi := by
    rw [contentDnode_setLE _ _ _ _ hz32]
    split
    · rename_i heq
      subst heq
      simp
    · rename_i hne
      rw [h.word i hi]
      rcases Nat.lt_or_gt_of_ne hne with hi' | hi'
      · rw [List.getD_append _ _ _ _ hi', List.getD_append _ _ _ _ hi']
      · rw [List.getD_append_right _ _ _ _ hi'.le, List.getD_append_right _ _ _ _ hi'.le]
        obtain ⟨k, hk⟩ : ∃ k, i - u.length = k + 1 := ⟨i - u.length - 1, by omega⟩
        simp [hk]
  ne_zero := by
    have hne := h.ne_zero
    simp only [List.mem_append, List.mem_cons, not_or] at hne ⊢
    exact ⟨hne.1, fun heq => hz heq.symm, hne.2.2⟩

/-- `folderRemoveContent` of a listed dnode takes it out of the list, up to the order, and
writes nothing but entries. -/
theorem Lists.remove (h : Lists b l) (ht : t ∈ l) :
    ∃ b' l', folderRemoveContent b t = some b' ∧ Lists b' l' ∧ l'.Perm (l.erase t) ∧
      ∀ i < 268, b' i = b i := by
  obtain ⟨u, v, hu, hl, herase⟩ := List.exists_erase_eq ht
  have hscan := h.scan_target hl hu
  have hcount := h.count
  rw [hl] at h hcount
  rw [herase]
  have hkeep : ∀ (b : Bytes) (j n i : Nat), i < 268 → b.setLE 4 (contentOffset j) n i = b i := by
    intro b j n i hi
    refine Bytes.setLE_of_apart (Or.inl ?_)
    simp only [contentOffset]
    omega
  unfold folderRemoveContent
  simp only [hscan, Option.map_some, hcount]
  cases v using List.reverseRecOn with
  | nil =>
    -- The target is the last entry, and both of the first two branches clear it.
    refine ⟨b.setLE 4 (contentOffset u.length) 0, u, ?_, h.dropLast, by simp, hkeep b _ _⟩
    have hlast : contentOffset (u ++ [t]).length - 4 = contentOffset u.length := by
      simp only [contentOffset, List.length_append, List.length_singleton]
      omega
    rw [hlast]
    cases u <;> simp
  | append_singleton v z =>
    -- The last entry `z` takes the place of the target.
    have hz : z ≠ 0 := by
      rintro rfl
      exact h.ne_zero (by simp)
    have hlast : contentOffset (u ++ t :: (v ++ [z])).length - 4
        = contentOffset (u ++ t :: v).length := by
      simp only [contentOffset, List.length_append, List.length_cons, List.length_nil]
      omega
    have hlen : (u ++ t :: v).length < DZFS_MAX_DIR_CONTENTS := by
      have hle := h.length_le
      simp only [List.length_append, List.length_cons, List.length_nil] at hle ⊢
      omega
    have hword : b.getLE 4 (contentOffset (u ++ t :: v).length) = z := by
      have hw := h.word _ hlen
      unfold contentDnode at hw
      rw [hw, ← List.cons_append, ← List.append_assoc]
      simp
    have hz32 : z < 2 ^ 32 := by
      rw [← hword]
      exact lt_of_lt_of_le (Bytes.getLE_lt b 4 _) (by decide)
    have hrep := h.replace hz hz32
    rw [← List.cons_append, ← List.append_assoc] at hrep
    refine ⟨_, u ++ z :: v, ?_, hrep.dropLast, ?_, ?_⟩
    · rw [hlast, hword]
      have hone : (u ++ t :: (v ++ [z])).length ≠ 1 := by
        simp only [List.length_append, List.length_cons, List.length_nil]
        omega
      have hne : (u ++ t :: (v ++ [z])).length ≠ u.length + 1 := by simp
      rw [if_neg hone, if_neg hne]
      simp
    · refine List.Perm.append_left u ?_
      exact (List.perm_append_singleton z v).symm
    · intro i hi
      rw [hkeep _ _ _ _ hi, hkeep _ _ _ _ hi]

end

end DzOS.Proofs.Fs
