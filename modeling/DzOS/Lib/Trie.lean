import Mathlib

/-!
# `DzOS.Lib.Trie`: trees of tables, walked along a path

A table is an array of entries, and `next` says which table an entry leads to, if any. A walk
starts at the root and takes at depth `d` the entry with index `p d`, where `p` is the path.
`node` is the table that the walk stands on at depth `d`.

`Separate` says that two walks stand on the same table only when their paths agree down to
it, so that the tables form a tree. `node_attach` and `separate_attach` are the rules for
hanging an empty table into an empty slot. `node_congr_ent` is the rule for a write that no
walk of this depth reads. Only walks along the paths of a set `V` count: the rest of the
tables may be shared.

The results hold for every type of tables, indices and entries.
-/

set_option autoImplicit false

namespace DzOS.Lib.Trie

variable {top : Nat}

section

variable {T ι E : Type*} (next : E → Option T)

/-- The table at depth `d` of the walk along `p`. -/
def node (ent : T → ι → E) (root : T) (p : Nat → ι) : Nat → Option T
  | 0 => some root
  | d + 1 => (node ent root p d).bind fun t => next (ent t (p d))

/-- Two paths have the same first `d` indices. -/
def Agree (p q : Nat → ι) (d : Nat) : Prop := ∀ i < d, p i = q i

/-- Down to depth `top`, walks along paths of `V` meet only where their paths agree. -/
def Separate (V : Set (Nat → ι)) (ent : T → ι → E) (root : T) (top : Nat) : Prop :=
  ∀ p ∈ V, ∀ q ∈ V, ∀ (d e : Nat) (t : T), d ≤ top → e ≤ top →
    node next ent root p d = some t → node next ent root q e = some t → d = e ∧ Agree p q d

variable {next} {V : Set (Nat → ι)} {ent ent' : T → ι → E} {root c : T} {p q : Nat → ι} {d e : Nat}

/-- A prefix of an agreement is an agreement. -/
theorem Agree.mono (h : Agree p q d) (hle : e ≤ d) : Agree p q e :=
  fun i hi => h i (by omega)

/-- Agreement down to `d` and at `d` is agreement down to `d + 1`. -/
theorem Agree.succ (h : Agree p q d) (hd : p d = q d) : Agree p q (d + 1) := by
  intro i hi
  by_cases hid : i = d
  · rw [hid, hd]
  · exact h i (by omega)

@[simp] theorem node_zero : node next ent root p 0 = some root := rfl

theorem node_succ :
    node next ent root p (d + 1) =
      (node next ent root p d).bind fun t => next (ent t (p d)) := rfl

/-- A walk depends only on the indices above it. -/
theorem node_congr (h : Agree p q d) : node next ent root p d = node next ent root q d := by
  induction d with
  | zero => rfl
  | succ d ih =>
    rw [node_succ, node_succ, ih (h.mono (by omega)), h d (by omega)]

/-- A walk that reaches depth `d` reaches every depth above it. -/
theorem node_isSome_of_le (h : (node next ent root p d).isSome) (hle : e ≤ d) :
    (node next ent root p e).isSome := by
  induction d with
  | zero => simp [Nat.le_zero.mp hle]
  | succ d ih =>
    by_cases hed : e = d + 1
    · rw [hed]; exact h
    · refine ih ?_ (by omega)
      rw [node_succ] at h
      cases hn : node next ent root p d with
      | none => simp [hn] at h
      | some t => rfl

/-- Two entries that the walks read are the same entry only when the paths agree through
it. -/
theorem slot_inj {t : T} (hsep : Separate next V ent root top) (hpV : p ∈ V) (hqV : q ∈ V)
    (hd : d ≤ top) (he : e ≤ top) (hp : node next ent root p d = some t)
    (hq : node next ent root q e = some t) (hidx : p d = q e) : d = e ∧ Agree p q (d + 1) := by
  obtain ⟨rfl, hag⟩ := hsep p hpV q hqV d e t hd he hp hq
  exact ⟨rfl, hag.succ hidx⟩

/-- Walks down to depth `top` are unchanged by a change of entries that no walk reads above
depth `top`. -/
theorem node_congr_ent
    (h : ∀ q ∈ V, ∀ k t, k < top → node next ent root q k = some t → ent' t (q k) = ent t (q k))
    (hp : p ∈ V) (hd : d ≤ top) : node next ent' root p d = node next ent root p d := by
  induction d with
  | zero => rfl
  | succ d ih =>
    rw [node_succ, node_succ, ih (by omega)]
    cases hn : node next ent root p d with
    | none => rfl
    | some t => simp [h p hp d t (by omega) hn]

/-- The conditions for hanging the empty table `c` into the slot that the walk along `p`
reads at depth `d`. -/
structure Attach (next : E → Option T) (V : Set (Nat → ι)) (ent ent' : T → ι → E) (root : T)
    (p : Nat → ι)
    (d top : Nat) (t c : T) : Prop where
  /-- The slot is in a table of the tree. -/
  hnode : node next ent root p d = some t
  hlt : d < top
  /-- The slot was empty. -/
  hempty : next (ent t (p d)) = none
  /-- The slot leads to `c` now. -/
  hfull : next (ent' t (p d)) = some c
  /-- The new table is empty. -/
  hclear : ∀ q ∈ V, ∀ k ≤ top, next (ent' c (q k)) = none
  /-- The new table was not in the tree. -/
  hfresh : ∀ q ∈ V, ∀ k ≤ top, node next ent root q k ≠ some c
  /-- Every other slot that a walk reads keeps its entry. -/
  hkeep : ∀ q ∈ V, ∀ k ≤ top, ∀ u, node next ent root q k = some u →
    ¬ (k = d ∧ Agree q p (d + 1)) → ent' u (q k) = ent u (q k)

/-- The walks after an attachment: those that go through the slot find the new table, and
stop there. -/
theorem node_attach {k : Nat} {t : T} (h : Attach next V ent ent' root p d top t c) (hq : q ∈ V)
    (hk : k ≤ top) :
    (k = d + 1 → Agree q p (d + 1) → node next ent' root q k = some c) ∧
    (¬ (k = d + 1 ∧ Agree q p (d + 1)) →
      node next ent' root q k = node next ent root q k) := by
  induction k with
  | zero => exact ⟨fun h0 => by omega, fun _ => rfl⟩
  | succ k ih =>
    obtain ⟨-, ihold⟩ := ih (by omega)
    -- Above the new table nothing has changed, so the walk still stands on the old table.
    have hold : k ≤ d → node next ent' root q k = node next ent root q k :=
      fun hkd => ihold (fun hc => by omega)
    constructor
    · intro hkd hag
      have hkd' : k = d := by omega
      subst hkd'
      have hqk : node next ent root q k = some t := by
        rw [node_congr (hag.mono (by omega))]; exact h.hnode
      rw [node_succ, hold (le_refl k), hqk, Option.bind_some, hag k (by omega)]
      exact h.hfull
    · intro hne
      by_cases hc : k = d + 1 ∧ Agree q p (d + 1)
      · -- One step below the new table: it is empty, and the old walk had stopped above.
        obtain ⟨rfl, hag⟩ := hc
        have hnew : node next ent' root q (d + 1) = some c := (ih (by omega)).1 rfl hag
        have hqd : node next ent root q d = some t := by
          rw [node_congr (hag.mono (by omega))]; exact h.hnode
        have hstop : node next ent root q (d + 1) = none := by
          rw [node_succ, hqd, Option.bind_some, hag d (by omega)]
          exact h.hempty
        rw [node_succ, hnew, node_succ, hstop]
        simpa using h.hclear q hq (d + 1) (by omega)
      · rw [node_succ, node_succ, ihold hc]
        cases hn : node next ent root q k with
        | none => rfl
        | some u =>
          rw [Option.bind_some, Option.bind_some, h.hkeep q hq k (by omega) u hn]
          intro hkd
          exact hne ⟨by omega, hkd.2⟩

/-- An attachment keeps the tables a tree. -/
theorem separate_attach {t : T} (h : Attach next V ent ent' root p d top t c)
    (hsep : Separate next V ent root top) : Separate next V ent' root top := by
  intro q hqV r hrV k l u hk hl hq hr
  have hq' := node_attach h hqV hk
  have hr' := node_attach h hrV hl
  by_cases hqc : k = d + 1 ∧ Agree q p (d + 1)
  · have huc : u = c := by
      have := hq'.1 hqc.1 hqc.2
      rw [hq] at this; exact Option.some.inj this
    by_cases hrc : l = d + 1 ∧ Agree r p (d + 1)
    · refine ⟨by omega, fun i hi => ?_⟩
      rw [hqc.2 i (by omega), hrc.2 i (by omega)]
    · rw [hr'.2 hrc, huc] at hr
      exact absurd hr (h.hfresh r hrV l hl)
  · rw [hq'.2 hqc] at hq
    by_cases hrc : l = d + 1 ∧ Agree r p (d + 1)
    · have huc : u = c := by
        have := hr'.1 hrc.1 hrc.2
        rw [hr] at this; exact Option.some.inj this
      rw [huc] at hq
      exact absurd hq (h.hfresh q hqV k hk)
    · rw [hr'.2 hrc] at hr
      exact hsep q hqV r hrV k l u hk hl hq hr

end

end DzOS.Lib.Trie
