import DzOS.Common.Printf

/-!
# `DzOS.Proofs.Common.Format`: the items of a format

What the loop over a format yields: bytes other than 0, and numbers in base 10 or 16
(`isItem_parseFormat`).
-/

set_option autoImplicit false

namespace DzOS.Proofs.Common

open DzOS.Lib DzOS.Common

variable {fuel : Nat} {pad : UInt8}

/-- The bases of the format. -/
def IsBase (base : Nat) : Prop := base = 10 ∨ base = 16

theorem IsBase.one_lt {base : Nat} (h : IsBase base) : 1 < base := by
  rcases h with rfl | rfl
  · decide
  · decide

/-- An item of a format. -/
def IsItem : Item → Prop
  | .char c => c ≠ 0
  | .integer _ base _ => IsBase base
  | .padded _ base _ pad => IsBase base ∧ pad ≠ 0
  | .unknown c0 => c0 ≠ 0
  | _ => True

theorem isItem_hexItem (hpad : pad ≠ 0) (type : Fetch) (width : Int) :
    IsItem (hexItem type width pad) := by
  unfold hexItem
  split
  · exact ⟨.inr rfl, hpad⟩
  · exact .inr rfl

/-- A branch of the chain of tests in `conversion`. -/
theorem isItem_ite {c : Prop} [Decidable c] {x : Item × Nat} {rest : Option (Item × Nat)}
    (hx : IsItem x.1) (hrest : ∀ r ∈ rest, IsItem r.1) :
    ∀ r ∈ if c then some x else rest, IsItem r.1 := by
  intro r hr
  by_cases hc : c
  · rw [if_pos hc] at hr
    exact Option.some.inj hr ▸ hx
  · rw [if_neg hc] at hr
    exact hrest r hr

theorem isItem_conversion (hpad : pad ≠ 0) (width : Int) (c0 c1 c2 : UInt8) :
    ∀ r ∈ conversion width pad c0 c1 c2, IsItem r.1 := by
  unfold conversion
  -- The seven decimal conversions, the three hexadecimal ones, and the others.
  iterate 7 refine isItem_ite (.inl rfl) ?_
  iterate 3 refine isItem_ite (isItem_hexItem hpad _ _) ?_
  iterate 4 refine isItem_ite trivial ?_
  refine isItem_ite (show ch '%' ≠ 0 by decide) ?_
  intro r hr
  by_cases hend : c0 = 0
  · rw [if_pos hend] at hr
    cases hr
  · rw [if_neg hend] at hr
    cases hr
    exact hend

variable {fmt rest : List UInt8} {item : Item}

theorem parseWidth_suffix (fmt : List UInt8) (width : Int) : (parseWidth fmt width).2 <:+ fmt := by
  induction fmt generalizing width with
  | nil => exact List.suffix_refl _
  | cons c fmt ih =>
    unfold parseWidth
    split
    · exact (ih _).trans (List.suffix_cons c fmt)
    · exact List.suffix_refl _

/-- A conversion is an item, and leaves the end of the format. -/
theorem parseConversion_spec (h : parseConversion fmt = some (item, rest)) :
    IsItem item ∧ rest <:+ fmt := by
  unfold parseConversion at h
  dsimp only at h
  split at h
  · cases h
  · rename_i hconv
    cases h
    refine ⟨isItem_conversion ?_ _ _ _ _ _ hconv, ?_⟩
    · split
      · decide
      · decide
    · refine (List.drop_suffix _ _).trans ((parseWidth_suffix _ _).trans ?_)
      split
      · exact List.tail_suffix _
      · exact List.suffix_refl _

theorem isItem_parseItems (hzero : (0 : UInt8) ∉ fmt) :
    ∀ item ∈ parseItems fuel fmt, IsItem item := by
  induction fuel generalizing fmt with
  | zero =>
    intro item hitem
    cases hitem
  | succ fuel ih =>
    cases fmt with
    | nil =>
      intro item hitem
      cases hitem
    | cons cx fmt =>
      rw [List.mem_cons, not_or] at hzero
      obtain ⟨hcx, hfmt⟩ := hzero
      unfold parseItems
      split
      · exact List.forall_mem_cons.mpr ⟨fun h => hcx h.symm, ih hfmt⟩
      · split
        · intro item hitem
          cases hitem
        · rename_i hparse
          obtain ⟨hitem, hrest⟩ := parseConversion_spec hparse
          exact List.forall_mem_cons.mpr ⟨hitem, ih fun h => hfmt (hrest.subset h)⟩

theorem isItem_parseFormat (fmt : CString) : ∀ item ∈ parseFormat fmt, IsItem item :=
  isItem_parseItems fmt.nonzero

/-- More fuel than bytes changes nothing. -/
theorem parseItems_fuel (h : fmt.length ≤ fuel) :
    parseItems fuel fmt = parseItems fmt.length fmt := by
  -- A conversion takes several bytes, so the rest of the format has more fuel than it needs.
  induction fuel using Nat.strong_induction_on generalizing fmt with
  | h fuel ih =>
    cases fmt with
    | nil =>
      cases fuel with
      | zero => rfl
      | succ fuel => rfl
    | cons cx fmt =>
      rw [List.length_cons] at h ⊢
      obtain ⟨fuel, rfl⟩ : ∃ k, fuel = k + 1 := ⟨fuel - 1, by omega⟩
      have hrest : ∀ rest : List UInt8, rest.length ≤ fmt.length →
          parseItems fuel rest = parseItems fmt.length rest := by
        intro rest hle
        rw [ih fuel (Nat.lt_succ_self fuel) (by omega)]
        rcases Nat.eq_or_lt_of_le (Nat.succ_le_succ_iff.mp h) with heq | hlt
        · rw [heq, ih fuel (Nat.lt_succ_self fuel) (by omega)]
        · exact (ih fmt.length (by omega) hle).symm
      unfold parseItems
      split
      · rw [hrest fmt (Nat.le_refl _)]
      · split
        · rfl
        · rename_i hparse
          rw [hrest _ (parseConversion_spec hparse).2.length_le]

end DzOS.Proofs.Common
