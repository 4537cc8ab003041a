import Mathlib

/-!
# `DzOS.Lib.Outcome`: what a computation that may fail leaves behind

`Ensures x Q` says that every result of `x` satisfies `Q`, and `Succeeds x Q` also that there is
one. Both have a rule for each way to build a computation: a result, a failure, a sequence and a
choice. The rules hold for all types of errors and results.
-/

set_option autoImplicit false

namespace DzOS.Lib

variable {p : Prop} {ε α β : Type} {x : Except ε α} {f : α → Except ε β} {P Q : α → Prop}
  {R : β → Prop}

/-- Every result satisfies `Q`. -/
def Ensures (x : Except ε α) (Q : α → Prop) : Prop := ∀ a, x = .ok a → Q a

/-- There is a result, and it satisfies `Q`. -/
def Succeeds (x : Except ε α) (Q : α → Prop) : Prop := ∃ a, x = .ok a ∧ Q a

/-- A sequence of two computations succeeds when both do. -/
theorem bind_eq_ok {b : β} : (x >>= f) = .ok b ↔ ∃ a, x = .ok a ∧ f a = .ok b := by
  cases x with
  | error e =>
    constructor
    · intro h
      cases h
    · rintro ⟨a, h, -⟩
      cases h
  | ok a =>
    constructor
    · intro h
      exact ⟨a, rfl, h⟩
    · rintro ⟨a, h, hf⟩
      cases h
      exact hf

/-- A sequence whose first computation fails. -/
theorem bind_error {e : ε} (h : x = .error e) : (x >>= f) = .error e := by
  rw [h]
  rfl

/-- A sequence whose first computation succeeds. -/
theorem bind_ok {a : α} (h : x = .ok a) : (x >>= f) = f a := by
  rw [h]
  rfl

/-- A computation with this result as an option. -/
theorem eq_ok_of_toOption {a : α} (h : x.toOption = some a) : x = .ok a := by
  cases x with
  | error e => cases h
  | ok b =>
    cases h
    rfl

/-! ### Every result -/

theorem Ensures.ok {a : α} (h : Q a) : Ensures (.ok a : Except ε α) Q := by
  intro b hb
  cases hb
  exact h

theorem Ensures.error {e : ε} : Ensures (.error e) Q := by
  intro b hb
  cases hb

theorem Ensures.imp (h : Ensures x P) (hQ : ∀ a, P a → Q a) : Ensures x Q :=
  fun a ha => hQ a (h a ha)

theorem Ensures.bind (hx : Ensures x P) (hf : ∀ a, P a → Ensures (f a) R) :
    Ensures (x >>= f) R := by
  intro b hb
  obtain ⟨a, ha, hb⟩ := bind_eq_ok.mp hb
  exact hf a (hx a ha) b hb

theorem Ensures.ite [Decidable p] {y : Except ε α} (hx : p → Ensures x Q) (hy : ¬ p → Ensures y Q) :
    Ensures (if p then x else y) Q := by
  split
  · exact hx ‹_›
  · exact hy ‹_›

/-! ### One result -/

theorem Succeeds.ok {a : α} (h : Q a) : Succeeds (.ok a : Except ε α) Q := ⟨a, rfl, h⟩

theorem Succeeds.imp (h : Succeeds x P) (hQ : ∀ a, P a → Q a) : Succeeds x Q := by
  obtain ⟨a, ha, hp⟩ := h
  exact ⟨a, ha, hQ a hp⟩

theorem Succeeds.ite [Decidable p] {y : Except ε α} (hx : p → Succeeds x Q)
    (hy : ¬ p → Succeeds y Q) : Succeeds (if p then x else y) Q := by
  split
  · exact hx ‹_›
  · exact hy ‹_›

end DzOS.Lib
