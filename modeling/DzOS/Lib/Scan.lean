import Mathlib

/-!
# `DzOS.Lib.Scan`: the loop that scans for the first index

`scan p left i` is the loop `for (; left > 0; left--, i++) if (p(i)) return i`. A scan that
finds something finds the first index with `p` (`scan_eq_some`), and a scan that finds
nothing has passed no such index (`scan_eq_none`).
-/

set_option autoImplicit false

namespace DzOS.Lib

/-- The first index with `p` among the `left` indices from `i` on. -/
def scan (p : Nat → Bool) : Nat → Nat → Option Nat
  | 0, _ => none
  | left + 1, i => if p i then some i else scan p left (i + 1)

variable {p : Nat → Bool} {left i j : Nat}

/-- What a successful scan says about its result. -/
theorem scan_eq_some (h : scan p left i = some j) :
    i ≤ j ∧ j < i + left ∧ p j = true ∧ ∀ k, i ≤ k → k < j → p k = false := by
  induction left generalizing i with
  | zero => cases h
  | succ left ih =>
    unfold scan at h
    split at h
    · rename_i hp
      obtain rfl := Option.some.inj h
      exact ⟨Nat.le_refl i, by omega, hp, fun k h1 h2 => by omega⟩
    · rename_i hp
      obtain ⟨hle, hlt, hpj, hmin⟩ := ih h
      refine ⟨by omega, by omega, hpj, fun k h1 h2 => ?_⟩
      rcases Nat.eq_or_lt_of_le h1 with rfl | h1
      · exact Bool.eq_false_iff.mpr hp
      · exact hmin k h1 h2

/-- A scan without a result has seen every index. -/
theorem scan_eq_none (h : scan p left i = none) (k : Nat) (h1 : i ≤ k) (h2 : k < i + left) :
    p k = false := by
  induction left generalizing i with
  | zero => omega
  | succ left ih =>
    unfold scan at h
    split at h
    · cases h
    · rename_i hp
      rcases Nat.eq_or_lt_of_le h1 with rfl | h1
      · exact Bool.eq_false_iff.mpr hp
      · exact ih h h1 (by omega)

/-- The scan finds the index that its specification names. -/
theorem scan_eq_some_of (h1 : i ≤ j) (h2 : j < i + left) (hp : p j = true)
    (hmin : ∀ k, i ≤ k → k < j → p k = false) : scan p left i = some j := by
  cases hs : scan p left i with
  | none => simp [scan_eq_none hs j h1 h2] at hp
  | some k =>
    obtain ⟨hik, -, hpk, hk⟩ := scan_eq_some hs
    rcases Nat.lt_trichotomy j k with hlt | rfl | hlt
    · simp [hk j h1 hlt] at hp
    · rfl
    · simp [hmin k hik hlt] at hpk

end DzOS.Lib
