import Mathlib

/-!
# `DzOS.Lib.Numeral`: the digits of a number and their value

`lowDigits b n` lists the digits of `n` from the last one, as the loop `do … while ((n /= b) != 0)`
produces them: zero has one digit. `digitsValue b ds` is the value of digits in reading order, the
result of a parser. Each undoes the other (`digitsValue_lowDigits`), with zeros in front or without.
-/

set_option autoImplicit false

namespace DzOS.Lib

/-- The digits of a number, from the last one. -/
def lowDigits (b n : ℕ) : List ℕ := if n = 0 then [0] else Nat.digits b n

/-- The value of the digits in reading order. -/
def digitsValue (b : ℕ) (ds : List ℕ) : ℕ := ds.foldl (fun v d => v * b + d) 0

variable {b n : ℕ}

/-! ### The loop -/

theorem lowDigits_of_lt (h : n < b) : lowDigits b n = [n] := by
  unfold lowDigits
  split
  · rename_i hzero
    rw [hzero]
  · rename_i hne
    exact Nat.digits_of_lt b n hne h

theorem lowDigits_step (hb : 1 < b) (h : n / b ≠ 0) :
    lowDigits b n = n % b :: lowDigits b (n / b) := by
  have hn : n ≠ 0 := by
    rintro rfl
    exact h (Nat.zero_div b)
  rw [lowDigits, lowDigits, if_neg hn, if_neg h, Nat.digits_def' hb (Nat.pos_of_ne_zero hn)]

/-- A quotient with digits left is in reach of one turn less. -/
theorem div_lt_pow {fuel : ℕ} (hb : 0 < b) (hn : n < b ^ (fuel + 1)) (h : n / b ≠ 0) :
    n / b < b ^ fuel ∧ 0 < fuel := by
  have hlt : n / b < b ^ fuel := by
    rw [Nat.div_lt_iff_lt_mul hb, ← Nat.pow_succ]
    exact hn
  refine ⟨hlt, Nat.pos_of_ne_zero ?_⟩
  -- Without fuel the quotient would be 0.
  rintro rfl
  rw [Nat.pow_zero] at hlt
  exact h (Nat.lt_one_iff.mp hlt)

theorem lt_of_mem_lowDigits (hb : 1 < b) {d : ℕ} (h : d ∈ lowDigits b n) : d < b := by
  unfold lowDigits at h
  split at h
  · rw [List.mem_singleton.mp h]
    omega
  · exact Nat.digits_lt_base hb h

theorem lowDigits_ne_nil : lowDigits b n ≠ [] := by
  unfold lowDigits
  split
  · exact List.cons_ne_nil _ _
  · rename_i hne
    exact Nat.digits_ne_nil_iff_ne_zero.mpr hne

/-- The number of digits. -/
theorem length_lowDigits_le_iff (hb : 1 < b) {k : ℕ} (hk : 0 < k) :
    (lowDigits b n).length ≤ k ↔ n < b ^ k := by
  unfold lowDigits
  split
  · rename_i hzero
    rw [hzero]
    exact ⟨fun _ => Nat.pow_pos (by omega), fun _ => hk⟩
  · exact Nat.digits_length_le_iff hb n

/-- A number with more than one digit starts with another digit than 0. -/
theorem getLast?_lowDigits (h : (lowDigits b n).getLast? = some 0) : lowDigits b n = [0] := by
  unfold lowDigits at h ⊢
  split at h
  · rename_i hzero
    rw [if_pos hzero]
  · rename_i hne
    rw [List.getLast?_eq_getLast_of_ne_nil (Nat.digits_ne_nil_iff_ne_zero.mpr hne)] at h
    exact absurd (Option.some.inj h) (Nat.getLast_digit_ne_zero b hne)

/-! ### The value -/

theorem digitsValue_append_singleton (ds : List ℕ) (d : ℕ) :
    digitsValue b (ds ++ [d]) = digitsValue b ds * b + d := by
  simp [digitsValue, List.foldl_append]

/-- More digits make the value no smaller. -/
theorem le_foldl_digits (hb : 0 < b) (ds : List ℕ) (v : ℕ) :
    v ≤ ds.foldl (fun v d => v * b + d) v := by
  induction ds generalizing v with
  | nil => exact Nat.le_refl v
  | cons d ds ih =>
    have hstep : v ≤ v * b + d := Nat.le_trans (Nat.le_mul_of_pos_right v hb) (Nat.le_add_right _ d)
    exact Nat.le_trans hstep (ih (v * b + d))

/-- The value of reversed digits. -/
theorem digitsValue_reverse (ds : List ℕ) : digitsValue b ds.reverse = Nat.ofDigits b ds := by
  induction ds with
  | nil => rfl
  | cons d ds ih =>
    rw [List.reverse_cons, digitsValue_append_singleton, ih, Nat.ofDigits_cons, Nat.mul_comm,
      Nat.add_comm]

/-- The digits of a number have its value, with zeros in front or without. -/
theorem digitsValue_lowDigits (k : ℕ) :
    digitsValue b (lowDigits b n ++ List.replicate k 0).reverse = n := by
  rw [digitsValue_reverse, Nat.ofDigits_append_replicate_zero]
  unfold lowDigits
  split
  · rename_i hzero
    rw [hzero, Nat.ofDigits_singleton]
  · exact Nat.ofDigits_digits b n

end DzOS.Lib
