import Mathlib.Data.List.Basic
import Mathlib.Logic.Function.Basic
import Mathlib.Data.Nat.ModEq

/-!
# `DzOS.Lib.PhaseRing`: a ring whose entries tell their pass

A producer writes numbered entries into a ring, each over the entry of the pass before. It puts
into each a bit that is the same within a pass and changes with every pass (`pass`). The ring
starts with the bit of no pass written, `false`.

A consumer that knows the number of the next entry can tell from the bit of its slot whether the
entry is there (`Written.bit_eq_pass_iff`), without any other word from the producer. It has to
be less than a full ring behind.
-/

set_option autoImplicit false

namespace DzOS.Lib.PhaseRing

variable {σ : Type} {size : ℕ}

/-- The bit of the entry with number `i`: `true` on the first pass. -/
def pass (size i : ℕ) : Bool :=
  decide (i / size % 2 = 0)

/-- The ring after `count` entries. The last `size` entries stand in their slots, and the slots
that were never written have the bit `false`. -/
structure Written (bit : σ → Bool) (number : σ → Option ℕ) (size : ℕ) (slot : ℕ → σ)
    (count : ℕ) : Prop where
  recent : ∀ i < count, count ≤ i + size →
    bit (slot (i % size)) = pass size i ∧ number (slot (i % size)) = some i
  fresh : ∀ j < size, count ≤ j → bit (slot j) = false

theorem pass_of_lt {i : ℕ} (h : i < size) : pass size i = true := by
  rw [pass, Nat.div_eq_of_lt h]
  rfl

/-- The next pass has the other bit. -/
theorem parity_succ (q : ℕ) : decide ((q + 1) % 2 = 0) = !decide (q % 2 = 0) := by
  rcases Nat.mod_two_eq_zero_or_one q with h | h
  · rw [Nat.add_mod, h]
    rfl
  · rw [Nat.add_mod, h]
    rfl

/-- The bit changes with every pass. -/
theorem pass_add (hsize : 0 < size) (i : ℕ) : pass size (i + size) = !pass size i := by
  rw [pass, pass, Nat.add_div_right i hsize]
  exact parity_succ _

/-- The bit stays within a pass, and changes with the wrap. -/
theorem pass_succ (size i : ℕ) :
    pass size (i + 1) = if (i + 1) % size = 0 then !pass size i else pass size i := by
  split_ifs with h
  · have hdvd : size ∣ i + 1 := Nat.dvd_of_mod_eq_zero h
    rw [pass, pass, Nat.succ_div_of_dvd hdvd]
    exact parity_succ _
  · have hdvd : ¬ size ∣ i + 1 := fun hd => h (Nat.mod_eq_zero_of_dvd hd)
    rw [pass, pass, Nat.succ_div_of_not_dvd hdvd]

variable {bit : σ → Bool} {number : σ → Option ℕ} {slot : ℕ → σ} {count : ℕ}

/-- A ring without entries. -/
theorem written_zero (h : ∀ j, bit (slot j) = false) : Written bit number size slot 0 where
  recent := fun _ hi => absurd hi (Nat.not_lt_zero _)
  fresh := fun j _ _ => h j

/-- The next entry is written. -/
theorem Written.write (h : Written bit number size slot count) {entry : σ}
    (hbit : bit entry = pass size count) (hnumber : number entry = some count) :
    Written bit number size (Function.update slot (count % size) entry) (count + 1) where
  recent := by
    intro i hi hrecent
    rcases Nat.lt_succ_iff_lt_or_eq.mp hi with hlt | rfl
    · -- another number of the last `size` stands in another slot
      have hne : i % size ≠ count % size := by
        intro heq
        have hdvd : size ∣ count - i := (Nat.modEq_iff_dvd' hlt.le).mp heq
        have hle := Nat.le_of_dvd (Nat.sub_pos_of_lt hlt) hdvd
        omega
      rw [Function.update_of_ne hne]
      exact h.recent i hlt (by omega)
    · rw [Function.update_self]
      exact ⟨hbit, hnumber⟩
  fresh := by
    intro j hj hcount
    have hne : j ≠ count % size := by
      rw [Nat.mod_eq_of_lt (by omega)]
      omega
    rw [Function.update_of_ne hne]
    exact h.fresh j hj (by omega)

/-- The bit of the next entry tells whether it is there. -/
theorem Written.bit_eq_pass_iff (h : Written bit number size slot count)
    {next : ℕ} (hle : next ≤ count) (hbehind : count < next + size) :
    bit (slot (next % size)) = pass size next ↔ next < count := by
  rcases Nat.lt_or_eq_of_le hle with hlt | rfl
  · exact iff_of_true (h.recent next hlt hbehind.le).1 hlt
  refine iff_of_false ?_ (Nat.lt_irrefl next)
  rcases Nat.lt_or_ge next size with hfirst | hlater
  · -- the slot was never written
    rw [Nat.mod_eq_of_lt hfirst, h.fresh next hfirst le_rfl, pass_of_lt hfirst]
    exact Bool.false_ne_true
  · -- the slot has the entry of the pass before
    have hold := (h.recent (next - size) (by omega) (by omega)).1
    rw [Nat.mod_eq_sub_mod hlater, hold]
    have hsize : 0 < size := by omega
    have hflip := pass_add hsize (next - size)
    rw [Nat.sub_add_cancel hlater] at hflip
    rw [hflip]
    exact (Bool.not_ne_self _).symm

end DzOS.Lib.PhaseRing
