import Mathlib.Data.List.Basic
import Mathlib.Data.Nat.ModEq
import Mathlib.Logic.Function.Basic

/-!
# `DzOS.Lib.Ring`: a queue in a ring of slots

The ring has `size` slots. A queue starts at the slot `head` and goes on for `count` slots,
around the end. `contents` is the list of its elements.

Two indices give the count only up to a full turn. `distance` takes the one below `size`, so a
queue between two indices has at most `size - 1` elements, and its indices are equal exactly if
it is empty.
-/

set_option autoImplicit false

namespace DzOS.Lib.Ring

variable {α : Type} {size head count m n i r w : ℕ}

/-- The elements of the queue, from its head. -/
def contents (size : ℕ) (slot : ℕ → α) (head count : ℕ) : List α :=
  (List.range count).map fun i => slot ((head + i) % size)

/-- The slots from `r` to `w`, in the direction of the queue. -/
def distance (size r w : ℕ) : ℕ :=
  (w + size - r) % size

/-! ### The elements -/

theorem length_contents (slot : ℕ → α) : (contents size slot head count).length = count := by
  rw [contents, List.length_map, List.length_range]

theorem contents_congr {slot slot' : ℕ → α}
    (h : ∀ i < count, slot ((head + i) % size) = slot' ((head + i) % size)) :
    contents size slot head count = contents size slot' head count :=
  List.map_congr_left fun i hi => h i (List.mem_range.mp hi)

/-- A queue is cut in two. -/
theorem contents_add (slot : ℕ → α) :
    contents size slot head (m + n) =
      contents size slot head m ++ contents size slot ((head + m) % size) n := by
  rw [contents, List.range_add, List.map_append, List.map_map]
  congr 1
  refine List.map_congr_left fun i _ => ?_
  show slot ((head + (m + i)) % size) = slot (((head + m) % size + i) % size)
  rw [Nat.mod_add_mod, Nat.add_assoc]

theorem contents_succ (slot : ℕ → α) (h : head < size) :
    contents size slot head (n + 1) =
      slot head :: contents size slot ((head + 1) % size) n := by
  rw [Nat.add_comm, contents_add]
  show slot ((head + 0) % size) :: _ = _
  rw [Nat.add_zero, Nat.mod_eq_of_lt h]
  rfl

/-- Different places of a queue are different slots. -/
theorem slot_ne (hi : i < count) (hcount : count < size) :
    (head + i) % size ≠ (head + count) % size := by
  intro heq
  have hcancel : i % size = count % size := Nat.ModEq.add_left_cancel' head heq
  rw [Nat.mod_eq_of_lt (hi.trans hcount), Nat.mod_eq_of_lt hcount] at hcancel
  exact hi.ne hcancel

/-- A write behind the last element adds it to the queue. -/
theorem contents_push (slot : ℕ → α) (x : α) (hcount : count < size) :
    contents size (Function.update slot ((head + count) % size) x) head (count + 1) =
      contents size slot head count ++ [x] := by
  rw [contents_add]
  congr 1
  · refine contents_congr fun i hi => ?_
    exact Function.update_of_ne (slot_ne hi hcount) x slot
  · show [Function.update slot _ x (((head + count) % size + 0) % size)] = [x]
    rw [Nat.add_zero, Nat.mod_mod, Function.update_self]

/-! ### The indices -/

theorem distance_lt (h : r < size) : distance size r w < size :=
  Nat.mod_lt _ (Nat.zero_lt_of_lt h)

/-- The distance without the modulus. -/
theorem distance_of_le (hrw : r ≤ w) (hw : w < size) : distance size r w = w - r := by
  rw [distance, Nat.sub_add_comm hrw, Nat.add_mod_right, Nat.mod_eq_of_lt (by omega)]

theorem distance_of_lt (hwr : w < r) (hr : r < size) : distance size r w = w + (size - r) := by
  rw [distance, Nat.add_sub_assoc hr.le, Nat.mod_eq_of_lt (by omega)]

/-- The distance leads from the first index to the second. -/
theorem add_distance (hr : r < size) (hw : w < size) : (r + distance size r w) % size = w := by
  rcases Nat.lt_or_ge w r with h | h
  · have hsum : r + distance size r w = w + size := by
      rw [distance_of_lt h hr]
      omega
    rw [hsum, Nat.add_mod_right, Nat.mod_eq_of_lt hw]
  · rw [distance_of_le h hw, Nat.add_sub_cancel' h, Nat.mod_eq_of_lt hw]

/-- An index is at the distance where it stands. -/
theorem distance_add (hr : r < size) (hn : n < size) : distance size r ((r + n) % size) = n := by
  have hw : (r + n) % size < size := Nat.mod_lt _ (Nat.zero_lt_of_lt hr)
  have heq : (r + distance size r ((r + n) % size)) % size = (r + n) % size := add_distance hr hw
  have hcancel : distance size r ((r + n) % size) % size = n % size :=
    Nat.ModEq.add_left_cancel' r heq
  rwa [Nat.mod_eq_of_lt (distance_lt hr), Nat.mod_eq_of_lt hn] at hcancel

/-- The queue is empty exactly if its indices are equal. -/
theorem distance_eq_zero (hr : r < size) (hw : w < size) : distance size r w = 0 ↔ r = w := by
  constructor
  · intro h
    have hlead := add_distance hr hw
    rwa [h, Nat.add_zero, Nat.mod_eq_of_lt hr] at hlead
  · rintro rfl
    rw [distance_of_le le_rfl hr, Nat.sub_self]

/-- The index after the second one is the first exactly if the queue has `size - 1` elements. -/
theorem next_eq_iff (hr : r < size) (hw : w < size) :
    (w + 1) % size = r ↔ distance size r w = size - 1 := by
  have hnext : (w + 1) % size = (r + (distance size r w + 1)) % size := by
    rw [← Nat.add_assoc, Nat.add_mod (r + distance size r w), add_distance hr hw, Nat.add_mod_mod]
  have hlt := distance_lt (w := w) hr
  rw [hnext]
  constructor
  · intro h
    by_contra hne
    have hself := distance_add (n := distance size r w + 1) hr (by omega)
    rw [h, (distance_eq_zero hr hr).mpr rfl] at hself
    omega
  · intro h
    rw [show distance size r w + 1 = size by omega, Nat.add_mod_right, Nat.mod_eq_of_lt hr]

/-- The second index takes a step. -/
theorem distance_next (hr : r < size) (hw : w < size) (hroom : distance size r w < size - 1) :
    distance size r ((w + 1) % size) = distance size r w + 1 := by
  have hlead : (w + 1) % size = (r + (distance size r w + 1)) % size := by
    rw [← Nat.add_assoc, Nat.add_mod (r + distance size r w), add_distance hr hw, Nat.add_mod_mod]
  rw [hlead]
  exact distance_add hr (by omega)

/-- The first index takes steps. -/
theorem distance_drop (hr : r < size) (hw : w < size) (hn : n ≤ distance size r w) :
    distance size ((r + n) % size) w = distance size r w - n := by
  have hlead : w = ((r + n) % size + (distance size r w - n)) % size := by
    rw [Nat.mod_add_mod, Nat.add_assoc, Nat.add_sub_cancel' hn, add_distance hr hw]
  have hlt := distance_lt (w := w) hr
  have hstart : (r + n) % size < size := Nat.mod_lt _ (Nat.zero_lt_of_lt hr)
  have hat := distance_add (n := distance size r w - n) hstart (by omega)
  rwa [← hlead] at hat

end DzOS.Lib.Ring
