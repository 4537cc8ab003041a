import DzOS.Lib.Numeral
import DzOS.Lib.Outcome
import DzOS.Proofs.Common.Format

/-!
# `DzOS.Proofs.Common.DigitBuffer`: the local buffer of the number printers

A store behind the 20 bytes of the buffer is an error. The digits of a 64-bit number and its sign
always fit: they are at most 20 in base 10, and 17 in base 16 (`digitBuf_eq`). A width makes the
buffer as long as the width, so `kprintint_padded` overruns it exactly for the widths above 20
(`digitBufPadded_eq`). `parse_width` takes any width from the format.

`noOverrun_iff` says this for whole formats.
-/

set_option autoImplicit false

namespace DzOS.Proofs.Common

open DzOS.Lib DzOS.Common

variable {fuel : Nat} {pad : UInt8} {width : Int} {buf : List UInt8}

/-! ### Stores -/

theorem bufPut_of_lt {c : UInt8} (h : buf.length < 20) :
    bufPut buf c = .ok (buf ++ [c]) := if_pos h

/-! ### The digits -/

/-- The loop over the digits, when they fit. -/
theorem putDigits_eq {base x : Nat} (hbase : 1 < base) (hx : x < base ^ fuel) (hfuel : 0 < fuel)
    (hfit : buf.length + (lowDigits base x).length ≤ 20) :
    putDigits base fuel x buf = .ok (buf ++ (lowDigits base x).map pfDigit) := by
  induction fuel generalizing x buf with
  | zero => omega
  | succ fuel ih =>
    unfold putDigits
    have hpos := List.length_pos_of_ne_nil (lowDigits_ne_nil (b := base) (n := x))
    rw [bind_ok (bufPut_of_lt (by omega))]
    by_cases hmore : x / base ≠ 0
    · obtain ⟨hnext, hfuel'⟩ := div_lt_pow (by omega) hx hmore
      rw [lowDigits_step hbase hmore, List.length_cons] at hfit
      rw [if_pos hmore, ih hnext hfuel' (by rw [List.length_append, List.length_singleton]; omega),
        lowDigits_step hbase hmore, List.map_cons, List.append_assoc, List.singleton_append]
    · rw [if_neg hmore]
      have hlt : x < base := (Nat.div_eq_zero_iff_lt (by omega)).mp (not_not.mp hmore)
      rw [lowDigits_of_lt hlt, List.map_singleton, Nat.mod_eq_of_lt hlt]
      rfl

/-- A `long long`. -/
def IsLongLong (xx : Int) : Prop := -2 ^ 63 ≤ xx ∧ xx < 2 ^ 63

theorem isLongLong_bmod {n : Int} {m : Nat} (hpos : 0 < m) (hm : m ≤ 2 ^ 64) :
    IsLongLong (Int.bmod n m) := by
  have hlow := Int.le_bmod (x := n) hpos
  have hhigh := Int.bmod_lt (x := n) hpos
  unfold IsLongLong
  omega

theorem isLongLong_toInt (w : UInt64) : IsLongLong (toInt w) :=
  isLongLong_bmod (m := 2 ^ 32) (by norm_num) (by norm_num)

theorem isLongLong_toLongLong (w : UInt64) : IsLongLong (toLongLong w) :=
  isLongLong_bmod (m := 2 ^ 64) (by norm_num) (by norm_num)

theorem isLongLong_fetch (va : VaList) (type : Fetch) : IsLongLong (va.fetch type) := by
  cases type with
  | int => exact isLongLong_toInt _
  | uint64_t => exact isLongLong_toLongLong _

/-- The number is negative and printed as such. -/
def isNegative (xx : Int) (sign : Bool) : Bool := sign && xx < 0

/-- The number whose digits are printed. -/
def magnitude (xx : Int) (sign : Bool) : Nat :=
  ((if isNegative xx sign then -xx else xx) % 2 ^ 64).toNat

/-- The digits and the sign, from the last digit. -/
def numberText (xx : Int) (base : Nat) (sign : Bool) : List UInt8 :=
  (lowDigits base (magnitude xx sign)).map pfDigit ++ if isNegative xx sign then [ch '-'] else []

variable {xx : Int} {base : Nat} {sign : Bool}

theorem magnitude_lt (xx : Int) (sign : Bool) : magnitude xx sign < 2 ^ 64 := by
  unfold magnitude
  omega

/-- The digits fit, and leave a byte for the sign. -/
theorem length_digits_le (h : IsLongLong xx) (hbase : IsBase base) (sign : Bool) :
    (lowDigits base (magnitude xx sign)).length ≤ if isNegative xx sign then 19 else 20 := by
  have hsmall := magnitude_lt xx sign
  split
  · rename_i hneg
    -- The least `long long` has 19 digits.
    have hhalf : magnitude xx sign ≤ 2 ^ 63 := by
      unfold magnitude
      rw [if_pos hneg]
      obtain ⟨hlow, -⟩ := h
      have hxx : xx < 0 := by
        unfold isNegative at hneg
        simpa using (Bool.and_eq_true_iff.mp hneg).2
      omega
    refine (length_lowDigits_le_iff hbase.one_lt (by decide)).mpr ?_
    rcases hbase with rfl | rfl
    · exact Nat.lt_of_le_of_lt hhalf (by norm_num)
    · exact Nat.lt_of_le_of_lt hhalf (by norm_num)
  · refine (length_lowDigits_le_iff hbase.one_lt (by decide)).mpr ?_
    rcases hbase with rfl | rfl
    · exact Nat.lt_trans hsmall (by norm_num)
    · exact Nat.lt_trans hsmall (by norm_num)

theorem length_numberText_le (h : IsLongLong xx) (hbase : IsBase base) :
    (numberText xx base sign).length ≤ 20 := by
  have hdigits := length_digits_le h hbase sign
  unfold numberText
  rw [List.length_append, List.length_map]
  split at hdigits
  · rename_i hneg
    rw [if_pos hneg, List.length_singleton]
    omega
  · rename_i hneg
    rw [if_neg hneg, List.length_nil]
    omega

/-- The digits and the sign of a number always fit. -/
theorem digitBuf_eq (h : IsLongLong xx) (hbase : IsBase base) :
    digitBuf xx base sign = .ok (numberText xx base sign) := by
  have hdigits := length_digits_le h hbase sign
  have hfit : (lowDigits base (magnitude xx sign)).length ≤ 20 := by
    split at hdigits
    · omega
    · exact hdigits
  have hx : magnitude xx sign < base ^ 64 := by
    have hsmall := magnitude_lt xx sign
    rcases hbase with rfl | rfl
    · exact Nat.lt_trans hsmall (by norm_num)
    · exact Nat.lt_trans hsmall (by norm_num)
  have hput : putDigits base 64 (magnitude xx sign) [] = .ok ([] ++ _) :=
    putDigits_eq hbase.one_lt hx (by decide) (by rw [List.length_nil, Nat.zero_add]; exact hfit)
  have hbuf : digitBuf xx base sign = do
      let buf ← putDigits base 64 (magnitude xx sign) []
      if isNegative xx sign then bufPut buf (ch '-') else return buf := rfl
  rw [hbuf, bind_ok hput]
  unfold numberText
  split
  · rename_i hneg
    rw [if_pos hneg] at hdigits
    rw [bufPut_of_lt (by simp only [List.nil_append, List.length_map]; omega), List.nil_append]
  · rw [List.nil_append, List.append_nil]
    rfl

/-! ### The width -/

/-- The padding of a buffer that has room for it. -/
theorem putPad_eq (hwidth : width ≤ 20) (hfuel : width ≤ buf.length + fuel) :
    putPad width pad fuel buf = .ok (buf ++ List.replicate (width.toNat - buf.length) pad) := by
  induction fuel generalizing buf with
  | zero =>
    have hzero : width.toNat - buf.length = 0 := by omega
    rw [hzero, List.replicate_zero, List.append_nil]
    rfl
  | succ fuel ih =>
    unfold putPad
    by_cases hmore : (buf.length : Int) < width
    · have hcount : width.toNat - buf.length = width.toNat - (buf ++ [pad]).length + 1 := by
        rw [List.length_append, List.length_singleton]
        omega
      rw [if_pos hmore, bind_ok (bufPut_of_lt (by omega)),
        ih (by rw [List.length_append, List.length_singleton]; omega), hcount,
        List.replicate_succ, List.append_assoc, List.singleton_append]
    · have hzero : width.toNat - buf.length = 0 := by omega
      rw [if_neg hmore, hzero, List.replicate_zero, List.append_nil]

/-- The padding behind the end of the buffer. -/
theorem putPad_overrun (hwidth : 20 < width) (hbuf : buf.length ≤ 20)
    (hfuel : width ≤ buf.length + fuel) : putPad width pad fuel buf = .error 20 := by
  induction fuel generalizing buf with
  | zero => omega
  | succ fuel ih =>
    unfold putPad
    rw [if_pos (by omega)]
    -- The padding starts at an index of at most 20, so the first store that fails is at 20.
    by_cases hfull : buf.length < 20
    · rw [bind_ok (bufPut_of_lt hfull)]
      apply ih
      · rw [List.length_append, List.length_singleton]
        omega
      · rw [List.length_append, List.length_singleton]
        omega
    · have hlast : buf.length = 20 := by omega
      unfold bufPut
      rw [if_neg hfull, hlast]
      rfl

/-- A width of at most 20 fits, and a larger one overruns the buffer. -/
theorem digitBufPadded_eq (h : IsLongLong xx) (hbase : IsBase base) (sign : Bool) (width : Int)
    (pad : UInt8) :
    digitBufPadded xx base sign width pad =
      if width ≤ 20 then
        .ok (numberText xx base sign ++
          List.replicate (width.toNat - (numberText xx base sign).length) pad)
      else .error 20 := by
  unfold digitBufPadded
  rw [bind_ok (digitBuf_eq h hbase)]
  split
  · rename_i hwidth
    exact putPad_eq hwidth (by omega)
  · rename_i hwidth
    exact putPad_overrun (by omega) (length_numberText_le h hbase) (by omega)

/-! ### Formats -/

/-- A width that the buffer has room for. -/
def FitsBuffer : Item → Prop
  | .padded _ _ width _ => width ≤ 20
  | _ => True

instance : (item : Item) → Decidable (FitsBuffer item)
  | .padded _ _ width _ => inferInstanceAs (Decidable (width ≤ 20))
  | .char _ | .integer _ _ _ | .pointer | .string | .float | .unknown _ => isTrue trivial

variable {st : PrintState} {va : VaList} {c : CvState} {item : Item}

theorem kprintfloat_ok (st : PrintState) (f : FloatArg) : ∃ out, kprintfloat st f = .ok out := by
  have hbuf : digitBuf (toLongLong f.intPart) 10 false = .ok _ :=
    digitBuf_eq (isLongLong_toLongLong f.intPart) (.inl rfl)
  unfold kprintfloat
  exact ⟨_, bind_ok hbuf⟩

/-- An item overruns the buffer exactly with a width above 20. -/
theorem kprintItem_ok_iff (st : PrintState) (va : VaList) (hitem : IsItem item) :
    (∃ out, kprintItem st va item = .ok out) ↔ FitsBuffer item := by
  cases item with
  | char => exact ⟨fun _ => trivial, fun _ => ⟨_, rfl⟩⟩
  | integer type base sign =>
    exact ⟨fun _ => trivial, fun _ => ⟨_, bind_ok (digitBuf_eq (isLongLong_fetch va type) hitem)⟩⟩
  | padded type base width pad =>
    have hbuf := digitBufPadded_eq (isLongLong_fetch va type) hitem.1 false width pad
    by_cases hwidth : width ≤ 20
    · rw [if_pos hwidth] at hbuf
      exact ⟨fun _ => hwidth, fun _ => ⟨_, bind_ok hbuf⟩⟩
    · rw [if_neg hwidth] at hbuf
      refine ⟨?_, fun h => absurd h hwidth⟩
      rintro ⟨out, hout⟩
      cases hout.symm.trans (bind_error hbuf)
  | pointer => exact ⟨fun _ => trivial, fun _ => ⟨_, rfl⟩⟩
  | string => exact ⟨fun _ => trivial, fun _ => ⟨_, rfl⟩⟩
  | float =>
    obtain ⟨out, hout⟩ := kprintfloat_ok st (va.float 0)
    exact ⟨fun _ => trivial, fun _ => ⟨_, bind_ok hout⟩⟩
  | unknown => exact ⟨fun _ => trivial, fun _ => ⟨_, rfl⟩⟩

/-- `kvprintf` overruns a buffer exactly when the format has a width above 20. -/
theorem kprintItems_ok_iff (st : PrintState) (va : VaList) {items : List Item}
    (hitems : ∀ item ∈ items, IsItem item) :
    (∃ out, kprintItems st va items = .ok out) ↔ ∀ item ∈ items, FitsBuffer item := by
  induction items generalizing va with
  | nil =>
    refine ⟨fun _ item hitem => ?_, fun _ => ⟨[], rfl⟩⟩
    cases hitem
  | cons item items ih =>
    obtain ⟨hitem, hrest⟩ := List.forall_mem_cons.mp hitems
    rw [List.forall_mem_cons, ← kprintItem_ok_iff st va hitem]
    constructor
    · rintro ⟨out, hout⟩
      obtain ⟨⟨head, va'⟩, hhead, htail⟩ := bind_eq_ok.mp hout
      obtain ⟨rest, hrest', -⟩ := bind_eq_ok.mp htail
      exact ⟨⟨_, hhead⟩, (ih va' hrest).mp ⟨rest, hrest'⟩⟩
    · rintro ⟨⟨⟨head, va'⟩, hhead⟩, hfits⟩
      obtain ⟨rest, hrest'⟩ := (ih va' hrest).mpr hfits
      exact ⟨_, (bind_ok hhead).trans (bind_ok hrest')⟩

end DzOS.Proofs.Common
