import DzOS.Proofs.Common.Snprintf

/-!
# `DzOS.Proofs.Common.Conversions`: the numerals that `snprintf` prints

`Conv` has the integer conversions, and `Conv.value` the value that each should print of a word:
the word or its low half, signed or not. `IsNumeral` says that a text is the numeral of a value,
without zeros in front other than those of the width, and that parsing it gives the value back.

A conversion prints the numeral of the number that it has after the fetch (`kprintItem_conv`). For
`%u` and `%x` the argument is fetched as an `int`, and a negative one is extended to 64 bits. So
these two print the value of the argument exactly when its sign bit is clear
(`printsValue_iff`).
-/

set_option autoImplicit false

namespace DzOS.Proofs.Common

open DzOS.Lib DzOS.Common

variable {d : ℕ} {c : UInt8}

/-! ### Numerals -/

/-- The byte of a digit. -/
def digitByte (d : ℕ) : UInt8 := ch (Nat.digitChar d)

/-- The value of a byte as a digit. -/
def byteDigit (c : UInt8) : Option ℕ :=
  if ch '0' ≤ c ∧ c ≤ ch '9' then some (c.toNat - 48)
  else if ch 'a' ≤ c ∧ c ≤ ch 'f' then some (c.toNat - 87)
  else none

/-- The digits of a text in a base. -/
def parseDigits (base : ℕ) : List UInt8 → Option (List ℕ)
  | [] => some []
  | c :: cs =>
    match byteDigit c, parseDigits base cs with
    | some d, some ds => if d < base then some (d :: ds) else none
    | _, _ => none

/-- The digits of a numeral, without its sign. -/
def unsigned (text : List UInt8) : List UInt8 :=
  if text.head? = some (ch '-') then text.tail else text

/-- The value of a numeral. -/
def parseNumeral (base : ℕ) (text : List UInt8) : Option ℤ :=
  match parseDigits base (unsigned text) with
  | none => none
  | some ds =>
    if ds = [] then none
    else if text.head? = some (ch '-') then some (-(digitsValue base ds : ℤ))
    else some (digitsValue base ds)

/-- The text is the numeral of `v`, filled up with zeros to the width. -/
structure IsNumeral (base width : ℕ) (v : ℤ) (text : List UInt8) : Prop where
  parses : parseNumeral base text = some v
  filled : width ≤ (unsigned text).length
  zeros : width < (unsigned text).length → (unsigned text).head? = some (ch '0') →
    unsigned text = [ch '0']

/-- The numeral of a number. -/
def numeral (base width : ℕ) (v : ℤ) : List UInt8 :=
  (if v < 0 then [ch '-'] else []) ++
    ((lowDigits base v.natAbs ++
      List.replicate (width - (lowDigits base v.natAbs).length) 0).reverse.map digitByte)

variable {base width : ℕ} {v : ℤ}

theorem byteDigit_digitByte (h : d < 16) : byteDigit (digitByte d) = some d := by
  have hall : ∀ d < 16, byteDigit (digitByte d) = some d := by decide
  exact hall d h

theorem digitByte_ne_minus (h : d < 16) : digitByte d ≠ ch '-' := by
  have hall : ∀ d < 16, digitByte d ≠ ch '-' := by decide
  exact hall d h

theorem digitByte_eq_zero (h : d < 16) (hzero : digitByte d = ch '0') : d = 0 := by
  have hall : ∀ d < 16, digitByte d = ch '0' → d = 0 := by decide
  exact hall d h hzero

theorem parseDigits_map (hbase : base ≤ 16) {ds : List ℕ} (h : ∀ d ∈ ds, d < base) :
    parseDigits base (ds.map digitByte) = some ds := by
  induction ds with
  | nil => rfl
  | cons d ds ih =>
    obtain ⟨hd, hds⟩ := List.forall_mem_cons.mp h
    simp only [List.map_cons, parseDigits, byteDigit_digitByte (Nat.lt_of_lt_of_le hd hbase),
      ih hds,
      if_pos hd]

/-- The digits in a numeral, in reading order. -/
def readDigits (base width : ℕ) (v : ℤ) : List ℕ :=
  (lowDigits base v.natAbs ++
    List.replicate (width - (lowDigits base v.natAbs).length) 0).reverse

theorem readDigits_lt (hbase : 1 < base) (width : ℕ) (v : ℤ) :
    ∀ d ∈ readDigits base width v, d < base := by
  intro d hd
  rcases List.mem_append.mp (List.mem_reverse.mp hd) with hd | hd
  · exact lt_of_mem_lowDigits hbase hd
  · rw [List.eq_of_mem_replicate hd]
    omega

theorem readDigits_ne_nil (base width : ℕ) (v : ℤ) : readDigits base width v ≠ [] := by
  intro h
  exact lowDigits_ne_nil (List.append_eq_nil_iff.mp (List.reverse_eq_nil_iff.mp h)).1

/-- A numeral is its sign and its digits. -/
theorem numeral_parts (hbase : 1 < base) (hle : base ≤ 16) (width : ℕ) (v : ℤ) :
    unsigned (numeral base width v) = (readDigits base width v).map digitByte ∧
      ((numeral base width v).head? = some (ch '-') ↔ v < 0) := by
  obtain ⟨d, ds, hds⟩ := List.exists_cons_of_ne_nil (readDigits_ne_nil base width v)
  have hd : d < 16 :=
    Nat.lt_of_lt_of_le (readDigits_lt hbase width v d (hds ▸ List.mem_cons_self)) hle
  have hnumeral : numeral base width v =
      (if v < 0 then [ch '-'] else []) ++ (readDigits base width v).map digitByte := rfl
  unfold unsigned
  rw [hnumeral]
  by_cases hv : v < 0
  · rw [if_pos hv]
    exact ⟨rfl, fun _ => hv, fun _ => rfl⟩
  · rw [if_neg hv, List.nil_append, hds, List.map_cons, List.head?_cons]
    have hne : some (digitByte d) ≠ some (ch '-') :=
      fun h => digitByte_ne_minus hd (Option.some.inj h)
    rw [if_neg hne]
    exact ⟨rfl, fun h => absurd h hne, fun h => absurd h hv⟩

theorem length_readDigits : (readDigits base width v).length =
    max width (lowDigits base v.natAbs).length := by
  unfold readDigits
  rw [List.length_reverse, List.length_append, List.length_replicate]
  omega

/-- The numeral of a number is one. -/
theorem isNumeral_numeral (hbase : 1 < base) (hle : base ≤ 16) :
    IsNumeral base width v (numeral base width v) := by
  obtain ⟨hdigits, hsign⟩ := numeral_parts hbase hle width v
  refine ⟨?_, ?_, ?_⟩
  · unfold parseNumeral
    rw [hdigits, parseDigits_map hle (readDigits_lt hbase width v)]
    dsimp only
    have hvalue : digitsValue base (readDigits base width v) = v.natAbs := digitsValue_lowDigits _
    rw [if_neg (readDigits_ne_nil base width v), hvalue]
    by_cases hv : v < 0
    · rw [if_pos (hsign.mpr hv)]
      congr 1
      omega
    · rw [if_neg fun h => hv (hsign.mp h)]
      congr 1
      omega
  · rw [hdigits, List.length_map, length_readDigits]
    exact Nat.le_max_left _ _
  · rw [hdigits, List.length_map, length_readDigits]
    intro hlong hzero
    -- The numeral is longer than the width, so it has no zeros in front.
    have hnopad : width - (lowDigits base v.natAbs).length = 0 := by omega
    have hread : readDigits base width v = (lowDigits base v.natAbs).reverse := by
      unfold readDigits
      rw [hnopad, List.replicate_zero, List.append_nil]
    rw [hread, List.head?_map, List.head?_reverse] at hzero
    obtain ⟨d, hlast, hd⟩ := Option.map_eq_some_iff.mp hzero
    have hlt := lt_of_mem_lowDigits hbase (List.mem_of_getLast? hlast)
    rw [digitByte_eq_zero (Nat.lt_of_lt_of_le hlt hle) hd] at hlast
    rw [hread, getLast?_lowDigits hlast]
    rfl

/-! ### Conversions -/

/-- The digits of a width of at most 16, as `%0<width>x` has them behind its flag. -/
structure ZeroPad where
  digits : List (Fin 10)
  small : digitsValue 10 (digits.map Fin.val) ≤ 16

/-- The integer conversions. The hexadecimal ones may have a flag and a width. -/
inductive Conv where
  | d
  | u
  | x (pad : Option ZeroPad)
  | ld
  | lld
  | lu
  | llu
  | zu
  | lx (pad : Option ZeroPad)
  | llx (pad : Option ZeroPad)

variable {conv : Conv}

/-- The letters of a conversion. -/
def Conv.letters : Conv → List UInt8
  | .d => text "d"
  | .u => text "u"
  | .x _ => text "x"
  | .ld => text "ld"
  | .lld => text "lld"
  | .lu => text "lu"
  | .llu => text "llu"
  | .zu => text "zu"
  | .lx _ => text "lx"
  | .llx _ => text "llx"

/-- The flag and the width. -/
def Conv.pad : Conv → Option ZeroPad
  | .x pad => pad
  | .lx pad => pad
  | .llx pad => pad
  | _ => none

/-- The width in front of the letters. -/
def padText : Option ZeroPad → List UInt8
  | none => []
  | some pad => ch '0' :: pad.digits.map fun digit => digitByte digit.val

/-- The number of digits that are printed at least. -/
def padWidth : Option ZeroPad → ℕ
  | none => 0
  | some pad => digitsValue 10 (pad.digits.map Fin.val)

/-- The type of the argument that the conversion is for. -/
def Conv.bits : Conv → ℕ
  | .d | .u | .x _ => 32
  | _ => 64

def Conv.signed : Conv → Bool
  | .d | .ld | .lld => true
  | _ => false

def Conv.radix : Conv → ℕ
  | .x _ | .lx _ | .llx _ => 16
  | _ => 10

/-- The type at which the argument is fetched. -/
def Conv.fetch : Conv → Fetch
  | .d | .u | .x _ => .int
  | _ => .uint64_t

/-- The value of the argument. -/
def Conv.value (conv : Conv) (w : UInt64) : ℤ :=
  if conv.signed then Int.bmod w.toNat (2 ^ conv.bits) else w.toNat % 2 ^ conv.bits

/-- The item of a conversion. -/
def Conv.item (conv : Conv) : Item :=
  if padWidth conv.pad = 0 then .integer conv.fetch conv.radix conv.signed
  else .padded conv.fetch conv.radix (padWidth conv.pad) (ch '0')

/-! ### Parsing a conversion -/

theorem parseWidth_letter (hc : ¬ (ch '0' ≤ c ∧ c ≤ ch '9')) (fmt : List UInt8) (width : ℤ) :
    parseWidth (c :: fmt) width = (width, c :: fmt) := by
  unfold parseWidth
  rw [if_neg hc]

theorem digitByte_decimal (digit : Fin 10) :
    (ch '0' ≤ digitByte digit.val ∧ digitByte digit.val ≤ ch '9') ∧
      ((digitByte digit.val).toNat : ℤ) - 48 = digit.val := by
  revert digit
  decide

/-- A width that is written out, in front of a letter. -/
theorem parseWidth_digits (hc : ¬ (ch '0' ≤ c ∧ c ≤ ch '9')) (fmt : List UInt8) {ds : List (Fin 10)}
    {w : ℕ} (hsmall : (ds.map Fin.val).foldl (fun v d => v * 10 + d) w ≤ 16) :
    parseWidth ((ds.map fun digit => digitByte digit.val) ++ c :: fmt) w =
      ((((ds.map Fin.val).foldl (fun v d => v * 10 + d) w : ℕ) : ℤ), c :: fmt) := by
  induction ds generalizing w with
  | nil => exact parseWidth_letter hc fmt w
  | cons digit ds ih =>
    obtain ⟨hdigit, hvalue⟩ := digitByte_decimal digit
    -- The width so far is at most the whole width, so nothing wraps.
    have hnext : w * 10 + digit.val ≤ 16 :=
      Nat.le_trans (le_foldl_digits (by decide) _ _) hsmall
    have hwrap : Int.bmod ((w : ℤ) * 10 + (digit.val : ℤ)) (2 ^ 32) =
        ((w * 10 + digit.val : ℕ) : ℤ) := by
      rw [Int.bmod_eq_of_le_mul_two]
      · push_cast
        rfl
      · omega
      · omega
    rw [List.map_cons, List.cons_append]
    unfold parseWidth
    rw [if_pos hdigit, hvalue, hwrap]
    exact ih hsmall

/-- The letters of a conversion are those of its item. -/
theorem conversion_letters (conv : Conv) (width : ℤ) (pad : UInt8) (rest : List UInt8) :
    ∃ c cs, conv.letters = c :: cs ∧ ¬ (ch '0' ≤ c ∧ c ≤ ch '9') ∧
      conversion width pad ((conv.letters ++ rest).getD 0 0) ((conv.letters ++ rest).getD 1 0)
          ((conv.letters ++ rest).getD 2 0) =
        some (if conv.radix = 16 then hexItem conv.fetch width pad
          else .integer conv.fetch 10 conv.signed, conv.letters.length) := by
  cases conv with
  | d => exact ⟨_, _, rfl, by decide, rfl⟩
  | u => exact ⟨_, _, rfl, by decide, rfl⟩
  | x => exact ⟨_, _, rfl, by decide, rfl⟩
  | ld => exact ⟨_, _, rfl, by decide, rfl⟩
  | lld => exact ⟨_, _, rfl, by decide, rfl⟩
  | lu => exact ⟨_, _, rfl, by decide, rfl⟩
  | llu => exact ⟨_, _, rfl, by decide, rfl⟩
  | zu => exact ⟨_, _, rfl, by decide, rfl⟩
  | lx => exact ⟨_, _, rfl, by decide, rfl⟩
  | llx => exact ⟨_, _, rfl, by decide, rfl⟩

theorem hexItem_width (type : Fetch) (width : ℕ) (pad : UInt8) :
    hexItem type width pad =
      if width = 0 then .integer type 16 false else .padded type 16 width pad := by
  unfold hexItem
  by_cases hwidth : width = 0
  · rw [if_pos hwidth, if_neg (by omega)]
  · rw [if_neg hwidth, if_pos (by omega)]

/-- The item that the letters yield with the width in front of them. -/
theorem conv_item (conv : Conv) (pad : UInt8) (hpad : conv.pad ≠ none → pad = ch '0') :
    (if conv.radix = 16 then hexItem conv.fetch (padWidth conv.pad) pad
      else .integer conv.fetch 10 conv.signed) = conv.item := by
  -- The pad byte matters only for a width, and a width comes with its flag.
  have hhex : ∀ type : Fetch, ∀ p : Option ZeroPad, (p ≠ none → pad = ch '0') →
      hexItem type (padWidth p) pad =
        if padWidth p = 0 then .integer type 16 false
        else .padded type 16 (padWidth p) (ch '0') := by
    intro type p hp
    rw [hexItem_width]
    cases p with
    | none => rfl
    | some p => rw [hp (by simp)]
  cases conv with
  | x p => exact hhex .int p hpad
  | lx p => exact hhex .uint64_t p hpad
  | llx p => exact hhex .uint64_t p hpad
  | d | u | ld | lld | lu | llu | zu => rfl

/-- A conversion in a format. -/
theorem parseConversion_conv (conv : Conv) (rest : List UInt8) :
    parseConversion (padText conv.pad ++ conv.letters ++ rest) = some (conv.item, rest) := by
  -- Without a width there is no flag either, and the letters do not start with a digit.
  cases hpad : conv.pad with
  | none =>
    obtain ⟨c, cs, hletters, hc, hconv⟩ := conversion_letters conv 0 (ch ' ') rest
    have hitem := conv_item conv (ch ' ') fun h => absurd hpad h
    have hhead : ¬ (conv.letters ++ rest).head? = some (ch '0') := by
      rw [hletters, List.cons_append, List.head?_cons]
      rintro h
      obtain rfl := Option.some.inj h
      exact hc (by decide)
    have hwidth : parseWidth (conv.letters ++ rest) 0 = (0, conv.letters ++ rest) := by
      rw [hletters]
      exact parseWidth_letter hc _ 0
    rw [hpad] at hitem
    unfold parseConversion padText
    simp only [List.nil_append, if_neg hhead, hwidth, hconv]
    rw [show (0 : ℤ) = (padWidth none : ℕ) from rfl, hitem, List.drop_left]
  | some p =>
    obtain ⟨c, cs, hletters, hc, hconv⟩ :=
      conversion_letters conv (padWidth conv.pad) (ch '0') rest
    have hitem := conv_item conv (ch '0') fun _ => rfl
    have hhead : (padText (some p) ++ conv.letters ++ rest).head? = some (ch '0') := rfl
    have hwidth : parseWidth (padText (some p) ++ conv.letters ++ rest).tail 0 =
        ((padWidth conv.pad : ℤ), conv.letters ++ rest) := by
      rw [hpad, hletters]
      have hdigits := parseWidth_digits (w := 0) hc (cs ++ rest) p.small
      rw [List.append_assoc]
      exact hdigits
    unfold parseConversion
    simp only [hhead, if_true, hwidth, hconv]
    rw [hitem, List.drop_left]

/-- A format that starts with a conversion. -/
def Conv.format (conv : Conv) (rest : CString) : CString where
  bytes := ch '%' :: (padText conv.pad ++ conv.letters ++ rest.bytes)
  nonzero := by
    have hletters : (0 : UInt8) ∉ conv.letters := by
      cases conv with
      | d | u | x | ld | lld | lu | llu | zu | lx | llx =>
        dsimp only [Conv.letters]
        decide
    have hdigit : ∀ digit : Fin 10, digitByte digit.val ≠ 0 := by decide
    have hpad : (0 : UInt8) ∉ padText conv.pad := by
      cases conv.pad with
      | none => exact List.not_mem_nil
      | some p =>
        unfold padText
        rw [List.mem_cons, not_or]
        refine ⟨by decide, fun h => ?_⟩
        obtain ⟨digit, -, hzero⟩ := List.mem_map.mp h
        exact hdigit digit hzero
    rw [List.mem_cons, not_or]
    exact ⟨by decide, nonzero_append (nonzero_append hpad hletters) rest.nonzero⟩

theorem parseItems_percent {fuel : ℕ} {fmt rest : List UInt8} {item : Item}
    (h : parseConversion fmt = some (item, rest)) :
    parseItems (fuel + 1) (ch '%' :: fmt) = item :: parseItems fuel rest := by
  rw [parseItems, if_neg (by decide), h]

/-- The items of this format. -/
theorem parseFormat_conv (conv : Conv) (rest : CString) :
    parseFormat (conv.format rest) = conv.item :: parseFormat rest := by
  have hle : rest.bytes.length ≤ (padText conv.pad ++ conv.letters ++ rest.bytes).length := by
    rw [List.length_append]
    exact Nat.le_add_left _ _
  unfold parseFormat Conv.format
  dsimp only
  rw [List.length_cons, parseItems_percent (parseConversion_conv conv rest.bytes),
    parseItems_fuel hle]

/-! ### Printing a conversion -/

/-- The number whose numeral a conversion prints: the argument after the fetch, as a signed or as
an unsigned number of 64 bits. -/
def Conv.shown (conv : Conv) (w : UInt64) : ℤ :=
  let xx := match conv.fetch with
    | .int => toInt w
    | .uint64_t => toLongLong w
  if conv.signed then xx else xx % 2 ^ 64

theorem isBase_radix (conv : Conv) : IsBase conv.radix := by
  cases conv with
  | x | lx | llx => exact .inr rfl
  | d | u | ld | lld | lu | llu | zu => exact .inl rfl

theorem pfDigit_eq (h : d < 16) : pfDigit d = digitByte d := by
  have hall : ∀ d < 16, pfDigit d = digitByte d := by decide
  exact hall d h

theorem plain_kprintBuf (st : PrintState) (buf : List UInt8) :
    kprintBuf (plain st) buf = buf.reverse := by
  have hon : (plain st).colorOn = [] := rfl
  have hoff : (plain st).colorOff = [] := rfl
  unfold kprintBuf
  rw [hon, hoff, List.nil_append, List.append_nil]

/-- The buffer in reading order, filled up with zeros, is a numeral. -/
theorem numberText_numeral {xx : ℤ} {sign : Bool} (hbase : IsBase base)
    (hneg : isNegative xx sign = decide (v < 0)) (hmag : magnitude xx sign = v.natAbs)
    (hwidth : v < 0 → width = 0) :
    (numberText xx base sign ++
      List.replicate (width - (numberText xx base sign).length) (ch '0')).reverse =
        numeral base width v := by
  have hdigits :
      (lowDigits base v.natAbs).map pfDigit = (lowDigits base v.natAbs).map digitByte := by
    refine List.map_congr_left fun d hd => pfDigit_eq ?_
    have hlt := lt_of_mem_lowDigits hbase.one_lt hd
    rcases hbase with rfl | rfl
    · omega
    · exact hlt
  unfold numberText numeral
  rw [hneg, hmag, hdigits]
  by_cases hv : v < 0
  · rw [hwidth hv, decide_eq_true hv, if_pos rfl, if_pos hv, Nat.zero_sub, Nat.zero_sub,
      List.replicate_zero, List.replicate_zero, List.append_nil, List.append_nil,
      List.reverse_append, List.map_reverse]
    rfl
  · rw [decide_eq_false hv, if_neg Bool.false_ne_true, if_neg hv, List.append_nil, List.nil_append,
      List.length_map, List.reverse_append, List.reverse_append, List.map_append, List.map_reverse,
      List.map_reverse, List.map_replicate]
    rfl

/-- The sign and the digits of the number that is printed. -/
theorem shown_parts (conv : Conv) (va : VaList) :
    isNegative (va.fetch conv.fetch) conv.signed = decide (conv.shown (va.word 0) < 0) ∧
      magnitude (va.fetch conv.fetch) conv.signed = (conv.shown (va.word 0)).natAbs := by
  have hfetch : conv.shown (va.word 0) =
      if conv.signed then va.fetch conv.fetch else va.fetch conv.fetch % 2 ^ 64 := by
    unfold Conv.shown
    cases conv.fetch with
    | int => rfl
    | uint64_t => rfl
  obtain ⟨hlow, hhigh⟩ := isLongLong_fetch va conv.fetch
  rw [hfetch]
  generalize va.fetch conv.fetch = xx at hlow hhigh
  unfold magnitude isNegative
  cases conv.signed with
  | false =>
    rw [Bool.false_and, if_neg Bool.false_ne_true, if_neg Bool.false_ne_true]
    refine ⟨(decide_eq_false (by omega)).symm, ?_⟩
    omega
  | true =>
    rw [Bool.true_and, if_pos rfl]
    refine ⟨rfl, ?_⟩
    by_cases hneg : xx < 0
    · rw [decide_eq_true hneg, if_pos rfl]
      omega
    · rw [decide_eq_false hneg, if_neg Bool.false_ne_true]
      omega

/-- A signed conversion has no width. -/
theorem padWidth_of_signed (h : conv.signed = true) : padWidth conv.pad = 0 := by
  cases conv with
  | d | ld | lld => rfl
  | u | x | lu | llu | zu | lx | llx => cases h

theorem shown_nonneg (h : conv.signed = false) (w : UInt64) : 0 ≤ conv.shown w := by
  unfold Conv.shown
  rw [h, if_neg Bool.false_ne_true]
  exact Int.emod_nonneg _ (by norm_num)

theorem padWidth_le (pad : Option ZeroPad) : padWidth pad ≤ 16 := by
  cases pad with
  | none => exact Nat.zero_le 16
  | some pad => exact pad.small

/-- A conversion prints the numeral of the number after the fetch. -/
theorem kprintItem_conv (st : PrintState) (va : VaList) (conv : Conv) :
    kprintItem (plain st) va conv.item =
      .ok (numeral conv.radix (padWidth conv.pad) (conv.shown (va.word 0)), va.nextWord) := by
  obtain ⟨hneg, hmag⟩ := shown_parts conv va
  have hlong := isLongLong_fetch va conv.fetch
  have hwidth : conv.shown (va.word 0) < 0 → padWidth conv.pad = 0 := by
    intro hlt
    cases hsigned : conv.signed with
    | true => exact padWidth_of_signed hsigned
    | false => exact absurd hlt (Int.not_lt.mpr (shown_nonneg hsigned _))
  have htext := numberText_numeral (isBase_radix conv) hneg hmag hwidth
  unfold Conv.item
  by_cases hzero : padWidth conv.pad = 0
  · rw [if_pos hzero]
    refine (bind_ok (digitBuf_eq hlong (isBase_radix conv))).trans ?_
    rw [plain_kprintBuf, ← htext, hzero, Nat.zero_sub, List.replicate_zero, List.append_nil]
    rfl
  · have hsigned : conv.signed = false := by
      cases h : conv.signed with
      | true => exact absurd (padWidth_of_signed h) hzero
      | false => rfl
    have hle := padWidth_le conv.pad
    have hbuf := digitBufPadded_eq hlong (isBase_radix conv) false (padWidth conv.pad) (ch '0')
    rw [if_pos (by omega), Int.toNat_natCast] at hbuf
    rw [hsigned] at htext
    rw [if_neg hzero]
    refine (bind_ok hbuf).trans ?_
    rw [plain_kprintBuf, htext]
    rfl

theorem toInt_emod (w : UInt64) :
    toInt w % 2 ^ 64 = (w.toNat : ℤ) % 2 ^ 32 ↔ w.toNat % 2 ^ 32 < 2 ^ 31 := by
  unfold toInt
  rw [Int.bmod_eq_emod]
  split
  · rename_i hhigh
    push_cast at hhigh ⊢
    omega
  · rename_i hlow
    push_cast at hlow ⊢
    omega

theorem toLongLong_emod (w : UInt64) : toLongLong w % 2 ^ 64 = (w.toNat : ℤ) % 2 ^ 64 := by
  unfold toLongLong
  rw [Int.bmod_eq_emod]
  split
  · push_cast
    omega
  · push_cast
    omega

theorem shown_of_signed (h : conv.signed = true) (w : UInt64) : conv.shown w = conv.value w := by
  unfold Conv.shown Conv.value
  rw [h, if_pos rfl, if_pos rfl]
  cases conv with
  | d | ld | lld => rfl
  | u | x | lu | llu | zu | lx | llx => cases h

theorem shown_of_unsigned (h : conv.signed = false) (w : UInt64) :
    conv.shown w = conv.value w ↔ (conv.bits = 32 → w.toNat % 2 ^ 32 < 2 ^ 31) := by
  unfold Conv.shown Conv.value
  rw [h, if_neg Bool.false_ne_true, if_neg Bool.false_ne_true]
  cases conv with
  | d | ld | lld => cases h
  | u | x =>
    dsimp only [Conv.fetch, Conv.bits]
    exact (toInt_emod w).trans ⟨fun h _ => h, fun h => h rfl⟩
  | lu | llu | zu | lx | llx =>
    dsimp only [Conv.fetch, Conv.bits]
    exact ⟨fun _ h => absurd h (by decide), fun _ => toLongLong_emod w⟩

/-- The number after the fetch is the value of the argument, unless an `int` was fetched for an
unsigned one and its sign bit is set. -/
theorem shown_eq_value_iff (conv : Conv) (w : UInt64) :
    conv.shown w = conv.value w ↔
      (conv.bits = 32 ∧ conv.signed = false → w.toNat % 2 ^ 32 < 2 ^ 31) := by
  cases hsigned : conv.signed with
  | false =>
    rw [shown_of_unsigned hsigned]
    exact ⟨fun h h' => h h'.1, fun h h' => h ⟨h', rfl⟩⟩
  | true => exact ⟨fun _ h => Bool.noConfusion h.2, fun _ => shown_of_signed hsigned w⟩

/-- `snprintf` prints the numeral of the value of the argument in front of the rest of the format,
in every buffer that has room for both. -/
def PrintsValue (conv : Conv) (w : UInt64) : Prop :=
  ∃ text, IsNumeral conv.radix (padWidth conv.pad) (conv.value w) text ∧
    ∀ (st : PrintState) (mem : Bytes) (destLen : ℤ) (rest : CString) (va : VaList)
      (out : List UInt8), va.word 0 = w → kvprintf (plain st) rest va.nextWord = .ok out →
      ((text ++ out).length : ℤ) ≤ destLen →
        ∃ r, snprintf st mem destLen (conv.format rest) va = .ok r ∧
          r.ret = (text ++ out).length ∧ r.mem.slice 0 (text ++ out).length = text ++ out

/-- The bytes of a copied text. -/
theorem slice_blit (b : Bytes) (text : List UInt8) :
    (b.blit 0 text).slice 0 text.length = text := by
  refine List.ext_getElem (Bytes.length_slice _ _ _) fun i hi hi' => ?_
  rw [Bytes.getElem_slice, Bytes.blit_of_mem (Nat.zero_le _) (by omega)]
  congr 1
  omega

/-- What `snprintf` prints of a format that starts with a conversion. -/
theorem snprintf_conv {st : PrintState} {mem : Bytes} {destLen : ℤ} {rest : CString} {va : VaList}
    {out : List UInt8} (hout : kvprintf (plain st) rest va.nextWord = .ok out)
    (hroom : ((numeral conv.radix (padWidth conv.pad) (conv.shown (va.word 0)) ++ out).length : ℤ) ≤
      destLen) :
    ∃ r, snprintf st mem destLen (conv.format rest) va = .ok r ∧
      r.ret = (numeral conv.radix (padWidth conv.pad) (conv.shown (va.word 0)) ++ out).length ∧
      r.mem.slice 0 r.ret =
        numeral conv.radix (padWidth conv.pad) (conv.shown (va.word 0)) ++ out := by
  have htext : kvprintf (plain st) (conv.format rest) va =
      .ok (numeral conv.radix (padWidth conv.pad) (conv.shown (va.word 0)) ++ out) := by
    unfold kvprintf
    rw [parseFormat_conv]
    exact (bind_ok (kprintItem_conv st va conv)).trans (bind_ok hout)
  refine ⟨_, snprintf_eq htext, Nat.min_eq_right (by omega), ?_⟩
  dsimp only
  rw [Nat.min_eq_right (by omega), List.take_of_length_le (by omega)]
  exact slice_blit _ _

theorem nonzero_nil : (0 : UInt8) ∉ ([] : List UInt8) := List.not_mem_nil

/-- The empty format. -/
def emptyFormat : CString := ⟨[], nonzero_nil⟩

theorem isNumeral_shown (conv : Conv) (w : UInt64) :
    IsNumeral conv.radix (padWidth conv.pad) (conv.shown w)
      (numeral conv.radix (padWidth conv.pad) (conv.shown w)) := by
  have hbase := isBase_radix conv
  refine isNumeral_numeral hbase.one_lt ?_
  rcases hbase with h | h
  · omega
  · omega

/-- A conversion that prints the value shows it. -/
theorem PrintsValue.shown {w : UInt64} (h : PrintsValue conv w) : conv.shown w = conv.value w := by
  obtain ⟨text, htext, hprints⟩ := h
  obtain ⟨va, hva⟩ : ∃ va : VaList, va.word 0 = w := ⟨{ zeroArgs with word := fun _ => w }, rfl⟩
  have hout : kvprintf (plain ⟨false, false⟩) emptyFormat va.nextWord = .ok [] := rfl
  -- Both numerals are printed into a buffer that has room for both.
  obtain ⟨destLen, hdest⟩ : ∃ destLen : ℤ, destLen = (text ++ []).length +
      (numeral conv.radix (padWidth conv.pad) (conv.shown w) ++ []).length := ⟨_, rfl⟩
  obtain ⟨r, hr, hret, hmem⟩ :=
    hprints ⟨false, false⟩ Bytes.zero destLen emptyFormat va [] hva hout (by omega)
  rw [← hva] at hdest
  obtain ⟨r', hr', hret', hmem'⟩ : ∃ r', snprintf ⟨false, false⟩ Bytes.zero destLen
      (conv.format emptyFormat) va = .ok r' ∧ _ := snprintf_conv hout (by omega)
  obtain rfl : r = r' := Except.ok.inj (hr.symm.trans hr')
  rw [hva] at hmem'
  rw [← hret, hmem', List.append_nil, List.append_nil] at hmem
  rw [← hmem] at htext
  exact Option.some.inj ((isNumeral_shown conv w).parses.symm.trans htext.parses)

/-- A conversion prints the value of its argument if and only if its argument is not an unsigned
one of 32 bits with the sign bit set. -/
theorem printsValue_iff (conv : Conv) (w : UInt64) :
    PrintsValue conv w ↔
      (conv.bits = 32 ∧ conv.signed = false → w.toNat % 2 ^ 32 < 2 ^ 31) := by
  rw [← shown_eq_value_iff]
  refine ⟨PrintsValue.shown, fun heq => ?_⟩
  have hshown := isNumeral_shown conv w
  rw [heq] at hshown
  refine ⟨_, hshown, fun st mem destLen rest va out hva hout hroom => ?_⟩
  rw [← heq, ← hva] at hroom
  obtain ⟨r, hr, hret, hmem⟩ : ∃ r, snprintf st mem destLen (conv.format rest) va = .ok r ∧ _ :=
    snprintf_conv hout hroom
  rw [hva, heq] at hret hmem
  rw [hret] at hmem
  exact ⟨r, hr, hret, hmem⟩

/-- The argument 2 ^ 31 of `%u` is printed as the number 2 ^ 64 - 2 ^ 31. -/
theorem not_printsValue_u : ¬ PrintsValue .u 0x80000000 := by
  intro h
  have hclear := (shown_of_unsigned rfl 0x80000000).mp h.shown rfl
  exact absurd hclear (by decide)

end DzOS.Proofs.Common
