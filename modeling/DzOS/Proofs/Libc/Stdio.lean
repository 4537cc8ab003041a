import DzOS.Libc.Stdio
import DzOS.Proofs.Common.BoundedPrint

/-!
# `DzOS.Proofs.Libc.Stdio`: `vsnprintf` in a buffer that is too small

`printed` is the output of a format without a limit. Each of its bytes has the mark whether a number
printer prints it. `Reaches` is the invariant of the loop: the buffer has the output up to its last
byte. A number keeps it, because `sprint_int` and `sprint_ptr` stop at the last byte. The other
conversions store to the last byte too. Then `str` is behind the buffer, and so is the zero byte.

So the text is cut correctly if and only if number printers print all bytes of the output from the
last byte of the buffer on (`vsnprintf_truncates_iff`).
-/

set_option autoImplicit false

namespace DzOS.Proofs.Libc

open DzOS.Lib DzOS.Libc DzOS.Proofs.Common
open DzOS.Common hiding Item Fetch conversion parseItems parseFormat

variable {text : List UInt8}

/-! ### The local buffer -/

/-- The bytes of the buffer below an index, from the last one. -/
def readBack (buf : DigitBuf) : Nat → Except Nat (List UInt8)
  | 0 => .ok []
  | i + 1 => do
    let c ← buf.load i
    let rest ← readBack buf i
    return c :: rest

variable {buf buf' : DigitBuf} {i n : Nat} {t : List UInt8} {c : UInt8}

theorem store_of_lt (h : i < 64) : buf.store i c = .ok (buf.set i c h) := dif_pos h

theorem load_of_lt (h : i < 64) : buf.load i = .ok (buf.get ⟨i, h⟩) := dif_pos h

theorem load_of_ge (h : 64 ≤ i) : buf.load i = .error i := dif_neg (by omega)

theorem readBack_error (h : 64 < i) : readBack buf i = .error (i - 1) := by
  obtain ⟨j, rfl⟩ := Nat.exists_eq_add_one_of_ne_zero (by omega : i ≠ 0)
  exact bind_error (load_of_ge (by omega))

/-- A store at an index keeps the bytes below it. -/
theorem readBack_set_of_le (hn : n < 64) (h : i ≤ n) :
    readBack (buf.set n c hn) i = readBack buf i := by
  induction i with
  | zero => rfl
  | succ i ih =>
    have hload : DigitBuf.load (buf.set n c hn) i = buf.load i := by
      rw [load_of_lt (by omega), load_of_lt (by omega)]
      exact congrArg Except.ok (Vector.getElem_set_ne hn _ (by omega))
    rw [readBack, readBack, hload, ih (by omega)]

/-- A byte stored at an index is the first one below the next index. -/
theorem readBack_set_succ (hn : n < 64) (h : readBack buf n = .ok t) :
    readBack (buf.set n c hn) (n + 1) = .ok (c :: t) := by
  have hload : DigitBuf.load (buf.set n c hn) n = .ok c := by
    rw [load_of_lt hn]
    exact congrArg Except.ok (Vector.getElem_set_self hn)
  exact (bind_ok hload).trans (bind_ok ((readBack_set_of_le hn (Nat.le_refl n)).trans h))

/-- The buffer has only the digit 0 from an index on. -/
def ZerosFrom (buf : DigitBuf) (n : Nat) : Prop := ∀ (i : Nat) (h : i < 64), n ≤ i → buf[i] = ch '0'

theorem readBack_zeros (hzeros : ZerosFrom buf n) (h : readBack buf n = .ok t) :
    ∀ k, n + k ≤ 64 → readBack buf (n + k) = .ok (List.replicate k (ch '0') ++ t) := by
  intro k
  induction k with
  | zero => exact fun _ => h
  | succ k ih =>
    intro hk
    have hload : buf.load (n + k) = .ok (ch '0') := by
      rw [load_of_lt (by omega)]
      exact congrArg Except.ok (hzeros (n + k) (by omega) (by omega))
    exact (bind_ok hload).trans (bind_ok (ih (by omega)))

/-- The loop over the digits. -/
theorem storeDigits_spec {base fuel x : Nat} (hbase : 1 < base) (hx : x < base ^ fuel)
    (hfuel : 0 < fuel) (hfit : i + (lowDigits base x).length ≤ 64) (hzeros : ZerosFrom buf i)
    (h : readBack buf i = .ok t) :
    ∃ buf', storeDigits base fuel x buf i = .ok (buf', i + (lowDigits base x).length) ∧
      ZerosFrom buf' (i + (lowDigits base x).length) ∧
      readBack buf' (i + (lowDigits base x).length) =
        .ok (((lowDigits base x).map ioDigit).reverse ++ t) := by
  induction fuel generalizing x buf i t with
  | zero => omega
  | succ fuel ih =>
    have hpos := List.length_pos_of_ne_nil (lowDigits_ne_nil (b := base) (n := x))
    have hlt : i < 64 := by omega
    have hset := readBack_set_succ (c := ioDigit (x % base)) hlt h
    have hkeep : ZerosFrom (buf.set i (ioDigit (x % base)) hlt) (i + 1) := by
      intro j hj hij
      rw [Vector.getElem_set_ne hlt hj (by omega)]
      exact hzeros j hj (by omega)
    unfold storeDigits
    rw [bind_ok (store_of_lt hlt)]
    -- The digits go to ascending indices, so reading back reverses them.
    by_cases hmore : x / base ≠ 0
    · obtain ⟨hnext, hfuel'⟩ := div_lt_pow (by omega) hx hmore
      rw [lowDigits_step hbase hmore, List.length_cons] at hfit ⊢
      obtain ⟨buf', hrun, hzeros', hread⟩ := ih hnext hfuel' (by omega) hkeep hset
      have hlen : i + ((lowDigits base (x / base)).length + 1) =
          i + 1 + (lowDigits base (x / base)).length := by omega
      refine ⟨buf', ?_, ?_, ?_⟩
      · rw [if_pos hmore, hrun, hlen]
      · rw [hlen]
        exact hzeros'
      · rw [hlen, hread, List.map_cons, List.reverse_cons, List.append_assoc,
          List.singleton_append]
    · have hsmall : x < base := (Nat.div_eq_zero_iff_lt (by omega)).mp (not_not.mp hmore)
      rw [if_neg hmore, lowDigits_of_lt hsmall]
      rw [Nat.mod_eq_of_lt hsmall] at hset hkeep ⊢
      exact ⟨_, rfl, hkeep, hset⟩

/-- The text of `sprint_int`: the sign, the zeros in front, and the digits. -/
def paddedNumber (xx : Int) (base : Nat) (sign : Bool) (padding : Int) : List UInt8 :=
  (if isNegative xx sign then [ch '-'] else []) ++
    (List.replicate (padding.toNat - (lowDigits base (magnitude xx sign)).length) (ch '0') ++
      ((lowDigits base (magnitude xx sign)).map ioDigit).reverse)

/-- The padding and the sign fit in the buffer. -/
def PaddingFits (xx : Int) (sign : Bool) (padding : Int) : Prop :=
  padding + (if isNegative xx sign then 1 else 0) ≤ 64

instance (xx : Int) (sign : Bool) (padding : Int) : Decidable (PaddingFits xx sign padding) :=
  inferInstanceAs (Decidable (_ ≤ _))

variable {xx : Int} {base : Nat} {sign : Bool} {padding : Int}

/-- What `sprint_int` prints without a limit. -/
def intText (xx : Int) (base : Nat) (sign : Bool) (padding : Int) : Except Nat (List UInt8) := do
  let (buf, i) ← fillBuf xx base sign padding
  readBack buf i

/-- The buffer in front of the sign. -/
theorem fillBuf_digits (hxx : IsLongLong xx) (hbase : IsBase base) (sign : Bool) (padding : Int) :
    ∃ buf, fillBuf xx base sign padding =
        (if isNegative xx sign then do
          let buf ← DigitBuf.store buf
            (max (lowDigits base (magnitude xx sign)).length padding.toNat) (ch '-')
          return (buf, max (lowDigits base (magnitude xx sign)).length padding.toNat + 1)
        else .ok (buf, max (lowDigits base (magnitude xx sign)).length padding.toNat)) ∧
      ZerosFrom buf (lowDigits base (magnitude xx sign)).length ∧
      readBack buf (lowDigits base (magnitude xx sign)).length =
        .ok ((lowDigits base (magnitude xx sign)).map ioDigit).reverse := by
  have hlen := length_digits_le hxx hbase sign
  have hle : (lowDigits base (magnitude xx sign)).length ≤ 20 := by
    split at hlen
    · omega
    · exact hlen
  have hfuel : magnitude xx sign < base ^ 64 :=
    Nat.lt_of_lt_of_le (magnitude_lt xx sign) (Nat.pow_le_pow_left hbase.one_lt 64)
  have hzeros : ZerosFrom (Vector.replicate 64 (ch '0')) 0 :=
    fun i h _ => Vector.getElem_replicate h
  obtain ⟨buf, hrun, hbehind, hread⟩ := storeDigits_spec hbase.one_lt hfuel (by omega)
    (by omega) hzeros (t := []) rfl
  rw [Nat.zero_add] at hrun hbehind hread
  rw [List.append_nil] at hread
  exact ⟨buf, bind_ok hrun, hbehind, hread⟩

/-- The text of a number, when the padding fits. -/
theorem intText_eq (hxx : IsLongLong xx) (hbase : IsBase base) (h : PaddingFits xx sign padding) :
    intText xx base sign padding = .ok (paddedNumber xx base sign padding) := by
  obtain ⟨buf, hfill, hzeros, hread⟩ := fillBuf_digits hxx hbase sign padding
  have hlen := length_digits_le hxx hbase sign
  unfold PaddingFits at h
  rw [paddedNumber]
  generalize lowDigits base (magnitude xx sign) = digits at *
  have hmax : max digits.length padding.toNat =
      digits.length + (padding.toNat - digits.length) := by omega
  -- Behind the digits the buffer still has its zeros, and they are the padding.
  have hpad : digits.length + (padding.toNat - digits.length) ≤ 64 →
      readBack buf (max digits.length padding.toNat) =
        .ok (List.replicate (padding.toNat - digits.length) (ch '0') ++
          (digits.map ioDigit).reverse) := by
    rw [hmax]
    exact readBack_zeros hzeros hread _
  by_cases hneg : isNegative xx sign
  · rw [if_pos hneg] at h hlen hfill
    have hlt : max digits.length padding.toNat < 64 := by omega
    rw [bind_ok (store_of_lt hlt)] at hfill
    rw [if_pos hneg]
    exact (bind_ok hfill).trans (readBack_set_succ hlt (hpad (by omega)))
  · rw [if_neg hneg] at h hlen hfill
    rw [if_neg hneg]
    exact (bind_ok hfill).trans (hpad (by omega))

/-- Otherwise the buffer is overrun, by the store of the sign or when it is read. -/
theorem intText_overrun (hxx : IsLongLong xx) (hbase : IsBase base)
    (h : ¬ PaddingFits xx sign padding) :
    intText xx base sign padding =
      .error (if isNegative xx sign then padding.toNat else padding.toNat - 1) := by
  obtain ⟨buf, hfill, -, -⟩ := fillBuf_digits hxx hbase sign padding
  have hlen := length_digits_le hxx hbase sign
  unfold PaddingFits at h
  generalize lowDigits base (magnitude xx sign) = digits at *
  by_cases hneg : isNegative xx sign
  · rw [if_pos hneg] at h hlen hfill ⊢
    -- The digits always fit, so the padding is what is too long.
    have hmax : max digits.length padding.toNat = padding.toNat := by omega
    have hstore : DigitBuf.store buf padding.toNat (ch '-') = .error padding.toNat :=
      dif_neg (by omega)
    rw [hmax, bind_error hstore] at hfill
    exact bind_error hfill
  · rw [if_neg hneg] at h hlen hfill ⊢
    have hmax : max digits.length padding.toNat = padding.toNat := by omega
    rw [hmax] at hfill
    exact (bind_ok hfill).trans (readBack_error (by omega))

/-! ### The output without a limit -/

/-- A byte of the output, and whether it is printed by `sprint_int` or `sprint_ptr`. -/
structure Printed where
  byte : UInt8
  number : Bool
  deriving DecidableEq, Repr

/-- The bytes of one conversion. -/
def marked (number : Bool) (bytes : List UInt8) : List Printed := bytes.map fun b => ⟨b, number⟩

/-- The output of an item, and the arguments behind it. -/
def itemText (va : VaList) : Item → Except Nat (List Printed × VaList)
  | .literal cx => .ok (marked false [cx], va)
  | .decimal type sign padding => do
    let text ← intText (fetch va type) 10 sign padding
    return (marked true text, va.nextWord)
  | .hex type => do
    let text ← intText (fetch va type) 16 false 0
    return (marked true text, va.nextWord)
  | .pointer => .ok (marked true (pointerText (va.word 0)), va.nextWord)
  | .string => .ok (marked false va.fetchString, va.nextWord)
  | .percent => .ok (marked false [ch '%'], va)
  | .char => .ok (marked false [(va.word 0).toUInt8], va.nextWord)
  | .unknown c0 => .ok (marked false [ch '%', c0], va)

/-- The output of a list of items. -/
def printed : VaList → List Item → Except Nat (List Printed)
  | _, [] => .ok []
  | va, item :: items => do
    let (out, va) ← itemText va item
    let rest ← printed va items
    return out ++ rest

/-- The arguments behind an item. -/
def behind (va : VaList) : Item → VaList
  | .literal _ | .percent | .unknown _ => va
  | _ => va.nextWord

/-- The padding of an item fits in the buffer of `sprint_int`. -/
def ItemFits (va : VaList) : Item → Prop
  | .decimal type sign padding => PaddingFits (fetch va type) sign padding
  | _ => True

/-- The paddings of the items fit, each with its own argument. -/
def PaddingsFit : VaList → List Item → Prop
  | _, [] => True
  | va, item :: items => ItemFits va item ∧ PaddingsFit (behind va item) items

variable {va va' : VaList} {item : Item} {items : List Item}

theorem isLongLong_fetch (va : VaList) (type : Fetch) : IsLongLong (fetch va type) := by
  cases type with
  | int => exact isLongLong_toInt _
  | unsignedInt =>
    have hlt : (va.word 0).toNat % 2 ^ 32 < 2 ^ 32 := Nat.mod_lt _ (by norm_num)
    change IsLongLong ((va.word 0).toNat % 2 ^ 32 : Nat)
    unfold IsLongLong
    omega
  | long => exact isLongLong_toLongLong _

/-- A number is printed if and only if its padding fits. -/
theorem intText_ok_iff (hxx : IsLongLong xx) (hbase : IsBase base) :
    (∃ text, intText xx base sign padding = .ok text) ↔ PaddingFits xx sign padding := by
  constructor
  · rintro ⟨text, htext⟩
    by_contra hfit
    cases htext.symm.trans (intText_overrun hxx hbase hfit)
  · intro hfit
    exact ⟨_, intText_eq hxx hbase hfit⟩

/-- The numbers that are not padded always fit. -/
theorem intText_hex_ok (va : VaList) (type : Fetch) :
    ∃ text, intText (fetch va type) 16 false 0 = .ok text :=
  (intText_ok_iff (isLongLong_fetch va type) (.inr rfl)).mpr (show (0 : Int) + 0 ≤ 64 by decide)

/-- An item is printed if and only if its padding fits. -/
theorem itemText_ok_iff : (∃ r, itemText va item = .ok r) ↔ ItemFits va item := by
  cases item with
  | decimal type sign padding =>
    refine Iff.trans ⟨?_, ?_⟩ (intText_ok_iff (isLongLong_fetch va type) (.inl rfl))
    · rintro ⟨r, hr⟩
      obtain ⟨text, htext, -⟩ := bind_eq_ok.mp hr
      exact ⟨text, htext⟩
    · rintro ⟨text, htext⟩
      exact ⟨_, bind_ok htext⟩
  | hex type =>
    obtain ⟨text, htext⟩ := intText_hex_ok va type
    exact ⟨fun _ => trivial, fun _ => ⟨_, bind_ok htext⟩⟩
  | _ => exact ⟨fun _ => trivial, fun _ => ⟨_, rfl⟩⟩

/-- The arguments behind an item that is printed. -/
theorem behind_of_itemText {out : List Printed} (h : itemText va item = .ok (out, va')) :
    va' = behind va item := by
  cases item with
  | decimal type sign padding =>
    obtain ⟨text, -, h⟩ := bind_eq_ok.mp h
    cases h
    rfl
  | hex type =>
    obtain ⟨text, -, h⟩ := bind_eq_ok.mp h
    cases h
    rfl
  | _ =>
    cases h
    rfl

/-- The items are printed if and only if their paddings fit. -/
theorem printed_ok_iff : (∃ out, printed va items = .ok out) ↔ PaddingsFit va items := by
  induction items generalizing va with
  | nil => exact ⟨fun _ => trivial, fun _ => ⟨[], rfl⟩⟩
  | cons item items ih =>
    constructor
    · rintro ⟨out, hout⟩
      obtain ⟨⟨text, va'⟩, htext, hout⟩ := bind_eq_ok.mp hout
      obtain ⟨rest, hrest, -⟩ := bind_eq_ok.mp hout
      obtain rfl := behind_of_itemText htext
      exact ⟨itemText_ok_iff.mp ⟨_, htext⟩, ih.mp ⟨rest, hrest⟩⟩
    · rintro ⟨hitem, hitems⟩
      obtain ⟨⟨text, va'⟩, htext⟩ := itemText_ok_iff.mpr hitem
      obtain rfl := behind_of_itemText htext
      obtain ⟨rest, hrest⟩ := ih.mpr hitems
      exact ⟨_, (bind_ok htext).trans (bind_ok hrest)⟩

/-! ### The cursor -/

/-- The buffer has the output `done` up to its last byte `e`, and `str` is behind it. -/
structure Reaches (mem : Bytes) (e : Nat) (done : List Printed) (d : Dest) : Prop where
  str : d.str = min e done.length
  mem : d.mem = mem.blit 0 ((done.take e).map Printed.byte)

variable {mem : Bytes} {e : Nat} {done out : List Printed} {d : Dest} {b : Printed}

theorem Reaches.le (h : Reaches mem e done d) : d.str ≤ e := h.str ▸ Nat.min_le_left _ _

/-- Before the last byte, a byte is stored behind the output. -/
theorem Reaches.put (h : Reaches mem e done d) (hroom : d.str ≠ e) :
    Reaches mem e (done ++ [b]) (d.put b.byte) := by
  have hlt : done.length < e := by
    have := h.str
    omega
  have hstr : d.str = done.length := h.str.trans (Nat.min_eq_right hlt.le)
  refine ⟨?_, ?_⟩
  · rw [List.length_append, List.length_singleton, Nat.min_eq_right (by omega)]
    exact congrArg (· + 1) hstr
  · have htake : (done ++ [b]).take e = done ++ [b] :=
      List.take_of_length_le (by rw [List.length_append, List.length_singleton]; omega)
    have hdone : done.take e = done := List.take_of_length_le hlt.le
    have hmem := h.mem
    rw [hdone] at hmem
    rw [htake, List.map_append, List.map_singleton, Bytes.blit_append_singleton, ← hmem,
      List.length_map, ← hstr]
    rfl

/-- At the last byte, the rest of the output is left out. -/
theorem Reaches.full (h : Reaches mem e done d) (hfull : d.str = e) (out : List Printed) :
    Reaches mem e (done ++ out) d := by
  have hge : e ≤ done.length := by
    have := h.str
    omega
  refine ⟨?_, ?_⟩
  · rw [List.length_append, Nat.min_eq_left (by omega)]
    exact hfull
  · rw [List.take_append_of_le_length hge]
    exact h.mem

theorem marked_cons (number : Bool) (c : UInt8) (text : List UInt8) :
    marked number (c :: text) = [⟨c, number⟩] ++ marked number text := rfl

/-- The loop of `sprint_int` prints the buffer from the last byte. -/
theorem sprintBuf_reaches (h : Reaches mem e done d) (htext : readBack buf i = .ok text) :
    ∃ d', sprintBuf e buf i d = .ok d' ∧ Reaches mem e (done ++ marked true text) d' := by
  induction i generalizing done d text with
  | zero =>
    cases htext
    exact ⟨d, rfl, by rw [marked, List.map_nil, List.append_nil]; exact h⟩
  | succ i ih =>
    unfold sprintBuf
    obtain ⟨c, hc, htext⟩ := bind_eq_ok.mp htext
    obtain ⟨rest, hrest, htext⟩ := bind_eq_ok.mp htext
    cases htext
    by_cases hroom : d.str ≠ e
    · obtain ⟨d', hd', hreach⟩ := ih (h.put (b := ⟨c, true⟩) hroom) hrest
      rw [List.append_assoc, ← marked_cons] at hreach
      rw [if_pos hroom]
      exact ⟨d', (bind_ok hc).trans hd', hreach⟩
    · rw [if_neg hroom]
      exact ⟨d, rfl, h.full (not_not.mp hroom) _⟩

/-- `sprint_int`. -/
theorem sprintInt_reaches (h : Reaches mem e done d)
    (htext : intText xx base sign padding = .ok text) :
    ∃ d', sprintInt e d xx base sign padding = .ok d' ∧
      Reaches mem e (done ++ marked true text) d' := by
  obtain ⟨⟨buf, i⟩, hfill, htext⟩ := bind_eq_ok.mp htext
  obtain ⟨d', hd', hreach⟩ := sprintBuf_reaches h htext
  exact ⟨d', (bind_ok hfill).trans hd', hreach⟩

/-- The digits of a pointer. -/
theorem sprintPtrDigits_reaches (h : Reaches mem e done d) (n : Nat) (x : UInt64) :
    Reaches mem e (done ++ marked true (pointerDigits n x)) (sprintPtrDigits e n x d) := by
  induction n generalizing done d x with
  | zero =>
    rw [pointerDigits, marked, List.map_nil, List.append_nil]
    exact h
  | succ n ih =>
    unfold sprintPtrDigits
    rw [pointerDigits]
    by_cases hroom : d.str ≠ e
    · rw [if_pos hroom, marked_cons, ← List.append_assoc]
      exact ih (h.put (b := ⟨ioDigit (x >>> 60).toNat, true⟩) hroom) _
    · rw [if_neg hroom]
      exact h.full (not_not.mp hroom) _

/-- `sprint_ptr`. -/
theorem sprintPtr_reaches (h : Reaches mem e done d) (x : UInt64) :
    Reaches mem e (done ++ marked true (pointerText x)) (sprintPtr e d x) := by
  unfold sprintPtr
  dsimp only
  rw [show marked true (pointerText x) =
    [⟨ch '0', true⟩] ++ ([⟨ch 'x', true⟩] ++ marked true (pointerDigits 16 x)) from rfl]
  by_cases hroom : d.str = e
  · rw [if_pos hroom]
    exact h.full hroom _
  · have hzero := h.put (b := ⟨ch '0', true⟩) hroom
    rw [if_neg hroom, ← List.append_assoc]
    by_cases hroom' : (d.put (ch '0')).str = e
    · rw [if_pos hroom']
      exact hzero.full hroom' _
    · rw [if_neg hroom', ← List.append_assoc]
      exact sprintPtrDigits_reaches (hzero.put (b := ⟨ch 'x', true⟩) hroom') 16 x

/-! ### The other conversions -/

/-- A run of bytes is stored when it ends before the last byte. -/
theorem putAll_reaches (h : Reaches mem e done d)
    (hfit : text = [] ∨ done.length + text.length ≤ e) :
    Reaches mem e (done ++ marked false text) (d.putAll e text) := by
  induction text generalizing done d with
  | nil =>
    rw [marked, List.map_nil, List.append_nil]
    exact h
  | cons c text ih =>
    have hlen : done.length + (text.length + 1) ≤ e := hfit.resolve_left (List.cons_ne_nil c text)
    have hstr := h.str
    have hput : d.putWithin e c = d.put c := if_pos h.le
    rw [Dest.putAll, hput, marked_cons, ← List.append_assoc]
    refine ih (h.put (b := ⟨c, false⟩) (by omega)) (.inr ?_)
    rw [List.length_append, List.length_singleton]
    omega

/-- Behind the last byte nothing is stored. -/
theorem putAll_of_behind (h : d.str = e + 1) : d.putAll e text = d := by
  induction text with
  | nil => rfl
  | cons c text ih =>
    have hput : d.putWithin e c = d := if_neg (by omega)
    rw [Dest.putAll, hput, ih]

/-- Otherwise the last byte is stored too, and `str` is behind the buffer. -/
theorem putAll_behind (h : Reaches mem e done d) (hne : text ≠ [])
    (hlong : e < done.length + text.length) : (d.putAll e text).str = e + 1 := by
  induction text generalizing done d with
  | nil => exact absurd rfl hne
  | cons c text ih =>
    have hput : d.putWithin e c = d.put c := if_pos h.le
    rw [Dest.putAll, hput]
    by_cases hroom : d.str = e
    · have hbehind : (d.put c).str = e + 1 := congrArg (· + 1) hroom
      rw [putAll_of_behind hbehind, hbehind]
    · have hstr := h.str
      rw [List.length_cons] at hlong
      have hnext := h.put (b := ⟨c, false⟩) hroom
      have hlong' : e < (done ++ [(⟨c, false⟩ : Printed)]).length + text.length := by
        rw [List.length_append, List.length_singleton]
        omega
      refine ih hnext ?_ hlong'
      rintro rfl
      rw [List.length_append, List.length_singleton, List.length_nil] at hlong'
      omega

/-! ### A run -/

/-- Number printers print all bytes of `out` from the last byte `e` on, where `done` is in front. -/
def NumbersFrom (e : Nat) (done out : List Printed) : Prop :=
  ∀ b ∈ out.drop (e - done.length), b.number = true

theorem numbersFrom_marked_true (text : List UInt8) : NumbersFrom e done (marked true text) := by
  intro b hb
  obtain ⟨c, -, rfl⟩ := List.mem_map.mp (List.mem_of_mem_drop hb)
  rfl

theorem numbersFrom_marked_false :
    NumbersFrom e done (marked false text) ↔ text = [] ∨ done.length + text.length ≤ e := by
  have hlen : (marked false text).length = text.length := List.length_map _
  constructor
  · intro h
    rcases Nat.lt_or_ge (e - done.length) text.length with hlt | hge
    · have hmem : (marked false text)[e - done.length] ∈
          (marked false text).drop (e - done.length) := by
        rw [List.drop_eq_getElem_cons (by omega)]
        exact List.mem_cons_self
      have hfalse : (marked false text)[e - done.length].number = false := by
        unfold marked
        rw [List.getElem_map]
      cases hfalse.symm.trans (h _ hmem)
    · rcases text with _ | ⟨c, text⟩
      · exact .inl rfl
      · rw [List.length_cons] at hge ⊢
        exact .inr (by omega)
  · intro h b hb
    rw [List.drop_of_length_le] at hb
    · cases hb
    · rcases h with rfl | h
      · exact Nat.zero_le _
      · omega

theorem numbersFrom_append {rest : List Printed} : NumbersFrom e done (out ++ rest) ↔
    NumbersFrom e done out ∧ NumbersFrom e (done ++ out) rest := by
  have hoff : e - done.length - out.length = e - (done ++ out).length := by
    rw [List.length_append]
    omega
  unfold NumbersFrom
  rw [List.drop_append, List.forall_mem_append, hoff]

/-- A turn that stores a run of bytes. -/
theorem putAll_step (h : Reaches mem e done d) (text : List UInt8) :
    (NumbersFrom e done (marked false text) →
      Reaches mem e (done ++ marked false text) (d.putAll e text)) ∧
    (¬ NumbersFrom e done (marked false text) → (d.putAll e text).str = e + 1) := by
  rw [numbersFrom_marked_false, not_or]
  exact ⟨putAll_reaches h, fun hlong => putAll_behind h hlong.1 (by omega)⟩

/-- A turn that prints a number. -/
theorem number_step (h : Reaches mem e done d)
    (htext : (do
      let text ← intText xx base sign padding
      return (marked true text, va.nextWord) : Except Nat (List Printed × VaList)) =
        .ok (out, va')) :
    ∃ d', (do
        let d ← sprintInt e d xx base sign padding
        return (d, va.nextWord) : Except Nat (Dest × VaList)) = .ok (d', va') ∧
      (NumbersFrom e done out → Reaches mem e (done ++ out) d') ∧
      (¬ NumbersFrom e done out → d'.str = e + 1) := by
  obtain ⟨text, hint, htext⟩ := bind_eq_ok.mp htext
  cases htext
  obtain ⟨d', hd', hreach⟩ := sprintInt_reaches h hint
  exact ⟨d', bind_ok hd', fun _ => hreach, fun hnot => absurd (numbersFrom_marked_true _) hnot⟩

/-- A turn keeps the invariant, or `str` is behind the buffer. -/
theorem vsnprintfItem_step (h : Reaches mem e done d) (htext : itemText va item = .ok (out, va')) :
    ∃ d', vsnprintfItem e d va item = .ok (d', va') ∧
      (NumbersFrom e done out → Reaches mem e (done ++ out) d') ∧
      (¬ NumbersFrom e done out → d'.str = e + 1) := by
  cases item with
  | literal cx =>
    cases htext
    have hput : d.put cx = d.putAll e [cx] := (if_pos h.le).symm
    exact ⟨_, congrArg (fun d' => Except.ok (d', va)) hput, putAll_step h [cx]⟩
  | decimal type sign padding => exact number_step h htext
  | hex type => exact number_step h htext
  | pointer =>
    cases htext
    exact ⟨_, rfl, fun _ => sprintPtr_reaches h _,
      fun hnot => absurd (numbersFrom_marked_true _) hnot⟩
  | string =>
    cases htext
    exact ⟨_, rfl, putAll_step h _⟩
  | percent =>
    cases htext
    exact ⟨_, rfl, putAll_step h [ch '%']⟩
  | char =>
    cases htext
    exact ⟨_, rfl, putAll_step h [(va.word 0).toUInt8]⟩
  | unknown c0 =>
    cases htext
    exact ⟨_, rfl, putAll_step h [ch '%', c0]⟩

/-- Behind the buffer the loop stops. -/
theorem vsnprintfItems_of_behind (h : d.str = e + 1) : vsnprintfItems e d va items = .ok d := by
  cases items with
  | nil => rfl
  | cons item items => exact if_neg (by omega)

/-- A run keeps the invariant, or ends behind the buffer. -/
theorem vsnprintfItems_run (h : Reaches mem e done d) (hout : printed va items = .ok out) :
    ∃ d', vsnprintfItems e d va items = .ok d' ∧
      (NumbersFrom e done out → Reaches mem e (done ++ out) d') ∧
      (¬ NumbersFrom e done out → d'.str = e + 1) := by
  induction items generalizing d va done out with
  | nil =>
    cases hout
    refine ⟨d, rfl, fun _ => ?_, fun hnot => absurd (fun b hb => ?_) hnot⟩
    · rw [List.append_nil]
      exact h
    · rw [List.drop_nil] at hb
      cases hb
  | cons item items ih =>
    obtain ⟨⟨text, va'⟩, htext, hout⟩ := bind_eq_ok.mp hout
    obtain ⟨rest, hrest, hout⟩ := bind_eq_ok.mp hout
    cases hout
    obtain ⟨d₁, hd₁, hkeep, hbehind⟩ := vsnprintfItem_step h htext
    have hturn : vsnprintfItems e d va (item :: items) = vsnprintfItems e d₁ va' items :=
      (if_pos h.le).trans (bind_ok hd₁)
    rw [hturn, numbersFrom_append]
    -- An item that is not a number and reaches the last byte ends the loop, with `str` behind the
    -- buffer. After any other item the invariant still holds.
    by_cases hnumbers : NumbersFrom e done text
    · obtain ⟨d', hd', hreach, hout⟩ := ih (hkeep hnumbers) hrest
      rw [List.append_assoc] at hreach
      exact ⟨d', hd', fun hall => hreach hall.2,
        fun hnot => hout fun hlast => hnot ⟨hnumbers, hlast⟩⟩
    · exact ⟨d₁, vsnprintfItems_of_behind (hbehind hnumbers),
        fun hall => absurd hall.1 hnumbers, fun _ => hbehind hnumbers⟩

/-! ### The function -/

/-- `vsnprintf` stores into the buffer only, and leaves there as much of the output as fits with a
zero byte behind it, whatever the memory was before. -/
def Truncates (size : Nat) (fmt : CString) (va : VaList) : Prop :=
  ∃ out, printed va (parseFormat fmt) = .ok out ∧
    ∀ mem : Bytes, ∃ mem', vsnprintf mem size fmt va = .ok mem' ∧
      (∀ i, size ≤ i → mem' i = mem i) ∧
      (∀ (i : Nat) (h : i < out.length), i < size - 1 → mem' i = out[i].byte) ∧
      mem' (min (size - 1) out.length) = 0

variable {size : Nat} {fmt : CString}

/-- The memory after a run. -/
theorem vsnprintf_run (hsize : 1 ≤ size) (hout : printed va (parseFormat fmt) = .ok out)
    (mem : Bytes) :
    ∃ d, vsnprintf mem size fmt va = .ok (d.mem.set d.str 0) ∧
      (NumbersFrom (size - 1) [] out → Reaches mem (size - 1) out d) ∧
      (¬ NumbersFrom (size - 1) [] out → d.str = size) := by
  have hstart : Reaches mem (size - 1) [] ⟨mem, 0⟩ := by
    refine ⟨(Nat.min_zero _).symm, ?_⟩
    rw [List.take_nil, List.map_nil, Bytes.blit_nil]
  obtain ⟨d, hd, hreach, hbehind⟩ := vsnprintfItems_run hstart hout
  have hrun : vsnprintf mem size fmt va = .ok (d.mem.set d.str 0) :=
    (if_neg (by omega)).trans (bind_ok hd)
  rw [Nat.sub_add_cancel hsize] at hbehind
  exact ⟨d, hrun, hreach, hbehind⟩

/-- The text is cut correctly if and only if the paddings fit in the local buffer, and number
printers print all bytes of the output from the last byte of the buffer on. -/
theorem vsnprintf_truncates_iff (hsize : 1 ≤ size) :
    Truncates size fmt va ↔ PaddingsFit va (parseFormat fmt) ∧
      ∀ out, printed va (parseFormat fmt) = .ok out →
        ∀ b ∈ out.drop (size - 1), b.number = true := by
  constructor
  · rintro ⟨out, hout, hstores⟩
    refine ⟨printed_ok_iff.mp ⟨out, hout⟩, fun out' hout' => ?_⟩
    obtain rfl : out = out' := Except.ok.inj (hout.symm.trans hout')
    by_contra hnot
    obtain ⟨d, hd, -, hbehind⟩ := vsnprintf_run hsize hout fun _ => 1
    obtain ⟨mem', hmem', houtside, -⟩ := hstores fun _ => 1
    obtain rfl : d.mem.set d.str 0 = mem' := Except.ok.inj (hd.symm.trans hmem')
    -- The zero byte is stored behind the buffer.
    have hone := houtside size (Nat.le_refl size)
    rw [hbehind hnot] at hone
    rw [show d.mem.set size 0 size = 0 from if_pos rfl] at hone
    cases hone
  · rintro ⟨hfits, hnumbers⟩
    obtain ⟨out, hout⟩ := printed_ok_iff.mpr hfits
    refine ⟨out, hout, fun mem => ?_⟩
    obtain ⟨d, hd, hreach, -⟩ := vsnprintf_run hsize hout mem
    obtain ⟨hstr, hmem⟩ := hreach (hnumbers out hout)
    have hlen : ((out.take (size - 1)).map Printed.byte).length = min (size - 1) out.length := by
      rw [List.length_map, List.length_take]
    refine ⟨_, hd, fun i hi => ?_, fun i h hi => ?_, ?_⟩
    · have hne : i ≠ d.str := by omega
      rw [show d.mem.set d.str 0 i = d.mem i from if_neg hne, hmem]
      exact Bytes.blit_of_apart (.inr (by omega))
    · have hne : i ≠ d.str := by omega
      rw [show d.mem.set d.str 0 i = d.mem i from if_neg hne, hmem,
        Bytes.blit_of_mem (Nat.zero_le i) (by omega), List.getElem_map]
      exact congrArg Printed.byte List.getElem_take
    · exact if_pos hstr.symm

/-- A format with a number at its end. -/
def numberFormat : CString := ⟨Common.text "n=%d", by decide⟩

/-- The number is cut. -/
theorem vsnprintf_truncates_iff_number : Truncates 3 numberFormat zeroArgs := by
  have hpadding : PaddingFits (toInt 0) true 0 := by decide
  refine (vsnprintf_truncates_iff (by decide)).mpr
    ⟨⟨trivial, trivial, hpadding, trivial⟩, fun out hout => ?_⟩
  obtain rfl : marked false [0x6e, 0x3d] ++ marked true [0x30] = out := Except.ok.inj hout
  decide

/-- A format without a conversion. -/
def literalFormat : CString := ⟨Common.text "abc", by decide⟩

/-- In a buffer of three bytes the zero byte is stored behind the buffer. -/
theorem not_truncates_literal : ¬ Truncates 3 literalFormat zeroArgs := by
  rintro ⟨out, -, hstores⟩
  obtain ⟨mem', hmem', houtside, -⟩ := hstores fun _ => 1
  have hone := houtside 3 (Nat.le_refl 3)
  rw [← Except.ok.inj hmem'] at hone
  revert hone
  decide

end DzOS.Proofs.Libc
