import DzOS.Proofs.Common.BoundedPrint

/-!
# `DzOS.Proofs.Common.Snprintf`: what `snprintf` leaves in its buffer

`snprintf` stores the text up to the room in the buffer, and nothing behind it (`snprintf_eq`). It
stores no zero byte: neither the text has one (`nonzero_kprintItems`), nor does the function add
one. So the buffer holds a string only if its byte behind the text was zero before
(`terminated_iff`).
-/

set_option autoImplicit false

namespace DzOS.Proofs.Common

open DzOS.Lib DzOS.Common

/-! ### No zero byte is printed -/

theorem nonzero_pfDigit {d : ℕ} (h : d < 16) : pfDigit d ≠ 0 := by
  have hall : ∀ d < 16, pfDigit d ≠ 0 := by decide
  exact hall d h

theorem nonzero_append {xs ys : List UInt8} (hx : (0 : UInt8) ∉ xs) (hy : (0 : UInt8) ∉ ys) :
    (0 : UInt8) ∉ xs ++ ys := by
  rw [List.mem_append]
  exact fun h => h.elim hx hy

theorem nonzero_numberText {xx : Int} {base : ℕ} {sign : Bool} (hbase : IsBase base) :
    (0 : UInt8) ∉ numberText xx base sign := by
  refine nonzero_append (fun h => ?_) ?_
  · obtain ⟨d, hd, hzero⟩ := List.mem_map.mp h
    have hlt := lt_of_mem_lowDigits hbase.one_lt hd
    refine nonzero_pfDigit ?_ hzero
    rcases hbase with rfl | rfl
    · omega
    · exact hlt
  · split
    · decide
    · decide

theorem nonzero_colors (st : PrintState) :
    (0 : UInt8) ∉ st.colorOn ∧ (0 : UInt8) ∉ st.colorOff := by
  obtain ⟨printColored, cTimePrint⟩ := st
  revert printColored cTimePrint
  decide

theorem nonzero_colored (st : PrintState) {body : List UInt8} (h : (0 : UInt8) ∉ body) :
    (0 : UInt8) ∉ st.colorOn ++ body ++ st.colorOff :=
  nonzero_append (nonzero_append (nonzero_colors st).1 h) (nonzero_colors st).2

theorem nonzero_kprintBuf (st : PrintState) {buf : List UInt8} (h : (0 : UInt8) ∉ buf) :
    (0 : UInt8) ∉ kprintBuf st buf :=
  nonzero_colored st fun hmem => h (List.mem_reverse.mp hmem)

theorem nonzero_pointerDigits (n : ℕ) (x : UInt64) : (0 : UInt8) ∉ pointerDigits n x := by
  induction n generalizing x with
  | zero => exact List.not_mem_nil
  | succ n ih =>
    unfold pointerDigits
    rw [List.mem_cons, not_or]
    refine ⟨fun hzero => nonzero_pfDigit ?_ hzero.symm, ih _⟩
    have hx := x.toNat_lt
    have hshift : (x >>> 60).toNat = x.toNat / 2 ^ 60 := by
      rw [UInt64.toNat_shiftRight, Nat.shiftRight_eq_div_pow]
      rfl
    omega

theorem nonzero_pointerText (x : UInt64) : (0 : UInt8) ∉ pointerText x :=
  nonzero_append (by decide) (nonzero_pointerDigits 16 x)

theorem nonzero_fractionText (f : FloatArg) : (0 : UInt8) ∉ fractionText f := by
  unfold fractionText
  rw [List.mem_cons, not_or]
  refine ⟨by decide, fun h => ?_⟩
  obtain ⟨digit, -, hzero⟩ := List.mem_map.mp h
  revert digit
  decide

variable {st : PrintState} {va va' : VaList} {item : Item} {text : List UInt8}

/-- The text of an item has no zero byte. -/
theorem nonzero_kprintItem (hitem : IsItem item) (h : kprintItem st va item = .ok (text, va')) :
    (0 : UInt8) ∉ text := by
  cases item with
  | char c =>
    cases h
    exact fun hmem => hitem (List.mem_singleton.mp hmem).symm
  | integer type base sign =>
    obtain ⟨buf, hbuf, h⟩ := bind_eq_ok.mp h
    cases h
    rw [digitBuf_eq (isLongLong_fetch va type) hitem] at hbuf
    cases hbuf
    exact nonzero_kprintBuf st (nonzero_numberText hitem)
  | padded type base width pad =>
    obtain ⟨buf, hbuf, h⟩ := bind_eq_ok.mp h
    cases h
    rw [digitBufPadded_eq (isLongLong_fetch va type) hitem.1 false width pad] at hbuf
    split at hbuf
    · cases hbuf
      refine nonzero_kprintBuf st (nonzero_append (nonzero_numberText hitem.1) fun hmem => ?_)
      exact hitem.2 (List.eq_of_mem_replicate hmem).symm
    · cases hbuf
  | pointer =>
    cases h
    exact nonzero_colored st (nonzero_pointerText _)
  | string =>
    cases h
    unfold VaList.fetchString
    split
    · decide
    · exact CString.nonzero _
  | float =>
    obtain ⟨out, hout, h⟩ := bind_eq_ok.mp h
    cases h
    obtain ⟨buf, hbuf, hout⟩ := bind_eq_ok.mp hout
    cases hout
    have hten : IsBase 10 := .inl rfl
    have hnumber : (0 : UInt8) ∉ numberText (toLongLong (va.float 0).intPart) 10 false :=
      nonzero_numberText hten
    rw [Except.ok.inj ((digitBuf_eq (isLongLong_toLongLong _) hten).symm.trans hbuf)] at hnumber
    refine nonzero_append (nonzero_append ?_ (nonzero_kprintBuf st hnumber))
      (nonzero_colored st (nonzero_fractionText _))
    split
    · decide
    · decide
  | unknown c0 =>
    cases h
    rw [List.mem_cons, List.mem_singleton, not_or]
    exact ⟨by decide, fun hzero => hitem hzero.symm⟩

/-- The text of a format has no zero byte. -/
theorem nonzero_kprintItems {items : List Item} (hitems : ∀ item ∈ items, IsItem item)
    (h : kprintItems st va items = .ok text) : (0 : UInt8) ∉ text := by
  induction items generalizing va text with
  | nil =>
    cases h
    exact List.not_mem_nil
  | cons item items ih =>
    obtain ⟨hitem, hrest⟩ := List.forall_mem_cons.mp hitems
    obtain ⟨⟨head, va'⟩, hhead, htail⟩ := bind_eq_ok.mp h
    obtain ⟨rest, hrest', htail⟩ := bind_eq_ok.mp htail
    cases htail
    exact nonzero_append (nonzero_kprintItem hitem hhead) (ih hrest hrest')

/-! ### The buffer -/

/-- The printing without colors, which `snprintf` uses. -/
def plain (st : PrintState) : PrintState := { st with printColored := false }

/-- The memory holds the string from its start on. -/
structure HoldsString (mem : Bytes) (string : List UInt8) : Prop where
  bytes : ∀ (i : ℕ) (h : i < string.length), mem i = string[i]
  nonzero : (0 : UInt8) ∉ string
  nul : mem string.length = 0

/-- `snprintf` stays inside its buffer, leaves there as much of the text as fits with a zero byte
behind it, and has the colors as before. -/
def Terminated (st : PrintState) (mem : Bytes) (destLen : Int) (fmt : CString) (va : VaList) :
    Prop :=
  ∃ r text, snprintf st mem destLen fmt va = .ok r ∧ kvprintf (plain st) fmt va = .ok text ∧
    (∀ i : ℕ, destLen ≤ i → r.mem i = mem i) ∧
    HoldsString r.mem (text.take (destLen - 1).toNat) ∧ r.state = st

variable {mem : Bytes} {destLen : Int} {fmt : CString}

/-- `snprintf` stores the text up to the room in the buffer. -/
theorem snprintf_eq (h : kvprintf (plain st) fmt va = .ok text) :
    snprintf st mem destLen fmt va =
      .ok ⟨min destLen.toNat text.length, mem.blit 0 (text.take destLen.toNat), st⟩ := by
  obtain ⟨s', hs', hmem⟩ := cvprintf_eq (s := ⟨mem, some destLen⟩) h
  have hrun : snprintf st mem destLen fmt va = .ok ⟨min destLen.toNat text.length, s'.mem, st⟩ :=
    bind_ok hs'
  rw [hrun, hmem]
  rfl

/-- The string is terminated if and only if no digit buffer is overrun, the text leaves a byte of
the buffer, and this byte was zero before. -/
theorem terminated_iff (hlen : 1 ≤ destLen) :
    Terminated st mem destLen fmt va ↔ (∀ item ∈ parseFormat fmt, FitsBuffer item) ∧
      ∀ text, kvprintf (plain st) fmt va = .ok text →
        (text.length : Int) < destLen ∧ mem text.length = 0 := by
  have hfits := kprintItems_ok_iff (plain st) va (isItem_parseFormat fmt)
  constructor
  · rintro ⟨r, text, hr, htext, -, hstring, -⟩
    refine ⟨hfits.mp ⟨text, htext⟩, fun text' htext' => ?_⟩
    obtain rfl : text = text' := Except.ok.inj (htext.symm.trans htext')
    have hnonzero := nonzero_kprintItems (isItem_parseFormat fmt) htext
    have hnul := hstring.nul
    rw [Except.ok.inj (hr.symm.trans (snprintf_eq htext)), List.length_take] at hnul
    dsimp only at hnul
    have hlt : (text.length : Int) < destLen := by
      by_contra hge
      -- The last byte of the buffer is a byte of the text.
      have hmin : min (destLen - 1).toNat text.length = (destLen - 1).toNat := by omega
      have hin : (destLen - 1).toNat < (text.take destLen.toNat).length := by
        rw [List.length_take]
        omega
      rw [hmin, Bytes.blit_of_mem (Nat.zero_le _) (by rw [Nat.zero_add]; exact hin)] at hnul
      exact hnonzero (List.mem_of_mem_take (hnul ▸ List.getElem_mem _))
    have hmin : min (destLen - 1).toNat text.length = text.length := by omega
    -- The byte behind the text is not written, so the zero was there before.
    have hbehind : 0 + (text.take destLen.toNat).length ≤ text.length := by
      rw [List.length_take]
      omega
    rw [hmin, Bytes.blit_of_apart (.inr hbehind)] at hnul
    exact ⟨hlt, hnul⟩
  · rintro ⟨hwidths, hbefore⟩
    obtain ⟨text, htext⟩ := hfits.mpr hwidths
    obtain ⟨hlt, hnul⟩ := hbefore text htext
    -- The whole text is stored, and the zero byte behind it is the old one.
    have hwhole : text.take destLen.toNat = text := List.take_of_length_le (by omega)
    have hprefix : text.take (destLen - 1).toNat = text := List.take_of_length_le (by omega)
    refine ⟨_, text, snprintf_eq htext, htext, fun i hi => ?_, ?_, rfl⟩
    · dsimp only
      rw [hwhole, Bytes.blit_of_apart (.inr (by omega))]
    · rw [hwhole, hprefix]
      refine ⟨fun i hi => ?_, nonzero_kprintItems (isItem_parseFormat fmt) htext, ?_⟩
      · dsimp only
        rw [Bytes.blit_of_mem (Nat.zero_le _) (by omega)]
        rfl
      · dsimp only
        rw [Bytes.blit_of_apart (.inr (by omega))]
        exact hnul

/-- A format without a conversion. -/
def shortFormat : CString := ⟨Common.text "hi", by decide⟩

/-- In a buffer of zeros the text is terminated. -/
theorem terminated_iff_zeros : Terminated ⟨true, false⟩ Bytes.zero 16 shortFormat zeroArgs := by
  refine (terminated_iff (by decide)).mpr ⟨by decide, fun text htext => ?_⟩
  obtain rfl : [0x68, 0x69] = text := Except.ok.inj htext
  exact ⟨by decide, rfl⟩

/-- In a buffer of other bytes it is not. -/
theorem not_terminated_ones :
    ¬ Terminated ⟨true, false⟩ (fun _ => 1) 16 shortFormat zeroArgs := by
  rintro ⟨r, text, hr, htext, -, hstring, -⟩
  obtain rfl : [0x68, 0x69] = text := Except.ok.inj htext
  have hnul := hstring.nul
  rw [Except.ok.inj (hr.symm.trans (snprintf_eq htext))] at hnul
  revert hnul
  decide

end DzOS.Proofs.Common
