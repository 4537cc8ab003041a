import DzOS.Proofs.Common.DigitBuffer

/-!
# `DzOS.Proofs.Common.BoundedPrint`: `cvprintf` stores what `kvprintf` prints

`Follows s₀ out len dest s` says that `s` is `s₀` after the text `out`, cut to the room that `s₀`
has: the bytes are stored from offset 0 on, `len` counts them, and while there is room left `dest`
points behind them. The cursor is off once the room is used up, and then nothing is stored any
more. Every step of `cvprintf` keeps this, for the text that the step of `kvprintf` prints
(`cprintItem_follows`), and so does the run over a format (`cprintItems_follows`).
-/

set_option autoImplicit false

namespace DzOS.Proofs.Common

open DzOS.Lib DzOS.Common

variable {dest' : Nat} {fmt : CString} {i : ℕ} {items : List Item}

/-- The number of bytes that a buffer takes. -/
def room (s : Sink) : Nat := (s.rem.getD 0).toNat

/-- The state after the text `out`. -/
structure Follows (s₀ : Sink) (out : List UInt8) (len dest : Nat) (s : Sink) : Prop where
  len : len = min (room s₀) out.length
  cursor : out.length < room s₀ → dest = out.length
  mem : s.mem = s₀.mem.blit 0 (out.take (room s₀))
  rem : s.rem = s₀.rem.map fun r => r - ((min (room s₀) out.length : ℕ) : ℤ)

variable {s₀ s : Sink} {out : List UInt8} {len dest : Nat}

/-- Nothing is printed at first. -/
theorem Follows.start (s : Sink) : Follows s [] 0 0 s where
  len := by rw [List.length_nil, Nat.min_zero]
  cursor := fun _ => rfl
  mem := by rw [List.take_nil, Bytes.blit_nil]
  rem := by simp

section

variable (h : Follows s₀ out len dest s)

include h

/-- The cursor matters only while there is room. -/
theorem Follows.move (hdest : out.length < room s₀ → dest' = dest) : Follows s₀ out len dest' s :=
  ⟨h.len, fun hlt => (hdest hlt).trans (h.cursor hlt), h.mem, h.rem⟩

/-- There is no room: a byte changes nothing. -/
theorem Follows.full (hfull : room s₀ ≤ out.length) (c : UInt8) :
    Follows s₀ (out ++ [c]) len (dest + 1) s where
  len := by
    rw [h.len, List.length_append, List.length_singleton]
    omega
  cursor := fun hlt => by
    rw [List.length_append, List.length_singleton] at hlt
    omega
  mem := by rw [h.mem, List.take_append_of_le_length hfull]
  rem := by
    rw [h.rem, List.length_append, List.length_singleton, Nat.min_eq_left hfull,
      Nat.min_eq_left (by omega)]

/-- There is room: the byte is stored behind the text. -/
theorem Follows.store (hroom : out.length < room s₀) (c : UInt8) :
    Follows s₀ (out ++ [c]) (len + 1) (dest + 1)
      { mem := s.mem.set dest c, rem := s.rem.map fun r => r - 1 } where
  len := by
    rw [h.len, List.length_append, List.length_singleton]
    omega
  cursor := fun _ => by rw [h.cursor hroom, List.length_append, List.length_singleton]
  mem := by
    have hle : (out ++ [c]).length ≤ room s₀ := by
      rw [List.length_append, List.length_singleton]
      exact hroom
    dsimp only
    rw [h.mem, h.cursor hroom, List.take_of_length_le (Nat.le_of_lt hroom),
      List.take_of_length_le hle, Bytes.blit_append_singleton]
  rem := by
    dsimp only
    rw [h.rem, Option.map_map, List.length_append, List.length_singleton,
      Nat.min_eq_right (Nat.le_of_lt hroom), Nat.min_eq_right hroom]
    congr 1
    funext r
    simp only [Function.comp_apply]
    omega

/-- `cputc` stores the next byte if there is room for it. -/
theorem Follows.cputc (c : UInt8) :
    (Common.cputc s dest c).1 = (if out.length < room s₀ then 1 else 0) ∧
      Follows s₀ (out ++ [c]) (len + (Common.cputc s dest c).1) (dest + 1)
        (Common.cputc s dest c).2 := by
  have hrem := h.rem
  unfold room at hrem
  unfold Common.cputc
  -- `rem` keeps its kind: `none` takes no byte at all.
  cases hs₀ : s₀.rem with
  | none =>
    have hzero : room s₀ = 0 := by
      unfold room
      rw [hs₀]
      rfl
    rw [hs₀] at hrem
    rw [hrem, if_neg (by omega)]
    exact ⟨rfl, h.full (by omega) c⟩
  | some r =>
    have hroom : room s₀ = r.toNat := by
      unfold room
      rw [hs₀]
      rfl
    rw [hs₀] at hrem
    rw [hrem]
    simp only [Option.map_some, Option.getD_some]
    by_cases hlt : out.length < room s₀
    · have hmore : r - ((min r.toNat out.length : ℕ) : ℤ) ≥ 1 := by omega
      have hstore := h.store hlt c
      rw [hrem] at hstore
      simp only [Option.map_some, Option.getD_some] at hstore
      rw [if_pos hmore, if_pos hlt]
      exact ⟨rfl, hstore⟩
    · have hmore : ¬ r - ((min r.toNat out.length : ℕ) : ℤ) ≥ 1 := by omega
      rw [if_neg hmore, if_neg hlt]
      exact ⟨rfl, h.full (Nat.le_of_not_lt hlt) c⟩

/-- A run of `cputc`, with a cursor that moves by every byte. -/
theorem Follows.cputs (bytes : List UInt8) :
    Follows s₀ (out ++ bytes) (len + (Common.cputs s dest bytes).1) (dest + bytes.length)
      (Common.cputs s dest bytes).2 := by
  induction bytes generalizing out len dest s with
  | nil =>
    rw [List.append_nil]
    exact h
  | cons c bytes ih =>
    have hrest := ih (h.cputc c).2
    rw [List.append_assoc, List.singleton_append, Nat.add_assoc len, Nat.add_assoc dest,
      Nat.add_comm 1] at hrest
    exact hrest

/-- The cursor may move by the bytes that are stored instead: while there is room, all are. -/
theorem Follows.recount {bytes : List UInt8} {n : Nat} {s' : Sink}
    (h' : Follows s₀ (out ++ bytes) (len + n) dest' s') :
    Follows s₀ (out ++ bytes) (len + n) (dest + n) s' := by
  refine h'.move fun hroom => ?_
  have hcursor := h'.cursor hroom
  have hlen := h.len
  have hlen' := h'.len
  rw [List.length_append] at hroom hlen' hcursor
  have hbefore := h.cursor (by omega)
  omega

end

/-! ### Numbers -/

/-- The colors and the text between them. -/
theorem Follows.body (h : Follows s₀ out len dest s) (st : PrintState) (body : List UInt8) :
    Follows s₀ (out ++ (st.colorOn ++ body ++ st.colorOff))
      (len + (cprintBody st s dest body).1) (dest + (cprintBody st s dest body).1)
      (cprintBody st s dest body).2 := by
  -- The cursor behind the color counts its stored bytes, and behind the body all bytes.
  have hon := h.recount (h.cputs st.colorOn)
  have hoff := (hon.cputs body).cputs st.colorOff
  apply h.recount
  rw [← List.append_assoc, ← List.append_assoc]
  unfold cprintBody
  dsimp only
  rw [← Nat.add_assoc, ← Nat.add_assoc]
  exact hoff

/-- A number with a fraction. -/
theorem Follows.float {st : PrintState} {f : FloatArg} {text : List UInt8}
    (h : Follows s₀ out len dest s) (htext : kprintfloat st f = .ok text) :
    ∃ r, cprintfloat st s dest f = .ok r ∧
      Follows s₀ (out ++ text) (len + r.1) (dest + r.1) r.2 := by
  obtain ⟨buf, hbuf, htext⟩ := bind_eq_ok.mp htext
  cases htext
  have hminus := h.cputs (if f.negative then [ch '-'] else [])
  have hint := hminus.body st buf.reverse
  have hfrac := hint.body st (fractionText f)
  unfold cprintfloat
  dsimp only
  rw [bind_ok hbuf]
  refine ⟨_, rfl, ?_⟩
  apply h.recount
  rw [List.append_assoc (if f.negative then [ch '-'] else []), ← Nat.add_assoc, ← Nat.add_assoc]
  rw [List.append_assoc, List.append_assoc] at hfrac
  exact hfrac

/-! ### Items -/

variable {st : PrintState} {c : CvState} {item : Item} {text : List UInt8} {va : VaList}

/-- An item stores what it prints. -/
theorem cprintItem_follows (h : Follows s₀ out c.len c.dest c.sink)
    (htext : kprintItem st c.va item = .ok (text, va)) :
    ∃ c', cprintItem st c item = .ok c' ∧ c'.va = va ∧
      Follows s₀ (out ++ text) c'.len c'.dest c'.sink := by
  cases item with
  | char cx =>
    cases htext
    exact ⟨_, rfl, rfl, h.cputs [cx]⟩
  | integer type base sign =>
    obtain ⟨buf, hbuf, htext⟩ := bind_eq_ok.mp htext
    cases htext
    exact ⟨_, bind_ok hbuf, rfl, h.body st buf.reverse⟩
  | padded type base width pad =>
    obtain ⟨buf, hbuf, htext⟩ := bind_eq_ok.mp htext
    cases htext
    exact ⟨_, bind_ok hbuf, rfl, h.body st buf.reverse⟩
  | pointer =>
    cases htext
    exact ⟨_, rfl, rfl, h.body st _⟩
  | string =>
    cases htext
    exact ⟨_, rfl, rfl, h.cputs _⟩
  | float =>
    obtain ⟨text', hfloat, htext⟩ := bind_eq_ok.mp htext
    cases htext
    obtain ⟨r, hr, hfollows⟩ := h.float hfloat
    exact ⟨_, bind_ok hr, rfl, hfollows⟩
  | unknown c0 =>
    cases htext
    exact ⟨_, rfl, rfl, h.cputs [ch '%', c0]⟩

/-- A sequence fails with its first computation if the second one succeeds. -/
theorem eq_error_of_bind {ε α β : Type} {x : Except ε α} {f : α → β} {e : ε}
    (h : (x >>= fun a => .ok (f a)) = .error e) : x = .error e := by
  cases hx : x with
  | error e' =>
    rw [bind_error hx] at h
    exact congrArg Except.error (Except.error.inj h)
  | ok a =>
    rw [bind_ok hx] at h
    cases h

/-- An item that overruns its buffer does so in both. -/
theorem cprintItem_overrun (htext : kprintItem st c.va item = .error i) :
    cprintItem st c item = .error i := by
  cases item with
  | char => cases htext
  | integer type base sign =>
    exact bind_error (eq_error_of_bind (x := digitBuf (c.va.fetch type) base sign) htext)
  | padded type base width pad =>
    exact bind_error
      (eq_error_of_bind (x := digitBufPadded (c.va.fetch type) base false width pad) htext)
  | pointer => cases htext
  | string => cases htext
  | float =>
    obtain ⟨text, htext'⟩ := kprintfloat_ok st (c.va.float 0)
    cases htext.symm.trans (bind_ok htext')
  | unknown => cases htext

/-! ### Runs -/

/-- The run over a format stores what it prints. -/
theorem cprintItems_follows (h : Follows s₀ out c.len c.dest c.sink)
    (htext : kprintItems st c.va items = .ok text) :
    ∃ c', cprintItems st c items = .ok c' ∧ Follows s₀ (out ++ text) c'.len c'.dest c'.sink := by
  induction items generalizing out c text with
  | nil =>
    cases htext
    refine ⟨c, rfl, ?_⟩
    rw [List.append_nil]
    exact h
  | cons item items ih =>
    obtain ⟨⟨head, va⟩, hhead, htail⟩ := bind_eq_ok.mp htext
    obtain ⟨rest, hrest, htail⟩ := bind_eq_ok.mp htail
    cases htail
    -- The text so far grows by that of the item, which is where the induction goes on.
    obtain ⟨c₁, hc₁, rfl, hfollows⟩ := cprintItem_follows h hhead
    obtain ⟨c', hc', hdone⟩ := ih hfollows hrest
    rw [List.append_assoc] at hdone
    exact ⟨c', (bind_ok hc₁).trans hc', hdone⟩

/-- A run that overruns a buffer does so in both. -/
theorem cprintItems_overrun (h : Follows s₀ out c.len c.dest c.sink)
    (htext : kprintItems st c.va items = .error i) : cprintItems st c items = .error i := by
  induction items generalizing out c with
  | nil => cases htext
  | cons item items ih =>
    cases hhead : kprintItem st c.va item with
    | error j =>
      have hfail : kprintItems st c.va (item :: items) = .error j := bind_error hhead
      rw [hfail] at htext
      cases htext
      exact bind_error (cprintItem_overrun hhead)
    | ok r =>
      obtain ⟨c₁, hc₁, hva, hfollows⟩ := cprintItem_follows h hhead
      -- The item fits, so the overrun is in the rest, with the arguments behind the item.
      have hrest : kprintItems st c₁.va items = .error i := by
        rw [hva]
        have hstep : kprintItems st c.va (item :: items) =
            kprintItems st r.2 items >>= fun rest => .ok (r.1 ++ rest) := bind_ok hhead
        exact eq_error_of_bind (hstep.symm.trans htext)
      exact (bind_ok hc₁).trans (ih hfollows hrest)

/-- `cvprintf` returns the number of bytes that it stores: those that `kvprintf` prints, up to
the room in the buffer. -/
theorem cvprintf_eq (htext : kvprintf st fmt va = .ok text) :
    ∃ s', cvprintf st s fmt va = .ok (min (room s) text.length, s') ∧
      s'.mem = s.mem.blit 0 (text.take (room s)) := by
  obtain ⟨c', hc', hfollows⟩ := cprintItems_follows (c := ⟨0, 0, s, va⟩) (Follows.start s) htext
  rw [List.nil_append] at hfollows
  refine ⟨c'.sink, ?_, hfollows.mem⟩
  rw [← hfollows.len]
  exact bind_ok hc'

/-- Both functions stay inside the buffers, or neither does. -/
theorem cvprintf_ok_iff :
    (∃ r, cvprintf st s fmt va = .ok r) ↔ ∃ text, kvprintf st fmt va = .ok text := by
  constructor
  · rintro ⟨r, hr⟩
    cases htext : kvprintf st fmt va with
    | error i =>
      have hover := cprintItems_overrun (c := ⟨0, 0, s, va⟩) (Follows.start s) htext
      cases hr.symm.trans (bind_error hover)
    | ok text => exact ⟨text, rfl⟩
  · rintro ⟨text, htext⟩
    obtain ⟨s', hs', -⟩ := cvprintf_eq (s := s) htext
    exact ⟨_, hs'⟩

/-! ### The digit buffers -/

/-- No store of either function leaves the 20 bytes of a digit buffer. -/
def NoOverrun (st : PrintState) (s : Sink) (fmt : CString) (va : VaList) : Prop :=
  (∃ text, kvprintf st fmt va = .ok text) ∧ ∃ r, cvprintf st s fmt va = .ok r

/-- The digit buffers are never overrun if and only if no hexadecimal conversion of the format has a
width above 20. -/
theorem noOverrun_iff (st : PrintState) (s : Sink) (fmt : CString) (va : VaList) :
    NoOverrun st s fmt va ↔ ∀ item ∈ parseFormat fmt, FitsBuffer item := by
  unfold NoOverrun
  rw [cvprintf_ok_iff, and_self]
  exact kprintItems_ok_iff st va (isItem_parseFormat fmt)

/-- Arguments that are all zero. -/
def zeroArgs : VaList where
  word := fun _ => 0
  float := fun _ => ⟨false, 0, Vector.replicate 6 0⟩
  string := fun _ => ⟨[], List.not_mem_nil⟩

/-- A format with a width of 21. -/
def wideFormat : CString := ⟨Common.text "%021x", by decide⟩

/-- The 21st digit is stored behind the buffer. -/
theorem not_noOverrun_wideFormat :
    ¬ NoOverrun ⟨false, false⟩ ⟨Bytes.zero, some 64⟩ wideFormat zeroArgs := by
  rintro ⟨⟨text, htext⟩, -⟩
  have hover : kvprintf ⟨false, false⟩ wideFormat zeroArgs = .error 20 := by decide
  cases htext.symm.trans hover

end DzOS.Proofs.Common
