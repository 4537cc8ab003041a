import DzOS.Lib.Run
import DzOS.Proofs.Drivers.Ps2

/-!
# `DzOS.Proofs.Drivers.Modifiers`: the modifiers of the keyboard against its keys

A `KeyEvent` is the press or the release of a physical key, and `eventBytes` are the bytes that the
keyboard sends for it. `KeyTrack` follows the keys next to the state of the handler: which of them
are held, and how often Caps Lock was pressed. `Mirrors` says that the modifiers of the handler
agree with the keys.

`decoded` is the scancode that `handleKey` gets for a key, so an event is one call of it
(`interrupts_event`). Both shift keys set one flag. The release of one of them clears the flag,
also while the other is held. `modifiers_mirror_iff` says that nothing else goes wrong.
-/

set_option autoImplicit false

namespace DzOS.Proofs.Drivers

open DzOS.Drivers DzOS.Lib

variable {code : UInt8}

/-- A key goes down or up. -/
@[ext]
structure KeyEvent where
  code : UInt8
  pressed : Bool
  deriving DecidableEq

/-- The bytes of an event. -/
def eventBytes (scancodeSet : UInt8) (e : KeyEvent) : List UInt8 :=
  if e.pressed then [e.code]
  else if scancodeSet = 2 then [0xF0, e.code]
  else [e.code ||| 0x80]

/-- The codes of the modifier keys. -/
structure ModifierKeys where
  leftShift : UInt8
  rightShift : UInt8
  ctrl : UInt8
  alt : UInt8
  capsLock : UInt8

/-- The codes in the two scancode sets. -/
def modifierKeys (scancodeSet : UInt8) : ModifierKeys :=
  if scancodeSet = 2 then ⟨0x12, 0x59, 0x14, 0x11, 0x58⟩ else ⟨0x2A, 0x36, 0x1D, 0x38, 0x3A⟩

/-- The state of the handler, next to that of the keys. -/
structure KeyTrack where
  state : KeyboardState
  held : UInt8 → Bool
  capsPresses : Nat

/-- No key is held before the first interrupt. -/
def KeyTrack.boot : KeyTrack := ⟨.boot, fun _ => false, 0⟩

/-- An event, with the interrupts in which its bytes arrive. -/
structure KeyCall where
  event : KeyEvent
  interrupts : List (UInt8 × UInt8)

/-- The interrupts of a list, from any state. -/
def interruptsFrom (past : PastTables) (scancodeSet : UInt8) (s : KeyboardState)
    (interrupts : List (UInt8 × UInt8)) : KeyboardState :=
  interrupts.foldl (fun s ports => keyboardHandler past scancodeSet s ports.1 ports.2) s

/-- An event, for the handler and for the keys. -/
def keyStep (past : PastTables) (scancodeSet : UInt8) (t : KeyTrack) (c : KeyCall) :
    Option KeyTrack :=
  some
    { state := interruptsFrom past scancodeSet t.state c.interrupts
      held := Function.update t.held c.event.code c.event.pressed
      capsPresses :=
        if c.event = ⟨(modifierKeys scancodeSet).capsLock, true⟩ then t.capsPresses + 1
        else t.capsPresses }

/-- A key is pressed only when it is up, and released only when it is held. Its code has seven
bits, and its bytes arrive in the interrupts. -/
def Keystroke (scancodeSet : UInt8) (t : KeyTrack) (c : KeyCall) : Prop :=
  c.event.code < 0x80 ∧ t.held c.event.code ≠ c.event.pressed ∧
    delivered c.interrupts = eventBytes scancodeSet c.event

/-- The modifiers agree with the keys, and no byte is half decoded. -/
structure Mirrors (keys : ModifierKeys) (t : KeyTrack) : Prop where
  shift : t.state.shiftPressed = (t.held keys.leftShift || t.held keys.rightShift)
  ctrl : t.state.ctrlPressed = t.held keys.ctrl
  alt : t.state.altPressed = t.held keys.alt
  capsLock : t.state.capslockOn = decide (t.capsPresses % 2 = 1)
  between : t.state.releaseNext = false

/-- One shift key goes up while the other is held. -/
def ReleasesOneShift (keys : ModifierKeys) (t : KeyTrack) (c : KeyCall) : Prop :=
  c.event.pressed = false ∧
    (c.event.code = keys.leftShift ∧ t.held keys.rightShift = true ∨
      c.event.code = keys.rightShift ∧ t.held keys.leftShift = true)

instance (keys : ModifierKeys) (t : KeyTrack) (c : KeyCall) :
    Decidable (ReleasesOneShift keys t c) := inferInstanceAs (Decidable (_ ∧ _))

/-! ### One key -/

/-- What a key does to the modifiers. -/
theorem handleKey_modifiers (past : PastTables) (s : KeyboardState) (scancode : UInt8)
    (released : Bool) :
    (handleKey past s scancode released).shiftPressed =
        (if scancode = 0x2A ∨ scancode = 0x36 then !released else s.shiftPressed) ∧
      (handleKey past s scancode released).ctrlPressed =
        (if scancode = 0x1D then !released else s.ctrlPressed) ∧
      (handleKey past s scancode released).altPressed =
        (if scancode = 0x38 then !released else s.altPressed) ∧
      (handleKey past s scancode released).capslockOn =
        (if scancode = 0x3A ∧ released = false then !s.capslockOn else s.capslockOn) := by
  unfold handleKey
  by_cases hshift : scancode = 0x2A ∨ scancode = 0x36
  · rcases hshift with rfl | rfl <;> exact ⟨rfl, rfl, rfl, rfl⟩
  by_cases hctrl : scancode = 0x1D
  · subst hctrl
    exact ⟨rfl, rfl, rfl, rfl⟩
  by_cases halt : scancode = 0x38
  · subst halt
    exact ⟨rfl, rfl, rfl, rfl⟩
  simp only [if_neg hshift, if_neg hctrl, if_neg halt]
  by_cases hcaps : scancode = 0x3A ∧ released = false
  · rw [if_pos hcaps, if_pos hcaps]
    exact ⟨rfl, rfl, rfl, rfl⟩
  · rw [if_neg hcaps, if_neg hcaps]
    split_ifs <;> exact ⟨rfl, rfl, rfl, rfl⟩

/-- The scancode that the handler finds for a key. -/
def decoded (scancodeSet code : UInt8) : UInt8 :=
  if scancodeSet = 2 then usSet2ToSet1.getD code.toNat 0 else code

/-- The handler tells the modifier keys from the others. -/
theorem decoded_modifiers {scancodeSet : UInt8} (hset : scancodeSet = 1 ∨ scancodeSet = 2)
    (hcode : code < 0x80) :
    (decoded scancodeSet code = 0x2A ↔ code = (modifierKeys scancodeSet).leftShift) ∧
      (decoded scancodeSet code = 0x36 ↔ code = (modifierKeys scancodeSet).rightShift) ∧
      (decoded scancodeSet code = 0x1D ↔ code = (modifierKeys scancodeSet).ctrl) ∧
      (decoded scancodeSet code = 0x38 ↔ code = (modifierKeys scancodeSet).alt) ∧
      (decoded scancodeSet code = 0x3A ↔ code = (modifierKeys scancodeSet).capsLock) := by
  rcases hset with rfl | rfl
  · exact ⟨Iff.rfl, Iff.rfl, Iff.rfl, Iff.rfl, Iff.rfl⟩
  · have hall : ∀ n : Fin 256, UInt8.ofFin n < 0x80 →
        (decoded 2 (UInt8.ofFin n) = 0x2A ↔ UInt8.ofFin n = (modifierKeys 2).leftShift) ∧
          (decoded 2 (UInt8.ofFin n) = 0x36 ↔ UInt8.ofFin n = (modifierKeys 2).rightShift) ∧
          (decoded 2 (UInt8.ofFin n) = 0x1D ↔ UInt8.ofFin n = (modifierKeys 2).ctrl) ∧
          (decoded 2 (UInt8.ofFin n) = 0x38 ↔ UInt8.ofFin n = (modifierKeys 2).alt) ∧
          (decoded 2 (UInt8.ofFin n) = 0x3A ↔ UInt8.ofFin n = (modifierKeys 2).capsLock) := by
      decide +kernel
    exact hall code.toFin hcode

/-! ### One event -/

section Event

variable (past : PastTables) {scancodeSet : UInt8} (s : KeyboardState)

/-- Only the bytes of the interrupts matter. -/
theorem interruptsFrom_eq (interrupts : List (UInt8 × UInt8)) :
    interruptsFrom past scancodeSet s interrupts =
      (delivered interrupts).foldl (fun s b => keyboardHandler past scancodeSet s 1 b) s := by
  induction interrupts generalizing s with
  | nil => rfl
  | cons ports interrupts ih =>
    show interruptsFrom past scancodeSet (keyboardHandler past scancodeSet s ports.1 ports.2)
      interrupts = _
    rw [ih]
    by_cases hempty : ports.1 &&& 0x01 = 0
    · rw [keyboardHandler_empty past s scancodeSet ports.2 hempty]
      simp [delivered, hempty]
    · have hsame : keyboardHandler past scancodeSet s ports.1 ports.2
          = keyboardHandler past scancodeSet s 1 ports.2 := by
        have hone : ¬ (1 : UInt8) &&& 0x01 = 0 := by decide
        unfold keyboardHandler
        rw [if_neg hempty, if_neg hone]
      rw [hsame]
      simp [delivered, hempty]

/-- A code of seven bits, with and without the bit of a release. -/
theorem seven_bits (h : code < 0x80) :
    code &&& 0x80 = 0 ∧ code &&& 0x7F = code ∧ (code ||| 0x80) &&& 0x80 ≠ 0 ∧
      (code ||| 0x80) &&& 0x7F = code ∧ code ≠ 0xF0 := by
  have hall : ∀ n : Fin 256, UInt8.ofFin n < 0x80 →
      UInt8.ofFin n &&& 0x80 = 0 ∧ UInt8.ofFin n &&& 0x7F = UInt8.ofFin n ∧
        (UInt8.ofFin n ||| 0x80) &&& 0x80 ≠ 0 ∧
        (UInt8.ofFin n ||| 0x80) &&& 0x7F = UInt8.ofFin n ∧ UInt8.ofFin n ≠ 0xF0 := by
    decide +kernel
  exact hall code.toFin h

/-- A code of seven bits is in the table of set 2. -/
theorem set2ToSet1_decoded (h : code < 0x80) : set2ToSet1 past code = decoded 2 code := by
  have hlen : code.toNat < usSet2ToSet1.length := UInt8.lt_iff_toNat_lt.mp h
  unfold set2ToSet1 decoded
  rw [if_pos rfl, List.getD_eq_getElem?_getD, List.getD_eq_getElem?_getD,
    List.getElem?_eq_getElem hlen]
  rfl

/-- The same modifiers, and the same place between two bytes. -/
structure SameModifiers (s s' : KeyboardState) : Prop where
  shift : s'.shiftPressed = s.shiftPressed
  ctrl : s'.ctrlPressed = s.ctrlPressed
  alt : s'.altPressed = s.altPressed
  capsLock : s'.capslockOn = s.capslockOn
  releaseNext : s'.releaseNext = s.releaseNext

/-- An event ends in one call of `handleKey`, with the scancode of the key. -/
theorem interrupts_event {e : KeyEvent} {interrupts : List (UInt8 × UInt8)}
    (hset : scancodeSet = 1 ∨ scancodeSet = 2) (hcode : e.code < 0x80)
    (hbytes : delivered interrupts = eventBytes scancodeSet e) (hbetween : s.releaseNext = false) :
    ∃ s', SameModifiers s s' ∧ interruptsFrom past scancodeSet s interrupts =
      handleKey past s' (decoded scancodeSet e.code) (!e.pressed) := by
  obtain ⟨hlow, hcut, hhigh, hcutHigh, hmark⟩ := seven_bits hcode
  obtain ⟨code, pressed⟩ := e
  simp only at hlow hcut hhigh hcutHigh hmark hcode
  rw [interruptsFrom_eq, hbytes]
  rcases hset with rfl | rfl
  · refine ⟨s, ⟨rfl, rfl, rfl, rfl, rfl⟩, ?_⟩
    cases pressed with
    | true =>
      show handleKey past s (code &&& 0x7F) (decide (code &&& 0x80 ≠ 0)) = _
      rw [hcut, hlow]
      rfl
    | false =>
      show handleKey past s ((code ||| 0x80) &&& 0x7F) (decide ((code ||| 0x80) &&& 0x80 ≠ 0)) = _
      rw [hcutHigh, decide_eq_true hhigh]
      rfl
  · cases pressed with
    | true =>
      refine ⟨s.logLookup (.set2ToSet1 code), ⟨rfl, rfl, rfl, rfl, rfl⟩, ?_⟩
      show keyboardHandler past 2 s 1 code = _
      unfold keyboardHandler
      rw [if_neg (by decide), if_pos rfl, if_neg hmark, hbetween, if_neg Bool.false_ne_true,
        if_neg (not_not.mpr hlow), set2ToSet1_decoded past hcode]
      rfl
    | false =>
      refine ⟨{ s with releaseNext := false }.logLookup (.set2ToSet1 code),
        ⟨rfl, rfl, rfl, rfl, hbetween.symm⟩, ?_⟩
      -- the mark sets `releaseNext`, and the code after it clears it
      show keyboardHandler past 2 { s with releaseNext := true } 1 code = _
      unfold keyboardHandler
      rw [if_neg (by decide), if_pos rfl, if_neg hmark, if_pos rfl, set2ToSet1_decoded past hcode]
      rfl

end Event

/-! ### The run -/

section Run

variable {past : PastTables} {scancodeSet : UInt8} {t t' : KeyTrack} {c : KeyCall}

/-- A held key other than that of the event stays held. -/
theorem held_keyStep (hstep : keyStep past scancodeSet t c = some t') (code : UInt8) :
    t'.held code = if code = c.event.code then c.event.pressed else t.held code := by
  cases hstep
  exact Function.update_apply _ _ _ _

/-- What an event does to the modifiers. -/
theorem keyStep_modifiers (hset : scancodeSet = 1 ∨ scancodeSet = 2)
    (hc : Keystroke scancodeSet t c) (hbetween : t.state.releaseNext = false)
    (hstep : keyStep past scancodeSet t c = some t') :
    t'.state.shiftPressed =
        (if c.event.code = (modifierKeys scancodeSet).leftShift ∨
            c.event.code = (modifierKeys scancodeSet).rightShift then c.event.pressed
          else t.state.shiftPressed) ∧
      t'.state.ctrlPressed =
        (if c.event.code = (modifierKeys scancodeSet).ctrl then c.event.pressed
          else t.state.ctrlPressed) ∧
      t'.state.altPressed =
        (if c.event.code = (modifierKeys scancodeSet).alt then c.event.pressed
          else t.state.altPressed) ∧
      t'.state.capslockOn =
        (if c.event.code = (modifierKeys scancodeSet).capsLock ∧ c.event.pressed = true then
            !t.state.capslockOn
          else t.state.capslockOn) ∧
      t'.state.releaseNext = false := by
  obtain ⟨hcode, -, hbytes⟩ := hc
  obtain ⟨s', hsame, hkey⟩ := interrupts_event past t.state hset hcode hbytes hbetween
  obtain ⟨hleft, hright, hctrl, halt, hcaps⟩ := decoded_modifiers hset hcode
  obtain ⟨hshift', hctrl', halt', hcaps'⟩ :=
    handleKey_modifiers past s' (decoded scancodeSet c.event.code) (!c.event.pressed)
  cases hstep
  simp only [hkey, hshift', hctrl', halt', hcaps', hleft, hright, hctrl, halt, hcaps,
    handleKey_releaseNext, hsame.shift, hsame.ctrl, hsame.alt, hsame.capsLock, hsame.releaseNext,
    hbetween, Bool.not_not, Bool.not_eq_false', and_self]

/-- The three flags that belong to one key, and the count of Caps Lock, for every event. -/
theorem Mirrors.keyStep_others (hset : scancodeSet = 1 ∨ scancodeSet = 2)
    (h : Mirrors (modifierKeys scancodeSet) t) (hc : Keystroke scancodeSet t c)
    (hstep : keyStep past scancodeSet t c = some t')
    (hshift : t'.state.shiftPressed = (t'.held (modifierKeys scancodeSet).leftShift ||
      t'.held (modifierKeys scancodeSet).rightShift)) :
    Mirrors (modifierKeys scancodeSet) t' := by
  obtain ⟨-, hctrl, halt, hcaps, hbetween⟩ := keyStep_modifiers hset hc h.between hstep
  have hpresses : t'.capsPresses =
      if c.event.code = (modifierKeys scancodeSet).capsLock ∧ c.event.pressed = true then
        t.capsPresses + 1
      else t.capsPresses := by
    cases hstep
    simp only [KeyEvent.ext_iff]
  constructor
  · exact hshift
  · rw [hctrl, held_keyStep hstep, h.ctrl]
    simp only [eq_comm]
  · rw [halt, held_keyStep hstep, h.alt]
    simp only [eq_comm]
  · rw [hcaps, hpresses, h.capsLock]
    split_ifs with hpress
    · rw [← decide_not]
      exact decide_eq_decide.mpr (by omega)
    · rfl
  · exact hbetween

/-- The two shift keys differ. -/
theorem leftShift_ne_rightShift (scancodeSet : UInt8) :
    (modifierKeys scancodeSet).leftShift ≠ (modifierKeys scancodeSet).rightShift := by
  unfold modifierKeys
  split_ifs <;> decide

/-- The shift flag after an event is right, unless one shift key goes up and the other is held. -/
theorem Mirrors.keyStep_shift_iff (hset : scancodeSet = 1 ∨ scancodeSet = 2)
    (h : Mirrors (modifierKeys scancodeSet) t) (hc : Keystroke scancodeSet t c)
    (hstep : keyStep past scancodeSet t c = some t') :
    t'.state.shiftPressed = (t'.held (modifierKeys scancodeSet).leftShift ||
        t'.held (modifierKeys scancodeSet).rightShift) ↔
      ¬ ReleasesOneShift (modifierKeys scancodeSet) t c := by
  obtain ⟨hshift, -⟩ := keyStep_modifiers hset hc h.between hstep
  have hne := leftShift_ne_rightShift scancodeSet
  rw [hshift, held_keyStep hstep, held_keyStep hstep, h.shift]
  unfold ReleasesOneShift
  by_cases hleft : c.event.code = (modifierKeys scancodeSet).leftShift
  · rw [if_pos (Or.inl hleft), if_pos hleft.symm, if_neg (fun heq => hne (hleft ▸ heq.symm))]
    cases c.event.pressed <;> simp [hleft, hne]
  · by_cases hright : c.event.code = (modifierKeys scancodeSet).rightShift
    · rw [if_pos (Or.inr hright), if_neg (Ne.symm hleft), if_pos hright.symm]
      cases c.event.pressed <;> simp [hright, hne.symm]
    · rw [if_neg (not_or.mpr ⟨hleft, hright⟩), if_neg (Ne.symm hleft), if_neg (Ne.symm hright)]
      simp [hleft, hright]

/-- From the first interrupt on, the modifiers mirror the keys after each event if and only if no
event of the run releases one shift key while the other is held. -/
theorem modifiers_mirror_iff (past : PastTables) {scancodeSet : UInt8} {calls : List KeyCall}
    (hset : scancodeSet = 1 ∨ scancodeSet = 2)
    (hcalls : EachCall (keyStep past scancodeSet) .boot calls (Keystroke scancodeSet)) :
    Throughout (keyStep past scancodeSet) .boot calls (Mirrors (modifierKeys scancodeSet)) ↔
      EachCall (keyStep past scancodeSet) .boot calls fun t c =>
        ¬ ReleasesOneShift (modifierKeys scancodeSet) t c := by
  have hboot : Mirrors (modifierKeys scancodeSet) .boot := ⟨rfl, rfl, rfl, rfl, rfl⟩
  have htotal : (runSteps (keyStep past scancodeSet) .boot calls).isSome :=
    runSteps_isSome (fun _ _ => rfl) _ _
  refine throughout_iff (fun t h => h) ?_ ?_ hboot hcalls (runSteps_getD htotal)
  · intro t c t' h hc hstep hok
    exact h.keyStep_others hset hc hstep ((h.keyStep_shift_iff hset hc hstep).mpr hok)
  · intro t c t' h hc hstep hok h'
    exact hok ((h.keyStep_shift_iff hset hc hstep).mp h'.shift)

/-- Tables with nothing behind them. -/
def noPast : PastTables := ⟨fun _ => 0, fun _ => (0, 0)⟩

/-- Left shift down and up again, with scancode set 2. -/
def leftShiftOnce : List KeyCall :=
  [⟨⟨0x12, true⟩, [(1, 0x12)]⟩, ⟨⟨0x12, false⟩, [(1, 0xF0), (1, 0x12)]⟩]

instance (scancodeSet : UInt8) (t : KeyTrack) (c : KeyCall) :
    Decidable (Keystroke scancodeSet t c) := inferInstanceAs (Decidable (_ ∧ _ ∧ _))

theorem modifiers_mirror_leftShift :
    Throughout (keyStep noPast 2) .boot leftShiftOnce (Mirrors (modifierKeys 2)) :=
  (modifiers_mirror_iff noPast (Or.inr rfl) (by decide)).mpr (by decide)

/-- Both shift keys down, and one up again. -/
def bothShifts : List KeyCall :=
  [⟨⟨0x2A, true⟩, [(1, 0x2A)]⟩, ⟨⟨0x36, true⟩, [(1, 0x36)]⟩, ⟨⟨0x2A, false⟩, [(1, 0xAA)]⟩]

/-- Shift is lost while right shift is held. -/
theorem bothShifts_loses_shift :
    EachCall (keyStep noPast 1) .boot bothShifts (Keystroke 1) ∧
      ¬ Throughout (keyStep noPast 1) .boot bothShifts (Mirrors (modifierKeys 1)) := by
  refine ⟨by decide, ?_⟩
  intro h
  have hend := (h bothShifts _ List.prefix_rfl rfl).shift
  exact absurd hend (by decide)

end Run

end DzOS.Proofs.Drivers
