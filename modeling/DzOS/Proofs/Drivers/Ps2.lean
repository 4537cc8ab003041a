import Mathlib.Data.List.Infix
import DzOS.Drivers.Ps2

/-!
# `DzOS.Proofs.Drivers.Ps2`: the table lookups of the keyboard handler

Both tables have 128 entries. Set 1 cuts every byte to seven bits. Set 2 cuts the bytes from
`0x80` on, but not the byte after the release mark `0xF0`. A keyboard sends such a byte for the
release of F7, whose code is `0x83`. Every other set uses the byte as it is.

`BytesInReach` is the condition on the bytes. `keyboardRun_lookups` shows that it holds exactly
if all lookups stay inside the tables. The proof follows the handler through one interrupt
(`lookups_keyboardHandler`, `releaseNext_keyboardHandler`) and then goes along the run. The
invariant is that `releaseNext` says whether the last byte was a release mark.
-/

set_option autoImplicit false

namespace DzOS.Proofs.Drivers

open DzOS.Drivers

variable {ports : UInt8 × UInt8} {scancode status : UInt8}

/-- The lookups of a list have their indices inside the tables. -/
def InTables (lookups : List Lookup) : Prop :=
  ∀ lookup ∈ lookups, lookup.index < 128

instance (lookups : List Lookup) : Decidable (InTables lookups) :=
  inferInstanceAs (Decidable (∀ lookup ∈ lookups, lookup.index < 128))

theorem inTables_append (front back : List Lookup) :
    InTables (front ++ back) ↔ InTables front ∧ InTables back :=
  List.forall_mem_append

theorem inTables_one (lookup : Lookup) : InTables [lookup] ↔ lookup.index < 128 :=
  List.forall_mem_singleton

/-- The bytes of a set that are decoded inside the tables. With set 2, a byte after the release
mark is below `0x80`, or is another release mark. With a set other than 1 and 2, every byte is
below `0x80`. -/
def BytesInReach (scancodeSet : UInt8) (bytes : List UInt8) : Prop :=
  (scancodeSet = 2 → ∀ b, [0xF0, b] <:+: bytes → b < 0x80 ∨ b = 0xF0) ∧
  (scancodeSet ≠ 1 → scancodeSet ≠ 2 → ∀ b ∈ bytes, b < 0x80)

/-! ### One key -/

/-- Every translated code has seven bits. -/
theorem usSet2ToSet1_lt : ∀ code ∈ usSet2ToSet1, code < 128 := by
  decide +kernel

theorem and_low_lt (b : UInt8) : b &&& 0x7F < 128 := by
  have hle : (b &&& 0x7F).toNat ≤ 0x7F := by
    rw [UInt8.toNat_and]
    exact Nat.and_le_right
  exact UInt8.lt_iff_toNat_lt.mpr (Nat.lt_succ_of_le hle)

/-- The top bit of a byte. -/
theorem and_high_eq_zero_iff (b : UInt8) : b &&& 0x80 = 0 ↔ b < 0x80 := by
  have hall : ∀ n : Fin 256, UInt8.ofFin n &&& 0x80 = 0 ↔ UInt8.ofFin n < 0x80 := by
    decide +kernel
  exact hall b.toFin

/-- A lookup inside the table of set 2 finds a code inside the layout. -/
theorem set2ToSet1_lt (past : PastTables) (h : scancode < 128) :
    set2ToSet1 past scancode < 128 := by
  have hlen : scancode.toNat < usSet2ToSet1.length := UInt8.lt_iff_toNat_lt.mp h
  have hget : set2ToSet1 past scancode = usSet2ToSet1[scancode.toNat] := by
    rw [set2ToSet1, List.getD_eq_getElem?_getD, List.getElem?_eq_getElem hlen, Option.getD_some]
  rw [hget]
  exact usSet2ToSet1_lt _ (List.getElem_mem hlen)

variable (past : PastTables) (s : KeyboardState)

/-- A key leaves `releaseNext` as it is. -/
theorem handleKey_releaseNext (scancode : UInt8) (keyReleased : Bool) :
    (handleKey past s scancode keyReleased).releaseNext = s.releaseNext := by
  rw [handleKey]
  -- one case for each modifier, then the release and the two ends of a press
  split_ifs <;> first | rfl | (dsimp only; split_ifs <;> rfl)

/-- A key logs nothing, or the lookup of its scancode. -/
theorem handleKey_lookups (scancode : UInt8) (keyReleased : Bool) :
    (handleKey past s scancode keyReleased).lookups = s.lookups ∨
    (handleKey past s scancode keyReleased).lookups = s.lookups ++ [.layout scancode] := by
  rw [handleKey]
  split_ifs
  iterate 5 exact Or.inl rfl
  dsimp only
  split_ifs <;> exact Or.inr rfl

/-- A key with a scancode inside the layout. -/
theorem inTables_handleKey (keyReleased : Bool) (h : scancode < 128) :
    InTables (handleKey past s scancode keyReleased).lookups ↔ InTables s.lookups := by
  have hone : InTables [.layout scancode] := (inTables_one _).mpr h
  rcases handleKey_lookups past s scancode keyReleased with hlog | hlog
  · rw [hlog]
  · rw [hlog, inTables_append]
    exact and_iff_left hone

/-- The lookups made before a key stay in the log. -/
theorem inTables_of_handleKey {keyReleased : Bool}
    (h : InTables (handleKey past s scancode keyReleased).lookups) : InTables s.lookups := by
  rcases handleKey_lookups past s scancode keyReleased with hlog | hlog
  · rw [hlog] at h
    exact h
  · rw [hlog, inTables_append] at h
    exact h.1

/-- A pressed key with a scancode from `0x80` on is no modifier, and is looked up. -/
theorem lookups_handleKey_high (h : ¬ scancode < 128) :
    (handleKey past s scancode false).lookups = s.lookups ++ [.layout scancode] := by
  have hne : ∀ code : UInt8, code < 128 → scancode ≠ code := by
    intro code hcode heq
    exact h (heq ▸ hcode)
  have hshift : ¬ (scancode = 0x2A ∨ scancode = 0x36) := by
    intro hor
    exact hor.elim (hne 0x2A (by decide)) (hne 0x36 (by decide))
  have hcaps : ¬ (scancode = 0x3A ∧ false = false) := fun hand => hne 0x3A (by decide) hand.1
  rw [handleKey, if_neg hshift, if_neg (hne 0x1D (by decide)), if_neg (hne 0x38 (by decide)),
    if_neg hcaps, if_neg Bool.false_ne_true]
  dsimp only
  split_ifs <;> rfl

/-- A pressed key of a set without a translation. -/
theorem inTables_handleKey_raw (scancode : UInt8) :
    InTables (handleKey past s scancode false).lookups ↔
      InTables s.lookups ∧ scancode < 128 := by
  by_cases h : scancode < 128
  · rw [inTables_handleKey past s false h]
    exact (and_iff_left h).symm
  · rw [lookups_handleKey_high past s h, inTables_append]
    exact and_congr Iff.rfl (inTables_one _)

/-- A key that is translated from set 2. -/
theorem inTables_translate (scancode : UInt8) (keyReleased : Bool) :
    InTables (handleKey past (s.logLookup (.set2ToSet1 scancode)) (set2ToSet1 past scancode)
        keyReleased).lookups ↔
      InTables s.lookups ∧ scancode < 128 := by
  have hlog : InTables (s.logLookup (.set2ToSet1 scancode)).lookups ↔
      InTables s.lookups ∧ scancode < 128 := by
    show InTables (s.lookups ++ [.set2ToSet1 scancode]) ↔ _
    rw [inTables_append]
    exact and_congr Iff.rfl (inTables_one _)
  by_cases h : scancode < 128
  · rw [inTables_handleKey past _ keyReleased (set2ToSet1_lt past h), hlog]
  · constructor
    · intro hall
      exact hlog.mp (inTables_of_handleKey past _ hall)
    · intro hall
      exact absurd hall.2 h

/-! ### One interrupt -/

/-- The byte is decoded inside the tables. -/
def ByteInReach (scancodeSet : UInt8) (releaseNext : Bool) (b : UInt8) : Prop :=
  (scancodeSet = 2 → releaseNext = true → b < 0x80 ∨ b = 0xF0) ∧
  (scancodeSet ≠ 1 → scancodeSet ≠ 2 → b < 0x80)

/-- An interrupt without a byte changes nothing. -/
theorem keyboardHandler_empty (scancodeSet : UInt8) (data : UInt8) (h : status &&& 0x01 = 0) :
    keyboardHandler past scancodeSet s status data = s := by
  rw [keyboardHandler, if_pos h]

/-- An interrupt with a byte keeps the lookups inside the tables exactly if the byte is in
reach. -/
theorem lookups_keyboardHandler (scancodeSet : UInt8) (data : UInt8) (h : status &&& 0x01 ≠ 0) :
    InTables (keyboardHandler past scancodeSet s status data).lookups ↔
      InTables s.lookups ∧ ByteInReach scancodeSet s.releaseNext data := by
  rw [keyboardHandler, if_neg h]
  by_cases htwo : scancodeSet = 2
  · subst htwo
    have hreach : ByteInReach 2 s.releaseNext data ↔
        (s.releaseNext = true → data < 0x80 ∨ data = 0xF0) := by
      constructor
      · intro hb
        exact hb.1 rfl
      · intro hb
        exact ⟨fun _ => hb, fun _ hne => absurd rfl hne⟩
    rw [if_pos rfl, hreach]
    by_cases hmark : data = 0xF0
    · -- a release mark is not looked up
      rw [if_pos hmark]
      exact (and_iff_left fun _ => Or.inr hmark).symm
    rw [if_neg hmark]
    cases hrel : s.releaseNext with
    | true =>
      rw [if_pos rfl]
      refine (inTables_translate past _ data true).trans (and_congr Iff.rfl ?_)
      simp [hmark]
    | false =>
      rw [if_neg Bool.false_ne_true]
      have hfree : InTables s.lookups ↔
          InTables s.lookups ∧ (false = true → data < 0x80 ∨ data = 0xF0) :=
        (and_iff_left fun hf => absurd hf Bool.false_ne_true).symm
      by_cases hhigh : data &&& 0x80 ≠ 0
      · rw [if_pos hhigh, ← hfree]
        exact (inTables_translate past s _ true).trans (and_iff_left (and_low_lt data))
      · rw [if_neg hhigh, ← hfree]
        have hlow : data < 128 := (and_high_eq_zero_iff data).mp (not_not.mp hhigh)
        exact (inTables_translate past s _ false).trans (and_iff_left hlow)
  · rw [if_neg htwo]
    by_cases hone : scancodeSet = 1
    · rw [if_pos hone, inTables_handleKey past s _ (and_low_lt data)]
      exact (and_iff_left ⟨fun h2 => absurd h2 htwo, fun h1 => absurd hone h1⟩).symm
    · rw [if_neg hone, inTables_handleKey_raw]
      refine and_congr Iff.rfl ⟨fun hb => ⟨fun h2 => absurd h2 htwo, fun _ _ => hb⟩, fun hb => ?_⟩
      exact hb.2 hone htwo

/-- With set 2, an interrupt with a byte leaves `releaseNext` set exactly if the byte is a
release mark. -/
theorem releaseNext_keyboardHandler (data : UInt8) (h : status &&& 0x01 ≠ 0) :
    (keyboardHandler past 2 s status data).releaseNext = decide (data = 0xF0) := by
  rw [keyboardHandler, if_neg h, if_pos rfl]
  by_cases hmark : data = 0xF0
  · rw [if_pos hmark, decide_eq_true hmark]
  rw [if_neg hmark, decide_eq_false hmark]
  cases hrel : s.releaseNext with
  | true =>
    rw [if_pos rfl, handleKey_releaseNext]
    rfl
  | false =>
    rw [if_neg Bool.false_ne_true]
    split_ifs <;> · rw [handleKey_releaseNext]; exact hrel

/-! ### The run -/

theorem keyboardRun_concat (scancodeSet : UInt8) (interrupts : List (UInt8 × UInt8))
    (ports : UInt8 × UInt8) :
    keyboardRun past scancodeSet (interrupts ++ [ports]) =
      keyboardHandler past scancodeSet (keyboardRun past scancodeSet interrupts) ports.1
        ports.2 := by
  rw [keyboardRun, List.foldl_append]
  rfl

theorem delivered_concat_empty (interrupts : List (UInt8 × UInt8)) (h : ports.1 &&& 0x01 = 0) :
    delivered (interrupts ++ [ports]) = delivered interrupts := by
  simp [delivered, h]

theorem delivered_concat (interrupts : List (UInt8 × UInt8)) (h : ports.1 &&& 0x01 ≠ 0) :
    delivered (interrupts ++ [ports]) = delivered interrupts ++ [ports.2] := by
  simp [delivered, h]

/-- With set 2, `releaseNext` is set exactly after a release mark. -/
theorem keyboardRun_releaseNext (interrupts : List (UInt8 × UInt8)) :
    (keyboardRun past 2 interrupts).releaseNext = true ↔
      (delivered interrupts).getLast? = some 0xF0 := by
  induction interrupts using List.reverseRecOn with
  | nil => simp [keyboardRun, delivered, KeyboardState.boot]
  | append_singleton interrupts ports ih =>
    rw [keyboardRun_concat]
    by_cases h : ports.1 &&& 0x01 = 0
    · rw [keyboardHandler_empty past _ 2 _ h, delivered_concat_empty interrupts h]
      exact ih
    · rw [releaseNext_keyboardHandler past _ _ h, delivered_concat interrupts h,
        List.getLast?_concat, decide_eq_true_iff, Option.some_inj]

/-- The two adjacent bytes of a longer list: they are in the front, or the second is new. -/
theorem pair_infix_concat {x y b : UInt8} (bytes : List UInt8) :
    [x, y] <:+: bytes ++ [b] ↔ [x, y] <:+: bytes ∨ (bytes.getLast? = some x ∧ y = b) := by
  rw [List.infix_concat_iff]
  refine or_comm.trans (or_congr Iff.rfl ?_)
  constructor
  · rintro ⟨front, hfront⟩
    have hcons : (front ++ [x]) ++ [y] = bytes ++ [b] := by
      rw [← hfront]
      simp
    obtain ⟨hbytes, hb⟩ := List.append_inj' hcons rfl
    rw [← hbytes]
    exact ⟨List.getLast?_concat, List.singleton_inj.mp hb⟩
  · rintro ⟨hlast, rfl⟩
    obtain ⟨front, rfl⟩ := List.getLast?_eq_some_iff.mp hlast
    exact ⟨front, by simp⟩

/-- The bytes stay in reach when one is added that is. -/
theorem bytesInReach_concat (scancodeSet b : UInt8) (bytes : List UInt8) :
    BytesInReach scancodeSet (bytes ++ [b]) ↔
      BytesInReach scancodeSet bytes ∧
        ByteInReach scancodeSet (decide (bytes.getLast? = some 0xF0)) b := by
  have hset2 : (∀ y, [0xF0, y] <:+: bytes ++ [b] → y < 0x80 ∨ y = 0xF0) ↔
      (∀ y, [0xF0, y] <:+: bytes → y < 0x80 ∨ y = 0xF0) ∧
        (bytes.getLast? = some 0xF0 → b < 0x80 ∨ b = 0xF0) := by
    constructor
    · intro hall
      exact ⟨fun y hy => hall y ((pair_infix_concat bytes).mpr (Or.inl hy)),
        fun hlast => hall b ((pair_infix_concat bytes).mpr (Or.inr ⟨hlast, rfl⟩))⟩
    · rintro ⟨hfront, hlast⟩ y hy
      rcases (pair_infix_concat bytes).mp hy with hy | ⟨hmark, rfl⟩
      · exact hfront y hy
      · exact hlast hmark
  have hraw : (∀ y ∈ bytes ++ [b], y < 0x80) ↔ (∀ y ∈ bytes, y < 0x80) ∧ b < 0x80 := by
    rw [List.forall_mem_append, List.forall_mem_singleton]
  simp only [BytesInReach, ByteInReach, hset2, hraw, decide_eq_true_eq, imp_and]
  exact and_and_and_comm

/-- The lookups of a run stay inside the two tables exactly if the delivered bytes are in reach
of the scancode set. -/
theorem keyboardRun_lookups (past : PastTables) (scancodeSet : UInt8)
    (interrupts : List (UInt8 × UInt8)) :
    (∀ lookup ∈ (keyboardRun past scancodeSet interrupts).lookups, lookup.index < 128) ↔
      BytesInReach scancodeSet (delivered interrupts) := by
  show InTables _ ↔ _
  induction interrupts using List.reverseRecOn with
  | nil =>
    refine iff_of_true (fun lookup h => absurd h List.not_mem_nil) ⟨fun _ b h => ?_, ?_⟩
    · exact absurd (List.eq_nil_of_infix_nil h) (List.cons_ne_nil _ _)
    · intro _ _ b h
      exact absurd h List.not_mem_nil
  | append_singleton interrupts ports ih =>
    rw [keyboardRun_concat]
    by_cases h : ports.1 &&& 0x01 = 0
    · rw [keyboardHandler_empty past _ scancodeSet _ h, delivered_concat_empty interrupts h]
      exact ih
    rw [lookups_keyboardHandler past _ scancodeSet _ h, delivered_concat interrupts h,
      bytesInReach_concat, ih]
    refine and_congr Iff.rfl ?_
    -- the flag matters for set 2 only
    refine and_congr (forall_congr' fun htwo => ?_) Iff.rfl
    subst htwo
    rw [keyboardRun_releaseNext, decide_eq_true_iff]

/-- The release of F7 with set 2: the second byte is looked up behind the table. -/
theorem keyboardRun_releaseF7 :
    ¬ ∀ lookup ∈ (keyboardRun ⟨fun _ => 0, fun _ => (0, 0)⟩ 2 [(1, 0xF0), (1, 0x83)]).lookups,
      lookup.index < 128 := by
  decide

end DzOS.Proofs.Drivers
