import DzOS.Lib.Bytes

/-!
# `DzOS.Lib.SaveArea`: saving registers to memory and loading them back

Code that switches between two register files writes registers to fixed offsets of a memory
area, copies words from one area to another, and loads registers from an area. A table of
offsets says which word goes where. `ρ` is the type of register names.

`writeAll` is the common core: a list of words written one after the other. `word_writeAll`
says that every word is in its place afterwards when no two places overlap. `store`, `copy` and
`pushAll` are lists of writes, and their lemmas follow from it. `load_of_mem` says what a
register holds after a list of loads, where the register with the address of the area may be
loaded last only.
-/

set_option autoImplicit false

namespace DzOS.Lib

variable {base dst i src a' dstSize size srcSize top a : Nat} {v : UInt64} {vs : List UInt64}
  {b : Bytes} {l : List (Nat × Nat)} {ws : List (Nat × UInt64)}

namespace Bytes

/-- The eight-byte word at `a`. -/
def word (b : Bytes) (a : Nat) : UInt64 := UInt64.ofNat (b.getLE 8 a)

/-- The store after writing the eight-byte word `v` at `a`. -/
def setWord (b : Bytes) (a : Nat) (v : UInt64) : Bytes := b.setLE 8 a v.toNat

/-- The word just written is read back. -/
@[simp] theorem word_setWord_self (b : Bytes) (a : Nat) (v : UInt64) :
    (b.setWord a v).word a = v := by
  have hlt : v.toNat < 256 ^ 8 := v.toNat_lt
  simp only [word, setWord, getLE_setLE_self, Nat.mod_eq_of_lt hlt, UInt64.ofNat_toNat]

/-- A word apart from the one written keeps its value. -/
theorem word_setWord_of_apart (h : a' + 8 ≤ a ∨ a + 8 ≤ a') :
    (b.setWord a v).word a' = b.word a' := by
  rw [word, setWord, getLE_setLE_of_apart h, word]

/-- A word depends on its own bytes only. -/
theorem word_congr {b' : Bytes} (h : ∀ i, a ≤ i → i < a + 8 → b i = b' i) :
    b.word a = b'.word a := by
  rw [word, getLE_congr h, word]

end Bytes

/-- Two words at these addresses do not overlap. -/
def WordsApart (a a' : Nat) : Prop := a + 8 ≤ a' ∨ a' + 8 ≤ a

instance (a a' : Nat) : Decidable (WordsApart a a') :=
  inferInstanceAs (Decidable (_ ∨ _))

/-- Two words of an area do not overlap when their offsets are apart. -/
theorem wordsApart_add (h : WordsApart a a') : WordsApart (base + a) (base + a') := by
  unfold WordsApart at h ⊢
  omega

/-! ### Lists of writes -/

/-- The store after writing the words of a list, each to its address, in order. -/
def writeAll : List (Nat × UInt64) → Bytes → Bytes
  | [], b => b
  | (a, v) :: ws, b => writeAll ws (b.setWord a v)

/-- A byte outside all written words keeps its value. -/
theorem writeAll_of_apart (h : ∀ w ∈ ws, i < w.1 ∨ w.1 + 8 ≤ i) : writeAll ws b i = b i := by
  induction ws generalizing b with
  | nil => rfl
  | cons w ws ih =>
    obtain ⟨a, v⟩ := w
    rw [writeAll, ih fun w' hw' => h w' (List.mem_cons_of_mem _ hw'), Bytes.setWord,
      Bytes.setLE_of_apart (h _ List.mem_cons_self)]

/-- A word apart from all written words keeps its value. -/
theorem word_writeAll_of_apart (h : ∀ w ∈ ws, WordsApart w.1 a) :
    (writeAll ws b).word a = b.word a := by
  refine Bytes.word_congr fun i hlo hhi => writeAll_of_apart fun w hw => ?_
  have hapart := h w hw
  unfold WordsApart at hapart
  omega

/-- Every written word is in its place when no two of them overlap. -/
theorem word_writeAll (h : ws.Pairwise fun w w' => WordsApart w.1 w'.1) (hw : (a, v) ∈ ws) :
    (writeAll ws b).word a = v := by
  induction ws generalizing b with
  | nil => cases hw
  | cons w ws ih =>
    obtain ⟨a₀, v₀⟩ := w
    obtain ⟨hhead, htail⟩ := List.pairwise_cons.mp h
    rw [writeAll]
    cases List.mem_cons.mp hw with
    | inl heq =>
      obtain ⟨rfl, rfl⟩ := Prod.mk.inj heq
      -- The later writes leave the first word alone.
      rw [word_writeAll_of_apart fun w' hw' => (hhead w' hw').symm, Bytes.word_setWord_self]
    | inr hmem => exact ih htail hmem

/-! ### Stores and loads of registers -/

section Registers

variable {ρ : Type}

/-- A table of registers, each with the offset of its word in an area. -/
abbrev Layout (ρ : Type) := List (ρ × Nat)

/-- Store the registers of a layout to the area at `base`. -/
def store (regs : ρ → UInt64) (base : Nat) (l : Layout ρ) (b : Bytes) : Bytes :=
  writeAll (l.map fun e => (base + e.2, regs e.1)) b

/-- A byte outside the area keeps its value. -/
theorem store_of_apart {regs : ρ → UInt64} {l : Layout ρ} (hl : ∀ e ∈ l, e.2 + 8 ≤ size)
    (hi : i < base ∨ base + size ≤ i) : store regs base l b i = b i := by
  refine writeAll_of_apart fun w hw => ?_
  obtain ⟨e, he, rfl⟩ := List.mem_map.mp hw
  have hfit := hl e he
  show i < base + e.2 ∨ base + e.2 + 8 ≤ i
  omega

/-- A stored register is in its word when no two words overlap. -/
theorem word_store {regs : ρ → UInt64} {l : Layout ρ}
    (h : l.Pairwise fun e e' => WordsApart e.2 e'.2) {e : ρ × Nat} (he : e ∈ l) :
    (store regs base l b).word (base + e.2) = regs e.1 := by
  have hpair : (l.map fun e => (base + e.2, regs e.1)).Pairwise fun w w' => WordsApart w.1 w'.1 :=
    List.pairwise_map.mpr (h.imp fun hapart => wordsApart_add hapart)
  exact word_writeAll hpair (List.mem_map.mpr ⟨e, he, rfl⟩)

variable [DecidableEq ρ]

/-- Load registers one after the other from the area whose address is in the register
`base`. -/
def load (b : Bytes) (base : ρ) : Layout ρ → (ρ → UInt64) → (ρ → UInt64)
  | [], regs => regs
  | (r, off) :: l, regs =>
    load b base l (Function.update regs r (b.word ((regs base).toNat + off)))

/-- A register that is not loaded keeps its value. -/
theorem load_of_not_mem {base : ρ} {l : Layout ρ} {regs : ρ → UInt64} {r : ρ}
    (h : ∀ e ∈ l, e.1 ≠ r) :
    load b base l regs r = regs r := by
  induction l generalizing regs with
  | nil => rfl
  | cons e l ih =>
    have hne : r ≠ e.1 := (h e List.mem_cons_self).symm
    rw [load, ih fun e' he' => h e' (List.mem_cons_of_mem _ he'), Function.update_of_ne hne]

/-- A list of loads in two parts. -/
theorem load_append (b : Bytes) (base : ρ) (l l' : Layout ρ) (regs : ρ → UInt64) :
    load b base (l ++ l') regs = load b base l' (load b base l regs) := by
  induction l generalizing regs with
  | nil => rfl
  | cons e l ih => exact ih _

section

variable {base : ρ} {l : Layout ρ} {e : ρ × Nat} (hnd : l.Pairwise fun e e' => e.1 ≠ e'.1)
  (hbase : ∀ e ∈ l, e.1 ≠ base)

include hnd hbase

/-- A register of the layout is loaded from its word, when every register is loaded once and
the base register is not among them. -/
theorem load_of_mem {regs : ρ → UInt64} (he : e ∈ l) :
    load b base l regs e.1 = b.word ((regs base).toNat + e.2) := by
  induction l generalizing regs with
  | nil => cases he
  | cons e₀ l ih =>
    obtain ⟨hhead, htail⟩ := List.pairwise_cons.mp hnd
    have hb : base ≠ e₀.1 := (hbase e₀ List.mem_cons_self).symm
    cases List.mem_cons.mp he with
    | inl heq =>
      subst heq
      rw [load, load_of_not_mem fun e' he' => (hhead e' he').symm, Function.update_self]
    | inr hmem =>
      rw [load, ih htail (fun e' he' => hbase e' (List.mem_cons_of_mem _ he')) hmem,
        Function.update_of_ne hb]

/-- The same when the base register is loaded too, but last. -/
theorem load_base_last {off : Nat} {regs : ρ → UInt64} (he : e ∈ l ++ [(base, off)]) :
    load b base (l ++ [(base, off)]) regs e.1 = b.word ((regs base).toNat + e.2) := by
  rw [load_append, load, load, load_of_not_mem hbase]
  cases List.mem_append.mp he with
  | inl hmem => rw [Function.update_of_ne (hbase e hmem), load_of_mem hnd hbase hmem]
  | inr hlast =>
    cases List.mem_singleton.mp hlast
    rw [Function.update_self]

end

end Registers

/-! ### Copies and pushes -/

/-- Copy words from the area at `src` to the area at `dst`. The table has the offset in `src`
and the offset in `dst` of each word. -/
def copy (src dst : Nat) : List (Nat × Nat) → Bytes → Bytes
  | [], b => b
  | (s, d) :: l, b => copy src dst l (b.setWord (dst + d) (b.word (src + s)))

/-- Copies between two areas that do not overlap write the words that the source area holds at
the start. -/
theorem copy_eq_writeAll (hl : ∀ e ∈ l, e.1 + 8 ≤ srcSize ∧ e.2 + 8 ≤ dstSize)
    (happart : src + srcSize ≤ dst ∨ dst + dstSize ≤ src) :
    copy src dst l b = writeAll (l.map fun e => (dst + e.2, b.word (src + e.1))) b := by
  induction l generalizing b with
  | nil => rfl
  | cons e l ih =>
    have hsame : ∀ e' ∈ l,
        (b.setWord (dst + e.2) (b.word (src + e.1))).word (src + e'.1) = b.word (src + e'.1) := by
      intro e' he'
      have hfit := (hl e List.mem_cons_self).2
      have hfit' := (hl e' (List.mem_cons_of_mem _ he')).1
      exact Bytes.word_setWord_of_apart (by omega)
    show copy src dst l (b.setWord (dst + e.2) (b.word (src + e.1))) = _
    rw [ih fun e' he' => hl e' (List.mem_cons_of_mem _ he'), List.map_cons]
    exact congrArg (writeAll · _) (List.map_congr_left fun e' he' => by rw [hsame e' he'])

/-- A byte outside the target area keeps its value. -/
theorem copy_of_apart (hl : ∀ e ∈ l, e.2 + 8 ≤ size) (hi : i < dst ∨ dst + size ≤ i) :
    copy src dst l b i = b i := by
  induction l generalizing b with
  | nil => rfl
  | cons e l ih =>
    have hfit := hl e List.mem_cons_self
    show copy src dst l (b.setWord (dst + e.2) (b.word (src + e.1))) i = _
    rw [ih fun e' he' => hl e' (List.mem_cons_of_mem _ he')]
    exact Bytes.setLE_of_apart (by omega)

/-- A copied word has the value of its source when the target words do not overlap. -/
theorem word_copy (hl : ∀ e ∈ l, e.1 + 8 ≤ srcSize ∧ e.2 + 8 ≤ dstSize)
    (happart : src + srcSize ≤ dst ∨ dst + dstSize ≤ src)
    (hdst : l.Pairwise fun e e' => WordsApart e.2 e'.2) {e : Nat × Nat} (he : e ∈ l) :
    (copy src dst l b).word (dst + e.2) = b.word (src + e.1) := by
  have hpair : (l.map fun e => (dst + e.2, b.word (src + e.1))).Pairwise
      fun w w' => WordsApart w.1 w'.1 := by
    refine List.pairwise_map.mpr (hdst.imp fun h => ?_)
    exact wordsApart_add h
  have hmem : (dst + e.2, b.word (src + e.1)) ∈ l.map fun e => (dst + e.2, b.word (src + e.1)) :=
    List.mem_map.mpr ⟨e, he, rfl⟩
  rw [copy_eq_writeAll hl happart]
  exact word_writeAll hpair hmem

/-- Push words on a stack that grows down: the memory and the new top. -/
def pushAll : List UInt64 → Bytes × Nat → Bytes × Nat
  | [], s => s
  | v :: vs, (b, top) => pushAll vs (b.setWord (top - 8) v, top - 8)

/-- The top of the stack after pushing a list of words. -/
theorem pushAll_top (vs : List UInt64) (b : Bytes) (top : Nat) :
    (pushAll vs (b, top)).2 = top - 8 * vs.length := by
  induction vs generalizing b top with
  | nil => rfl
  | cons v vs ih =>
    rw [pushAll, ih, List.length_cons]
    omega

/-- The memory above the top is not written. -/
theorem pushAll_above (hroom : 8 * vs.length ≤ top) (h : top ≤ a) :
    (pushAll vs (b, top)).1.word a = b.word a := by
  induction vs generalizing b top with
  | nil => rfl
  | cons v vs ih =>
    rw [List.length_cons] at hroom
    have hrest : (pushAll vs (b.setWord (top - 8) v, top - 8)).1.word a = _ :=
      ih (by omega) (by omega)
    exact hrest.trans (Bytes.word_setWord_of_apart (by omega))

/-- The `k`-th pushed word is at its place below the old top. -/
theorem word_pushAll (hroom : 8 * vs.length ≤ top) {k : Nat} (hk : k < vs.length) :
    (pushAll vs (b, top)).1.word (top - 8 * (k + 1)) = vs[k] := by
  induction vs generalizing b top k with
  | nil => cases hk
  | cons v vs ih =>
    rw [List.length_cons] at hroom hk
    cases k with
    | zero =>
      have hkeep : (pushAll vs (b.setWord (top - 8) v, top - 8)).1.word (top - 8) = _ :=
        pushAll_above (by omega) (Nat.le_refl (top - 8))
      exact hkeep.trans (Bytes.word_setWord_self _ _ _)
    | succ k =>
      have hplace : top - 8 * (k + 1 + 1) = top - 8 - 8 * (k + 1) := by omega
      rw [hplace]
      exact ih (by omega) (by omega)

end DzOS.Lib
