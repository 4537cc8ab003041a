import Mathlib.Logic.Function.Basic

/-!
# `DzOS.Lib.FileStore`: a store of named files and folders

What a file system is for, without its blocks. A store maps the identifiers of its entities to
their parent and their name, and to the content of the files. It knows nothing of how a path is
looked up: the operations take identifiers.

A file has a size, and some of its bytes are known. A write makes its bytes known, and what an
implementation leaves open is forgotten. `Content.Exact` states that exactly the bytes of a list
are known. It is what appending keeps (`Content.Exact.append`).
-/

set_option autoImplicit false

namespace DzOS.Lib

variable {p : Nat → Prop}

/-! ### The content of a file -/

/-- The size of a file and its known bytes. -/
structure Content (B : Type) where
  size : Nat
  known : Nat → Option B

section
variable {B : Type}

/-- An empty file. -/
def Content.empty : Content B := ⟨0, fun _ => none⟩

/-- The data becomes known at its range from `offset` on. -/
def Content.put (c : Content B) (data : List B) (offset : Nat) : Content B :=
  { c with
    known := fun pos =>
      if offset ≤ pos ∧ pos < offset + data.length then data[pos - offset]? else c.known pos }

/-- The known bytes at the positions in `p` become `b`. -/
def Content.fill (c : Content B) (p : Nat → Prop) [DecidablePred p] (b : B) : Content B :=
  { c with known := fun pos => if p pos then (c.known pos).map fun _ => b else c.known pos }

/-- The bytes at the positions in `p` are not known any more. -/
def Content.forget (c : Content B) (p : Nat → Prop) [DecidablePred p] : Content B :=
  { c with known := fun pos => if p pos then none else c.known pos }

/-- Another size. -/
def Content.resize (c : Content B) (size : Nat) : Content B := { c with size := size }

/-- The bytes of the file are those of the list. -/
structure Content.Exact (c : Content B) (l : List B) : Prop where
  size : c.size = l.length
  known : ∀ pos, c.known pos = l[pos]?

variable {c : Content B} {l data : List B}

theorem Content.exact_empty : (Content.empty : Content B).Exact [] := ⟨rfl, fun _ => rfl⟩

/-- Data at the end of a file goes behind its bytes. -/
theorem Content.Exact.append (h : c.Exact l) :
    ((c.put data l.length).resize (l ++ data).length).Exact (l ++ data) where
  size := rfl
  known pos := by
    simp only [Content.put, Content.resize, h.known]
    by_cases hpos : l.length ≤ pos
    · rw [List.getElem?_append_right hpos]
      split
      · rfl
      · rw [List.getElem?_eq_none hpos, List.getElem?_eq_none (by omega)]
    · rw [if_neg (fun hin => hpos hin.1), List.getElem?_append_left (Nat.lt_of_not_le hpos)]

/-- What is forgotten was not known. -/
theorem Content.Exact.forget (h : c.Exact l) [DecidablePred p]
    (hp : ∀ pos, p pos → l.length ≤ pos) :
    (c.forget p).Exact l where
  size := h.size
  known pos := by
    simp only [Content.forget, h.known]
    split
    · rename_i hpos
      exact (List.getElem?_eq_none (hp pos hpos)).symm
    · rfl

/-- What is filled was not known. -/
theorem Content.Exact.fill (h : c.Exact l) [DecidablePred p] {b : B}
    (hp : ∀ pos, p pos → l.length ≤ pos) : (c.fill p b).Exact l where
  size := h.size
  known pos := by
    simp only [Content.fill, h.known]
    split
    · rename_i hpos
      rw [List.getElem?_eq_none (hp pos hpos)]
      rfl
    · rfl

end

/-! ### The store -/

/-- An entity with its parent and its name. A folder has no content. -/
structure Entity (K N B : Type) where
  parent : K
  name : N
  content : Option (Content B)

/-- A store of entities. -/
abbrev NamedStore (K N B : Type) : Type := K → Option (Entity K N B)

section
variable {K N B : Type} [DecidableEq K]

/-- A new entity. An entity that is there already stays. -/
def NamedStore.create (t : NamedStore K N B) (k : K) (e : Entity K N B) : NamedStore K N B :=
  if (t k).isSome then t else Function.update t k (some e)

/-- The content of a file changes. -/
def NamedStore.modify (t : NamedStore K N B) (k : K) (f : Content B → Content B) :
    NamedStore K N B :=
  Function.update t k ((t k).map fun e => { e with content := e.content.map f })

/-- An entity goes. -/
def NamedStore.remove (t : NamedStore K N B) (k : K) : NamedStore K N B :=
  Function.update t k none

/-- An entity moves to a folder, and it has a name there. An entity that had the name in that folder
goes. -/
def NamedStore.move [DecidableEq N] (t : NamedStore K N B) (k parent : K) (name : N) :
    NamedStore K N B := fun m =>
  if m = k then (t k).map fun e => { e with parent := parent, name := name }
  else (t m).filter fun e => ¬ (e.parent = parent ∧ e.name = name)

variable {t : NamedStore K N B} {k m parent : K} {name : N} {e : Entity K N B}
  {f : Content B → Content B}

@[simp] theorem NamedStore.modify_self :
    t.modify k f k = (t k).map fun e => { e with content := e.content.map f } :=
  Function.update_self _ _ _

@[simp] theorem NamedStore.modify_of_ne (h : m ≠ k) : t.modify k f m = t m :=
  Function.update_of_ne h _ _

/-- The content of the entities changes, and nothing else does. -/
theorem NamedStore.modify_eq_some (h : t.modify k f m = some e) :
    ∃ e₀, t m = some e₀ ∧ e.parent = e₀.parent ∧ e.name = e₀.name ∧
      e.content = if m = k then e₀.content.map f else e₀.content := by
  by_cases hm : m = k
  · subst hm
    rw [modify_self, Option.map_eq_some_iff] at h
    obtain ⟨e₀, he, rfl⟩ := h
    exact ⟨e₀, he, rfl, rfl, (if_pos rfl).symm⟩
  · rw [modify_of_ne hm] at h
    exact ⟨e, h, rfl, rfl, (if_neg hm).symm⟩

theorem NamedStore.modify_isSome : (t.modify k f m).isSome = (t m).isSome := by
  by_cases hm : m = k
  · subst hm
    rw [modify_self, Option.isSome_map]
  · rw [modify_of_ne hm]

theorem NamedStore.create_of_isSome (h : (t k).isSome) : t.create k e = t := if_pos h

theorem NamedStore.create_of_none (h : t k = none) : t.create k e = Function.update t k (some e) :=
  if_neg (by rw [h]; exact Bool.false_ne_true)

/-- What is in the store after a move of an entity that is there. -/
theorem NamedStore.move_eq_some [DecidableEq N] {e' : Entity K N B} (hk : t k = some e) :
    t.move k parent name m = some e' ↔
      (m = k ∧ e' = { e with parent := parent, name := name }) ∨
        m ≠ k ∧ t m = some e' ∧ ¬ (e'.parent = parent ∧ e'.name = name) := by
  unfold NamedStore.move
  by_cases hm : m = k
  · rw [if_pos hm, hk]
    simp [hm, eq_comm]
  · rw [if_neg hm, Option.filter_eq_some_iff, decide_eq_true_eq]
    simp only [hm, false_and, false_or, ne_eq, not_false_eq_true, true_and]

/-- When an entity has the name in the new folder, a move may remove it first. -/
theorem NamedStore.move_remove [DecidableEq N] (hm : t m = some e) (hparent : e.parent = parent)
    (hname : e.name = name) (hmk : m ≠ k) :
    (t.remove m).move k parent name = t.move k parent name := by
  funext i
  unfold NamedStore.move NamedStore.remove
  rw [Function.update_of_ne hmk.symm]
  by_cases hi : i = k
  · rw [if_pos hi, if_pos hi]
  · rw [if_neg hi, if_neg hi]
    by_cases him : i = m
    · subst him
      rw [Function.update_self, hm, Option.filter_some, if_neg (by simp [hparent, hname])]
      rfl
    · rw [Function.update_of_ne him]

end

end DzOS.Lib
