import Mathlib.Logic.Function.Basic

/-!
# `DzOS.Lib.LazyRegister`: a register that several owners share lazily

A register holds the content of its last owner. Every other owner has its content in an image
of its own. `acquire` makes `i` the owner: it writes the content of the last owner to its image
and loads the image of `i`, and it does nothing when `i` is the last owner already.

`value` is the content that belongs to an owner, wherever it is. `value_acquire` says that
`acquire` moves contents only, and `reg_acquire` that the new owner finds its own in the
register. A write to the register changes the content of the last owner and of no other one.
-/

set_option autoImplicit false

namespace DzOS.Lib

/-- A register with its last owner and the images of the owners. -/
structure LazyRegister (ι α : Type) where
  reg : α
  owner : Option ι
  image : ι → α

namespace LazyRegister

variable {ι α : Type} [DecidableEq ι] (r : LazyRegister ι α)

/-- The content that belongs to `i`. -/
def value (i : ι) : α := if r.owner = some i then r.reg else r.image i

/-- The images after the content of the last owner was written back. -/
def writeBack : ι → α :=
  match r.owner with
  | none => r.image
  | some j => Function.update r.image j r.reg

/-- Make `i` the owner of the register. -/
def acquire (i : ι) : LazyRegister ι α :=
  if r.owner = some i then r
  else { reg := r.writeBack i, owner := some i, image := r.writeBack }

/-- Write the register. -/
def write (v : α) : LazyRegister ι α := { r with reg := v }

/-- Write the image of `i`. -/
def writeImage (i : ι) (v : α) : LazyRegister ι α :=
  { r with image := Function.update r.image i v }

/-- After the write-back every image holds the content of its owner. -/
theorem writeBack_apply (i : ι) : r.writeBack i = r.value i := by
  unfold writeBack value
  cases howner : r.owner with
  | none => rw [if_neg (by simp)]
  | some j =>
    by_cases hij : j = i
    · subst hij
      rw [if_pos rfl]
      exact Function.update_self j r.reg r.image
    · rw [if_neg (fun h => hij (Option.some.inj h))]
      exact Function.update_of_ne (Ne.symm hij) r.reg r.image

@[simp] theorem owner_acquire (i : ι) : (r.acquire i).owner = some i := by
  unfold acquire
  split
  · assumption
  · rfl

/-- The new owner finds its content in the register. -/
@[simp] theorem reg_acquire (i : ι) : (r.acquire i).reg = r.value i := by
  unfold acquire
  split
  · rename_i howner
    rw [value, if_pos howner]
  · exact r.writeBack_apply i

/-- A change of the owner changes no content. -/
@[simp] theorem value_acquire (i j : ι) : (r.acquire i).value j = r.value j := by
  rw [value, owner_acquire]
  split
  · rename_i hij
    rw [reg_acquire, Option.some.inj hij]
  · unfold acquire
    split
    · rename_i hne howner
      rw [value, if_neg (by rwa [howner])]
    · exact r.writeBack_apply j

/-- The owner's content is in the register. -/
theorem value_of_owner {i : ι} (h : r.owner = some i) : r.value i = r.reg := if_pos h

/-- The content of anyone else is in the image. -/
theorem value_of_not_owner {i : ι} (h : r.owner ≠ some i) : r.value i = r.image i := if_neg h

/-- A write to the register gives the last owner new content. -/
theorem value_write (v : α) (i : ι) :
    (r.write v).value i = if r.owner = some i then v else r.value i := by
  show (if r.owner = some i then v else r.image i) = _
  split
  · rfl
  · rename_i howner
    rw [r.value_of_not_owner howner]

/-- A write to an image leaves the content of the others. -/
theorem value_writeImage_of_ne {i j : ι} (h : j ≠ i) (v : α) :
    (r.writeImage i v).value j = r.value j := by
  show (if r.owner = some j then r.reg else Function.update r.image i v j) = _
  rw [Function.update_of_ne h]
  rfl

end LazyRegister

end DzOS.Lib
