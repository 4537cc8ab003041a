import DzOS.Mem.KernelSpace
import DzOS.Proofs.Mem.KernelHalf
import DzOS.Proofs.Mem.UserSpace

/-!
# `DzOS.Proofs.Mem.KernelMapping`: what one mapping of the kernel does to the leaves

The functions that map a page make the missing tables on the way and write one leaf entry.
`LeafSet t t' va v` is the effect on all leaves: the leaf of `va` holds `v`, and the others are
kept (`Kept`). `Kept` allows one thing: where there was no table, an empty leaf may appear.

`translate_open` says what the CPU makes of a leaf at the end of an open way, where all tables
allow writing.
-/

set_option autoImplicit false

namespace DzOS.Proofs.Mem

open DzOS.Lib DzOS.Mem

variable {ok : Bool} {flags va q v pa : UInt64} {t t' t'' : PageTree 3} {pages rest : List UInt64}

/-! ### Leaves that stay -/

/-- The leaf of `q` is as before, or an empty one where there was none. -/
def Kept (t t' : PageTree 3) (q : UInt64) : Prop :=
  readLeaf t' q = readLeaf t q ∨ readLeaf t q = none ∧ readLeaf t' q ∈ [none, some 0]

theorem Kept.refl (t : PageTree 3) (q : UInt64) : Kept t t q := Or.inl rfl

theorem Kept.trans (h : Kept t t' q) (h' : Kept t' t'' q) : Kept t t'' q := by
  rcases h with h | ⟨h, hnew⟩
  · rcases h' with h' | ⟨h', hnew'⟩
    · exact Or.inl (h'.trans h)
    · exact Or.inr ⟨h ▸ h', hnew'⟩
  · rcases h' with h' | ⟨-, hnew'⟩
    · exact Or.inr ⟨h, h' ▸ hnew⟩
    · exact Or.inr ⟨h, hnew'⟩

/-- A leaf that was there is still the same. -/
theorem Kept.eq_some (h : Kept t t' q) {e : UInt64} (he : readLeaf t q = some e) :
    readLeaf t' q = some e := by
  rcases h with h | ⟨h, -⟩
  · rw [h, he]
  · rw [he] at h
    cases h

/-- New tables keep all leaves. -/
theorem kept_extendPath (hp : flags &&& PTE_P = PTE_P) (hps : flags &&& PTE_PS = 0) (t : PageTree 3)
    (va : UInt64) (pages : List UInt64) (q : UInt64) : Kept t (extendPath flags t va pages).2.1 q :=
  Radix.leaf_extend (fun a => (tableEntry_flags hp hps a).1) (by decide) t (vaPath va) pages
    (vaPath q)

/-! ### Open ways -/

/-- The tables on the way to `va` are no huge pages and allow writing. -/
def OpenPath (t : PageTree 3) (va : UInt64) : Prop :=
  t.OnPath pteIsPresent (fun pte => pteIsHuge pte = false ∧ pteIsWritable pte = true) (vaPath va)

/-- A write to a leaf keeps the ways open. -/
theorem openPath_writeLeaf (v : UInt64) (h : OpenPath t q) : OpenPath (writeLeaf t va v) q :=
  Radix.onPath_setLeaf v h

/-! ### One leaf -/

/-- The leaf of `va` was set to `v`. -/
structure LeafSet (t t' : PageTree 3) (va v : UInt64) : Prop where
  own : readLeaf t' va = some v
  others : ∀ q, ¬ SamePage q va → Kept t t' q

/-- A write to a leaf that is there. -/
theorem leafSet_write (hleaf : (readLeaf t' va).isSome) (hkept : ∀ q, Kept t t' q) (v : UInt64) :
    LeafSet t (writeLeaf t' va v) va v where
  own := by
    rw [readLeaf, writeLeaf, Radix.leaf_setLeaf hleaf]
    exact if_pos (samePage_refl va)
  others q hq := (hkept q).trans (Or.inl (readLeaf_writeLeaf_of_ne v hq))

/-- What a walk with allocation does: it keeps all leaves, and the leaf of its address is there
when the memory was enough. Three pages are enough. Open ways stay open, and the other entries of
the top table are left alone. -/
structure WalkKept (t t' : PageTree 3) (va : UInt64) (ok : Bool) (pages rest : List UInt64) :
    Prop where
  kept : ∀ q, Kept t t' q
  slot : ok = true → (readLeaf t' va).isSome
  supply : rest <:+ pages
  enough : 3 ≤ pages.length → ok = true ∧ pages.length ≤ rest.length + 3
  opens : ∀ q, OpenPath t q → OpenPath t' q
  branch : ∀ idx, idx ≠ vaPath va 3 → t'.branchAt idx = t.branchAt idx

/-- The tables of a path. -/
theorem extendPath_walkKept (hp : flags &&& PTE_P = PTE_P) (hps : flags &&& PTE_PS = 0)
    (hw : flags &&& PTE_W = PTE_W) (h : extendPath flags t va pages = (ok, t', rest)) :
    WalkKept t t' va ok pages rest where
  kept q := by
    have hkept := kept_extendPath hp hps t va pages q
    rw [h] at hkept
    exact hkept
  slot hok := by
    have hok' : (extendPath flags t va pages).1 = true := by
      rw [h]
      exact hok
    have hleaf := readLeaf_extendPath hp hps hok'
    rw [h] at hleaf
    exact hleaf
  supply := by
    have hsupply : (extendPath flags t va pages).2.2 <:+ pages := (extend_supply _ t _ pages).1
    rw [h] at hsupply
    exact hsupply
  enough hlen := by
    have hlength : (extendPath flags t va pages).1 = true ∧
        pages.length ≤ (extendPath flags t va pages).2.2.length + 3 :=
      Radix.extend_of_length t (vaPath va) hlen
    rw [h] at hlength
    exact hlength
  opens q hopen := by
    have hopen' : OpenPath (extendPath flags t va pages).2.1 q := by
      refine Radix.onPath_extend (fun pa => ⟨(tableEntry_flags hp hps pa).2, ?_⟩) (by decide) pages
        hopen
      rw [pteIsWritable, flags_and_addr (by decide), hw]
      decide
    rw [h] at hopen'
    exact hopen'
  branch idx hidx := by
    have hbranch : (extendPath flags t va pages).2.1.branchAt idx = t.branchAt idx :=
      Radix.branchAt_extend t pages hidx
    rw [h] at hbranch
    exact hbranch

/-- `walk_kernel` with allocation. -/
theorem walkKernel_walkKept (h : walkKernel t va pages = .ok (ok, t', rest)) :
    WalkKept t t' va ok pages rest := by
  unfold walkKernel at h
  split at h
  · cases h
  · exact extendPath_walkKept (by decide) (by decide) (by decide) (Except.ok.inj h)

/-- `walk` with allocation. -/
theorem walkUser_walkKept {io : Bool} (h : walkUser t va io pages = .ok (ok, t', rest)) :
    WalkKept t t' va ok pages rest := by
  unfold walkUser at h
  split at h
  · cases h
  · exact extendPath_walkKept (by decide) (by decide) (by decide) (Except.ok.inj h)

/-! ### What the CPU makes of a leaf -/

section

variable {n : Nat} {t : PageTree n} {p : Nat → Nat} {pte : UInt64}
  (hopen : t.OnPath pteIsPresent (fun pte => pteIsHuge pte = false ∧ pteIsWritable pte = true) p)
  (hleaf : t.leaf pteIsPresent p = some pte)

include hopen hleaf

/-- The walk of the CPU along an open way, to a leaf that is neither for users nor executable. -/
theorem translateFrom_open (hpresent : pteIsPresent pte = true) (huser : pteIsUser pte = false)
    (hexec : pteIsExecutable pte = false) (w u x : Bool) :
    translateFrom t p w u x =
      some ⟨pteFollow pte, 0, w && pteIsWritable pte, false, false⟩ := by
  induction t generalizing w u x with
  | leaves e =>
    have he : e (p 0) = pte := Option.some.inj hleaf
    simp [translateFrom, he, hpresent, huser, hexec]
  | node e c ih =>
    rename_i n
    rw [Radix.leaf] at hleaf
    split at hleaf
    · rename_i hb
      obtain ⟨⟨hhuge, hwrite⟩, hsub⟩ := hopen hb
      rw [translateFrom]
      simp only [hb, hhuge, hwrite, Bool.not_true, Bool.false_eq_true, if_false, Bool.and_true]
      exact ih _ hsub hleaf w _ _
    · cases hleaf

/-- The cache of the page at the end of an open way. -/
theorem cacheDisabledFrom_open : cacheDisabledFrom t p = ((pte &&& PTE_PCD) != 0) := by
  induction t with
  | leaves e =>
    have he : e (p 0) = pte := Option.some.inj hleaf
    rw [cacheDisabledFrom, he]
  | node e c ih =>
    rename_i n
    rw [Radix.leaf] at hleaf
    split at hleaf
    · rename_i hb
      obtain ⟨⟨hhuge, -⟩, hsub⟩ := hopen hb
      rw [cacheDisabledFrom, hhuge, if_neg Bool.false_ne_true]
      exact ih _ hsub hleaf
    · cases hleaf

end

/-- The translation of an address whose way is open. -/
theorem translate_open {pte : UInt64} (hcanonical : canonical va = true) (hopen : OpenPath t va)
    (hleaf : readLeaf t va = some pte) (hpresent : pteIsPresent pte = true)
    (huser : pteIsUser pte = false) (hexec : pteIsExecutable pte = false) :
    translate t va = some ⟨pteFollow pte, 0, pteIsWritable pte, false, false⟩ := by
  unfold DzOS.Mem.translate
  rw [if_pos hcanonical, translateFrom_open hopen hleaf hpresent huser hexec, Bool.true_and]

end DzOS.Proofs.Mem
