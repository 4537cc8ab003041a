import DzOS.Lib.Bytes

/-!
# `DzOS.Lib.PagedView`: a store seen through pages

Virtual addresses are numbers, and `size` of them make a page. `frame` gives the place of each
page in a byte store, and `view` is the byte that an address leads to. Only the pages of a set
`S` count, and their frames do not overlap (`Apart`).

`Copied` says that a store differs from another one, as seen through `S`, by the bytes from `lo`
to `hi` only, and what these are. It has a rule for nothing (`copied_refl`), for one write inside a
page (`copied_blit`), and for two steps one after the other (`Copied.trans`). A loop that goes from
page to page is a chain of such steps.

`Written` says the same about the whole store: the bytes of a list are at the places of the
addresses from `lo` on, and no other byte is changed.
-/

set_option autoImplicit false

namespace DzOS.Lib.PagedView

variable {src : List UInt8} {size lo mid hi : Nat} {frame : Nat → Nat} {S : Set Nat}
  {mem mem' mem'' : Bytes} {content : Nat → UInt8}

/-- The byte that an address leads to. -/
def view (size : Nat) (frame : Nat → Nat) (mem : Bytes) (x : Nat) : UInt8 :=
  mem (frame (x / size) + x % size)

/-- The frames of different pages do not overlap. -/
def Apart (size : Nat) (frame : Nat → Nat) (S : Set Nat) : Prop :=
  ∀ p ∈ S, ∀ q ∈ S, p ≠ q → frame p + size ≤ frame q ∨ frame q + size ≤ frame p

/-- The bytes from `lo` to `hi` are those of `content` in the second store, and the others are
those of the first one. -/
def Copied (size : Nat) (frame : Nat → Nat) (S : Set Nat) (mem mem' : Bytes) (lo hi : Nat)
    (content : Nat → UInt8) : Prop :=
  ∀ x, x / size ∈ S →
    view size frame mem' x = if lo ≤ x ∧ x < hi then content x else view size frame mem x

/-- Nothing is copied. -/
theorem copied_refl (mem : Bytes) (lo : Nat) (content : Nat → UInt8) :
    Copied size frame S mem mem lo lo content := by
  intro x _
  have hout : ¬ (lo ≤ x ∧ x < lo) := by omega
  rw [if_neg hout]

/-- Two pieces that follow each other. -/
theorem Copied.trans (h : Copied size frame S mem mem' lo mid content)
    (h' : Copied size frame S mem' mem'' mid hi content) (hlo : lo ≤ mid) (hhi : mid ≤ hi) :
    Copied size frame S mem mem'' lo hi content := by
  intro x hx
  rw [h' x hx, h x hx]
  by_cases hsecond : mid ≤ x ∧ x < hi
  · have hwhole : lo ≤ x ∧ x < hi := by omega
    rw [if_pos hsecond, if_pos hwhole]
  · rw [if_neg hsecond]
    have hiff : (lo ≤ x ∧ x < mid) ↔ (lo ≤ x ∧ x < hi) := by omega
    exact if_congr hiff rfl rfl

/-- A piece of the same contents. -/
theorem Copied.congr {content' : Nat → UInt8} (h : Copied size frame S mem mem' lo hi content)
    (heq : ∀ x, lo ≤ x → x < hi → content x = content' x) :
    Copied size frame S mem mem' lo hi content' := by
  intro x hx
  rw [h x hx]
  split
  · rename_i hin
    exact heq x hin.1 hin.2
  · rfl

/-- One write inside a page. -/
theorem copied_blit (mem : Bytes) (lo : Nat) (content : Nat → UInt8) (hS : Apart size frame S)
    (hsize : 0 < size) (hpage : lo / size ∈ S) (hfits : lo % size + src.length ≤ size)
    (hsrc : ∀ i (hi : i < src.length), src[i] = content (lo + i)) :
    Copied size frame S mem (mem.blit (frame (lo / size) + lo % size) src) lo (lo + src.length)
      content := by
  intro x hx
  have hmod := Nat.mod_lt x hsize
  have hlo := Nat.div_add_mod lo size
  have hxdiv := Nat.div_add_mod x size
  by_cases hsame : x / size = lo / size
  · by_cases hin : lo ≤ x ∧ x < lo + src.length
    · have hoff : frame (x / size) + x % size - (frame (lo / size) + lo % size) = x - lo := by
        rw [hsame] at hxdiv ⊢
        omega
      rw [if_pos hin, view, Bytes.blit_of_mem (by rw [hsame] at hxdiv ⊢; omega)
        (by rw [hsame] at hxdiv ⊢; omega)]
      simp only [hoff]
      rw [hsrc]
      congr 1
      omega
    · rw [if_neg hin, view, Bytes.blit_of_apart (by rw [hsame] at hxdiv ⊢; omega), view]
  · -- The address is on another page, whose frame does not overlap the written one.
    have hapart := hS _ hx _ hpage hsame
    have hout : ¬ (lo ≤ x ∧ x < lo + src.length) := by
      rintro ⟨h1, h2⟩
      have hle : x < (lo / size + 1) * size := by
        rw [Nat.add_mul, Nat.mul_comm]
        omega
      have hge : lo / size ≤ x / size := Nat.div_le_div_right h1
      have hlt : x / size < lo / size + 1 := (Nat.div_lt_iff_lt_mul hsize).mpr hle
      omega
    rw [if_neg hout, view, Bytes.blit_of_apart (by omega), view]

/-! ### The whole store -/

/-- The place of an address in the store. -/
def place (size : Nat) (frame : Nat → Nat) (x : Nat) : Nat := frame (x / size) + x % size

/-- The bytes of `src` are at the places of the addresses from `lo` on, and the rest of the store is
as before. -/
structure Written (size : Nat) (frame : Nat → Nat) (mem mem' : Bytes) (lo : Nat)
    (src : List UInt8) : Prop where
  bytes : ∀ k (h : k < src.length), mem' (place size frame (lo + k)) = src[k]
  rest : ∀ a, (∀ k < src.length, a ≠ place size frame (lo + k)) → mem' a = mem a

/-- Nothing is written. -/
theorem written_nil (mem : Bytes) (lo : Nat) : Written size frame mem mem lo [] where
  bytes k h := absurd h (Nat.not_lt_zero k)
  rest _ _ := rfl

/-- One write whose places follow each other. -/
theorem written_blit (mem : Bytes) {a : Nat}
    (h : ∀ k < src.length, place size frame (lo + k) = a + k) :
    Written size frame mem (mem.blit a src) lo src where
  bytes k hk := by
    rw [h k hk, Bytes.blit_of_mem (Nat.le_add_right a k) (Nat.add_lt_add_left hk a)]
    simp
  rest b hb := by
    refine Bytes.blit_of_apart ?_
    by_contra hc
    have hlt : b - a < src.length := by omega
    refine hb (b - a) hlt ?_
    rw [h _ hlt]
    omega

/-- The places in one page follow each other. -/
theorem place_add (hsize : 0 < size) {k : Nat} (h : lo % size + k < size) :
    place size frame (lo + k) = place size frame lo + k := by
  have hk : k < size := by omega
  have hkmod := Nat.mod_eq_of_lt hk
  have hdiv : (lo + k) / size = lo / size := by
    rw [Nat.add_div hsize, Nat.div_eq_of_lt hk, hkmod, if_neg (Nat.not_le.mpr h), Nat.add_zero]
  have hmod : (lo + k) % size = lo % size + k := by
    rw [Nat.add_mod, hkmod, Nat.mod_eq_of_lt h]
  rw [place, place, hdiv, hmod, Nat.add_assoc]

/-- Two addresses of pages whose frames are apart have different places. -/
theorem place_inj (hS : Apart size frame S) (hsize : 0 < size) {x y : Nat} (hx : x / size ∈ S)
    (hy : y / size ∈ S) (h : place size frame x = place size frame y) : x = y := by
  have hxmod := Nat.mod_lt x hsize
  have hymod := Nat.mod_lt y hsize
  have hxdiv := Nat.div_add_mod x size
  have hydiv := Nat.div_add_mod y size
  unfold place at h
  by_cases hsame : x / size = y / size
  · rw [hsame] at h hxdiv
    omega
  · have hapart := hS _ hx _ hy hsame
    omega

/-- Two pieces that follow each other. -/
theorem Written.append {src' : List UInt8} {n : Nat} (hn : src.length = n)
    (h : Written size frame mem mem' lo src) (h' : Written size frame mem' mem'' (lo + n) src')
    (hinj : ∀ j < n, ∀ k < src'.length,
      place size frame (lo + j) ≠ place size frame (lo + n + k)) :
    Written size frame mem mem'' lo (src ++ src') where
  bytes k hk := by
    subst hn
    by_cases hfirst : k < src.length
    · -- The second piece goes to other places.
      rw [h'.rest _ (hinj k hfirst), h.bytes k hfirst, List.getElem_append_left hfirst]
    · have hk' : k - src.length < src'.length := by
        rw [List.length_append] at hk
        omega
      have hbyte := h'.bytes (k - src.length) hk'
      have hplace : lo + src.length + (k - src.length) = lo + k := by omega
      rw [hplace] at hbyte
      rw [hbyte, List.getElem_append_right (by omega)]
  rest a ha := by
    subst hn
    rw [h'.rest a fun k hk hc => ha (src.length + k) (by rw [List.length_append]; omega)
      (by rw [← Nat.add_assoc]; exact hc)]
    exact h.rest a fun k hk => ha k (by rw [List.length_append]; omega)

/-- One write is right for every store and every source of a length exactly if the places of the
addresses follow each other. -/
theorem written_blit_iff {a len : Nat} :
    (∀ mem src, src.length = len → Written size frame mem (mem.blit a src) lo src) ↔
      ∀ k < len, place size frame (lo + k) = a + k := by
  constructor
  · intro h k hk
    -- A source with a single byte that is not zero, for a store of zeros.
    obtain ⟨zero, hzero⟩ : ∃ zero : Bytes, ∀ i, zero i = 0 := ⟨fun _ => 0, fun _ => rfl⟩
    obtain ⟨src, hsrc⟩ :
        ∃ src, src = (List.range len).map fun i => if i = k then (1 : UInt8) else 0 :=
      ⟨_, rfl⟩
    have hlen : src.length = len := by
      rw [hsrc, List.length_map, List.length_range]
    have hbyte := (h zero src hlen).bytes k (hlen ▸ hk)
    have hbound : k < src.length := hlen ▸ hk
    have hone : src[k] = 1 := by
      simp [hsrc]
    rw [hone] at hbyte
    by_contra hplace
    have hother : zero.blit a src (place size frame (lo + k)) = 0 := by
      by_cases hin : a ≤ place size frame (lo + k) ∧ place size frame (lo + k) < a + src.length
      · have hne : place size frame (lo + k) - a ≠ k := by omega
        rw [Bytes.blit_of_mem hin.1 hin.2]
        simp [hsrc, hne]
      · have hout : place size frame (lo + k) < a ∨ a + src.length ≤ place size frame (lo + k) := by
          omega
        rw [Bytes.blit_of_apart hout, hzero]
    rw [hother] at hbyte
    exact absurd hbyte (by decide)
  · intro h mem src hlen
    exact written_blit mem fun k hk => h k (hlen ▸ hk)

end DzOS.Lib.PagedView
