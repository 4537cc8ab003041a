import DzOS.Proofs.Mem.UserCopy

/-!
# `DzOS.Proofs.Mem.MemcpyExact`: what `vmm_memcpy` writes

`PageUsable` is the check of `vmm_memcpy` for one page. Below 4 GiB the loop copies the source up
to the first page that is not usable (`memcpyFrom_low`). From 4 GiB on, `PAGE_ROUND_DOWN` gives a
page of the lowest 4 GiB, and the rest of the destination goes to one place behind its frame
(`memcpyFrom_turn`).

`copiesExactly_iff` says for which destinations the function does what its comment says, for every
memory and every source.
-/

set_option autoImplicit false

namespace DzOS.Proofs.Mem

open DzOS.Lib DzOS.Lib.PagedView DzOS.Mem

variable {va destination : UInt64} {x n len fuel page memEnd : Nat} {S : Set Nat} {t : PageTree 3}
  {userspace : Bool} {source : List UInt8} {mem mem' : Bytes} {r : Int}

/-- The page lies in the user window, and its leaf entry is present and writable, with the user
bit `userspace`. -/
structure PageUsable (t : PageTree 3) (userspace : Bool) (page : Nat) : Prop where
  lo : USERSPACE_VA_MIN.toNat ≤ page * 4096
  hi : page * 4096 < USERSPACE_VA_MAX.toNat
  entry : ∃ pte, pageEntry t (pageVa page) = some pte ∧ pteIsUser pte = userspace ∧
    pteIsWritable pte = true

/-- The page that `vmm_memcpy` looks up for an address. -/
def lookupPage (destination : UInt64) : Nat := destination.toNat % 2 ^ 32 / 4096

/-- The physical address that `vmm_memcpy` writes to, when the page that it looks up is usable. -/
def lookupPlace (t : PageTree 3) (destination : UInt64) : UInt64 :=
  UInt64.ofNat (frameOf t (lookupPage destination)) + (destination - PAGE_ROUND_DOWN destination)

/-- The number of bytes that one turn of `vmm_memcpy` copies at most. -/
def turnLength (destination : UInt64) : Nat :=
  (PAGE_SIZE.toUInt64 - (destination - PAGE_ROUND_DOWN destination)).toNat

/-- The rounded address is the base of the page. -/
theorem toNat_lookupPage (destination : UInt64) :
    (PAGE_ROUND_DOWN destination).toNat = lookupPage destination * 4096 :=
  toNat_PAGE_ROUND_DOWN destination

/-- The rounded address and its page have the same entry. -/
theorem pageEntry_lookupPage (t : PageTree 3) (destination : UInt64) :
    pageEntry t (pageVa (lookupPage destination)) = pageEntry t (PAGE_ROUND_DOWN destination) := by
  rw [← pageEntry_pageVa t (PAGE_ROUND_DOWN destination), toNat_lookupPage,
    Nat.mul_div_cancel _ (by decide)]

/-- A frame is below the highest physical address. -/
theorem frameOf_lt (t : PageTree 3) (page : Nat) : frameOf t page < 2 ^ 52 := by
  unfold frameOf
  cases pageEntry t (pageVa page) with
  | none => decide
  | some pte =>
    have hfollow := toNat_pteFollow pte
    rw [Option.map_some, Option.getD_some]
    omega

/-- A turn of the loop of `vmm_memcpy` on a page that is not usable. -/
theorem memcpyFrom_unusable (hne : source ≠ [])
    (h : ¬ PageUsable t userspace (lookupPage destination)) :
    memcpyFrom memEnd t userspace (fuel + 1) destination source mem = .ok (-1, mem) := by
  have hbase := toNat_lookupPage destination
  rw [memcpyFrom, if_neg hne]
  dsimp only
  split
  · rfl
  rename_i hwindow
  rw [Bool.or_eq_true, not_or, decide_eq_true_eq, decide_eq_true_eq, ge_iff_le,
    UInt64.le_iff_toNat_le, UInt64.lt_iff_toNat_lt, hbase] at hwindow
  have hwalk : walkUserNoAlloc t (PAGE_ROUND_DOWN destination) false =
      .ok (readLeaf t (PAGE_ROUND_DOWN destination)) := by
    rw [walkUserNoAlloc, if_neg]
    rw [Bool.not_false, Bool.true_and, Bool.or_eq_true, not_or, decide_eq_true_eq,
      decide_eq_true_eq, ge_iff_le, UInt64.le_iff_toNat_le, UInt64.lt_iff_toNat_lt, hbase]
    exact hwindow
  rw [hwalk]
  cases hleaf : readLeaf t (PAGE_ROUND_DOWN destination) with
  | none => rfl
  | some pte =>
    dsimp only
    split
    · rfl
    · rename_i hcheck
      simp only [Bool.or_eq_true, not_or, Bool.not_eq_true, Bool.not_eq_false', bne_eq_false_iff_eq]
        at hcheck
      obtain ⟨⟨hpresent, huser⟩, hwrite⟩ := hcheck
      refine absurd ⟨?_, ?_, pte, ?_, huser, hwrite⟩ h
      · exact Nat.not_lt.mp hwindow.2
      · exact Nat.not_le.mp hwindow.1
      · rw [pageEntry_lookupPage]
        exact pageEntry_eq_some.mpr ⟨hleaf, hpresent⟩

/-- A turn of `n` bytes stays in the frame, or in front of the end of the memory. -/
def StoreOk (memEnd : Nat) (t : PageTree 3) (destination : UInt64) (n : Nat) : Prop :=
  (destination - PAGE_ROUND_DOWN destination).toNat < 4096 ∨
    frameOf t (lookupPage destination) + (destination - PAGE_ROUND_DOWN destination).toNat + n ≤
      memEnd

/-- A memory without an end: no turn gets behind it. -/
def endless : Nat := 2 ^ 66

theorem storeOk_endless (t : PageTree 3) (destination : UInt64) (k : Nat) :
    StoreOk endless t destination (min (turnLength destination) k) := by
  refine Or.inr ?_
  have hframe := frameOf_lt t (lookupPage destination)
  have hoff := (destination - PAGE_ROUND_DOWN destination).toNat_lt
  have hturn : turnLength destination < 2 ^ 64 := UInt64.toNat_lt _
  unfold endless
  omega

/-- A turn of the loop on a usable page. -/
theorem memcpyFrom_turn (hne : source ≠ []) (h : PageUsable t userspace (lookupPage destination))
    (hstore : StoreOk memEnd t destination (min (turnLength destination) source.length)) :
    memcpyFrom memEnd t userspace (fuel + 1) destination source mem =
      memcpyFrom memEnd t userspace fuel (PAGE_ROUND_DOWN destination + PAGE_SIZE.toUInt64)
        (source.drop (min (turnLength destination) source.length))
        (mem.blit (lookupPlace t destination).toNat
          (source.take (min (turnLength destination) source.length))) := by
  have hbase := toNat_lookupPage destination
  obtain ⟨pte, hentry, huser, hwrite⟩ := h.entry
  have hframe : UInt64.ofNat (frameOf t (lookupPage destination)) = pteFollow pte := by
    rw [frameOf, hentry, Option.map_some, Option.getD_some, UInt64.ofNat_toNat]
  rw [pageEntry_lookupPage] at hentry
  obtain ⟨hleaf, hpresent⟩ := pageEntry_eq_some.mp hentry
  have hwindow : ¬ (PAGE_ROUND_DOWN destination ≥ USERSPACE_VA_MAX ||
      PAGE_ROUND_DOWN destination < USERSPACE_VA_MIN) = true := by
    rw [Bool.or_eq_true, not_or, decide_eq_true_eq, decide_eq_true_eq, ge_iff_le,
      UInt64.le_iff_toNat_le, UInt64.lt_iff_toNat_lt, hbase]
    exact ⟨Nat.not_le.mpr h.hi, Nat.not_lt.mpr h.lo⟩
  have hwalk : walkUserNoAlloc t (PAGE_ROUND_DOWN destination) false = .ok (some pte) := by
    rw [walkUserNoAlloc, if_neg, hleaf]
    rw [Bool.not_false, Bool.true_and]
    exact hwindow
  have hcheck :
      ¬ (!pteIsPresent pte || pteIsUser pte != userspace || !pteIsWritable pte) = true := by
    rw [hpresent, huser, hwrite]
    simp
  rw [memcpyFrom, if_neg hne]
  dsimp only
  rw [if_neg hwindow, hwalk]
  dsimp only
  have hinside : ¬ (destination - PAGE_ROUND_DOWN destination ≥ PAGE_SIZE.toUInt64 ∧
      memEnd < (pteFollow pte).toNat + (destination - PAGE_ROUND_DOWN destination).toNat +
        min (turnLength destination) source.length) := by
    have hpte : (pteFollow pte).toNat = frameOf t (lookupPage destination) := by
      rw [← hframe, UInt64.toNat_ofNat', Nat.mod_eq_of_lt]
      exact (frameOf_lt t _).trans (by decide)
    rw [hpte, ge_iff_le, UInt64.le_iff_toNat_le, toNat_PAGE_SIZE_toUInt64]
    unfold StoreOk at hstore
    omega
  rw [if_neg hcheck]
  refine (if_neg hinside).trans ?_
  rw [lookupPlace, hframe]
  rfl

/-! ### Below 4 GiB -/

/-- The address is below 4 GiB, and its page is usable. -/
def LowUsable (t : PageTree 3) (userspace : Bool) (x : Nat) : Prop :=
  x < 2 ^ 32 ∧ PageUsable t userspace (x / 4096)

/-- What a turn does below 4 GiB: it copies up to the end of the page. -/
theorem lookup_low (h : destination.toNat < 2 ^ 32) :
    lookupPage destination = destination.toNat / 4096 ∧
      (lookupPlace t destination).toNat = place 4096 (frameOf t) destination.toNat ∧
      turnLength destination = 4096 - destination.toNat % 4096 := by
  obtain ⟨-, hoff, -⟩ := pageRoundDown_low h
  have hpage : lookupPage destination = destination.toNat / 4096 := by
    rw [lookupPage, Nat.mod_eq_of_lt h]
  have hlt := frameOf_lt t (destination.toNat / 4096)
  refine ⟨hpage, ?_, ?_⟩
  · rw [lookupPlace, hpage, UInt64.toNat_add, UInt64.toNat_ofNat', hoff, place]
    omega
  · rw [turnLength, UInt64.toNat_sub, toNat_PAGE_SIZE_toUInt64, hoff]
    omega

/-- Below 4 GiB a turn stays in the frame. -/
theorem storeOk_low (h : destination.toNat < 2 ^ 32) (n : Nat) :
    StoreOk memEnd t destination n := by
  obtain ⟨-, hoff, -⟩ := pageRoundDown_low h
  refine Or.inl ?_
  rw [hoff]
  exact Nat.mod_lt _ (by decide)

/-- The first `m` bytes of the source were copied to `x`, and the result is `r`. The copy goes up to
the first address whose page is not usable. -/
structure LowCopied (t : PageTree 3) (userspace : Bool) (x : Nat) (source : List UInt8)
    (mem mem' : Bytes) (r : Int) (m : Nat) : Prop where
  le : m ≤ source.length
  usable : ∀ j < m, LowUsable t userspace (x + j)
  result : m = source.length ∧ r = 0 ∨
    m < source.length ∧ ¬ LowUsable t userspace (x + m) ∧ r = -1
  written : Written 4096 (frameOf t) mem mem' x (source.take m)

/-- Nothing is left to copy. -/
theorem lowCopied_nil (t : PageTree 3) (userspace : Bool) (x : Nat) (mem : Bytes) :
    LowCopied t userspace x [] mem mem 0 0 where
  le := Nat.le_refl 0
  usable j hj := absurd hj (Nat.not_lt_zero j)
  result := Or.inl ⟨rfl, rfl⟩
  written := written_nil _ _

/-- The copy stops at the first address. -/
theorem lowCopied_stop (hne : source ≠ []) (h : ¬ LowUsable t userspace x) (mem : Bytes) :
    LowCopied t userspace x source mem mem (-1) 0 where
  le := Nat.zero_le _
  usable j hj := absurd hj (Nat.not_lt_zero j)
  result := Or.inr ⟨List.length_pos_of_ne_nil hne, h, rfl⟩
  written := by
    rw [List.take_zero]
    exact written_nil _ _

/-- A piece of the source, and the copy of the rest. -/
theorem LowCopied.append (hS : Apart 4096 (frameOf t) S)
    (huse : ∀ page, PageUsable t userspace page → page ∈ S) {m : Nat} {mem₁ : Bytes}
    (hn : n ≤ source.length) (hfirst : ∀ j < n, LowUsable t userspace (x + j))
    (hwritten : Written 4096 (frameOf t) mem mem₁ x (source.take n))
    (h : LowCopied t userspace (x + n) (source.drop n) mem₁ mem' r m) :
    LowCopied t userspace x source mem mem' r (n + m) := by
  have hm := h.le
  have hresult := h.result
  rw [List.length_drop] at hm hresult
  have hall : ∀ j < n + m, LowUsable t userspace (x + j) := by
    intro j hj
    by_cases hjn : j < n
    · exact hfirst j hjn
    · have hsub := h.usable (j - n) (by omega)
      rwa [Nat.add_assoc, Nat.add_sub_cancel' (Nat.not_lt.mp hjn)] at hsub
  constructor
  · omega
  · exact hall
  · rcases hresult with ⟨hm', hr⟩ | ⟨hm', hnot, hr⟩
    · exact Or.inl ⟨by omega, hr⟩
    · rw [Nat.add_assoc] at hnot
      exact Or.inr ⟨by omega, hnot, hr⟩
  · have htaken : source.take n ++ (source.drop n).take m = source.take (n + m) :=
      (List.take_add).symm
    rw [← htaken]
    apply Written.append (List.length_take_of_le hn) hwritten h.written
    -- The frames are apart, so the rest does not write over the first piece.
    intro j hj k hk hc
    have hk' : k < m := by
      rw [List.length_take] at hk
      omega
    have hjS := huse _ (hall j (by omega)).2
    have hkS := huse _ (hall (n + k) (by omega)).2
    rw [Nat.add_assoc] at hc
    have heq := place_inj hS (by decide) hjS hkS hc
    omega

/-- Up to 4 GiB the loop stops at an address that is not usable. -/
theorem memcpyFrom_stop (hne : source ≠ []) (hle : destination.toNat ≤ 2 ^ 32)
    (h : ¬ LowUsable t userspace destination.toNat) :
    memcpyFrom memEnd t userspace (fuel + 1) destination source mem = .ok (-1, mem) := by
  apply memcpyFrom_unusable hne
  intro husable
  apply h
  by_cases hlt : destination.toNat < 2 ^ 32
  · rw [(lookup_low (t := t) hlt).1] at husable
    exact ⟨hlt, husable⟩
  · -- At 4 GiB the page 0 is looked up, which lies in front of the user window.
    have hlo := husable.lo
    have hzero : lookupPage destination = 0 := by
      unfold lookupPage
      omega
    rw [hzero, show USERSPACE_VA_MIN.toNat = 2 ^ 22 by decide] at hlo
    omega

/-- A turn writes a piece of the source that lies in one page. -/
theorem written_turn (hn : n ≤ source.length) (hpage : n ≤ 4096 - x % 4096) (mem : Bytes) :
    Written 4096 (frameOf t) mem (mem.blit (place 4096 (frameOf t) x) (source.take n)) x
      (source.take n) := by
  apply written_blit mem
  intro k hk
  rw [List.length_take_of_le hn] at hk
  apply place_add (by decide)
  omega

/-- The loop of `vmm_memcpy` from an address up to 4 GiB. It copies the bytes of usable pages, and
stops at the first address where the page is not. -/
theorem memcpyFrom_low (memEnd : Nat) (hS : Apart 4096 (frameOf t) S)
    (huse : ∀ page, PageUsable t userspace page → page ∈ S) (hle : destination.toNat ≤ 2 ^ 32)
    (hfuel : source.length ≤ fuel) (mem : Bytes) :
    ∃ r mem' m, memcpyFrom memEnd t userspace fuel destination source mem = .ok (r, mem') ∧
      LowCopied t userspace destination.toNat source mem mem' r m := by
  induction fuel generalizing destination source mem with
  | zero =>
    have hnil : source = [] := List.length_eq_zero_iff.mp (Nat.le_zero.mp hfuel)
    rw [hnil]
    exact ⟨0, mem, 0, rfl, lowCopied_nil _ _ _ _⟩
  | succ fuel ih =>
    by_cases hne : source = []
    · rw [hne]
      exact ⟨0, mem, 0, memcpyFrom_nil _ _ _, lowCopied_nil _ _ _ _⟩
    by_cases hpage : LowUsable t userspace destination.toNat
    · obtain ⟨hlt, husable⟩ := id hpage
      obtain ⟨hlookup, hplace, hturn⟩ := lookup_low (t := t) hlt
      have hlooked : PageUsable t userspace (lookupPage destination) := hlookup ▸ husable
      rw [memcpyFrom_turn hne hlooked (storeOk_low hlt _), hturn, hplace]
      generalize hn : min (4096 - destination.toNat % 4096) source.length = n
      have hnle : n ≤ source.length := by omega
      have hwritten := written_turn (t := t) (x := destination.toNat) hnle (by omega) mem
      -- All bytes of this turn lie in one page.
      have hfirst : ∀ j < n, LowUsable t userspace (destination.toNat + j) := by
        intro j hj
        have hsame : (destination.toNat + j) / 4096 = destination.toNat / 4096 := by omega
        refine ⟨by omega, ?_⟩
        rw [hsame]
        exact husable
      by_cases hend : n = source.length
      · have hdrop : source.drop n = [] := by
          rw [hend, List.drop_length]
        have hrest := lowCopied_nil t userspace (destination.toNat + n)
          (mem.blit (place 4096 (frameOf t) destination.toNat) (source.take n))
        rw [← hdrop] at hrest
        rw [hdrop, memcpyFrom_nil]
        exact ⟨0, _, n + 0, rfl, hrest.append hS huse hnle hfirst hwritten⟩
      · -- The next turn starts at the next page.
        obtain ⟨-, -, hnext⟩ := pageRoundDown_low hlt
        have hstart : (PAGE_ROUND_DOWN destination + PAGE_SIZE.toUInt64).toNat =
            destination.toNat + n := by omega
        have hnextle : (PAGE_ROUND_DOWN destination + PAGE_SIZE.toUInt64).toNat ≤ 2 ^ 32 := by
          omega
        have hfuel' : (source.drop n).length ≤ fuel := by
          rw [List.length_drop]
          omega
        obtain ⟨r, mem', m, hrun, hrest⟩ := ih hnextle hfuel'
          (mem.blit (place 4096 (frameOf t) destination.toNat) (source.take n))
        rw [hstart] at hrest
        exact ⟨r, mem', n + m, hrun, hrest.append hS huse hnle hfirst hwritten⟩
    · exact ⟨-1, mem, 0, memcpyFrom_stop hne hle hpage, lowCopied_stop hne hpage mem⟩

/-! ### What the call must do -/

/-- The mapped pages of the user window. -/
def UserPages (t : PageTree 3) : Set Nat :=
  {page | USERSPACE_VA_MIN.toNat ≤ page * 4096 ∧ page * 4096 < USERSPACE_VA_MAX.toNat ∧
    (pageEntry t (pageVa page)).isSome}

/-- Different mapped user pages have different frames. -/
def DistinctFrames (t : PageTree 3) : Prop :=
  ∀ p ∈ UserPages t, ∀ q ∈ UserPages t, p ≠ q → frameOf t p ≠ frameOf t q

/-- Every page of the destination is usable. -/
def AllUsable (t : PageTree 3) (userspace : Bool) (destination : UInt64) (len : Nat) : Prop :=
  ∀ k < len, PageUsable t userspace ((destination.toNat + k) / 4096)

/-- The call returns 0 exactly when every page is usable. Then the bytes of the source are at the
places of the destination, and nothing else is changed. When it returns -1, only places of the
destination in front of the first page that is not usable are changed. -/
def CopiesIn (memEnd : Nat) (t : PageTree 3) (userspace : Bool) (destination : UInt64)
    (source : List UInt8) (mem : Bytes) : Prop :=
  ∃ r mem', vmmMemcpy memEnd t mem destination source userspace = .ok (r, mem') ∧ (r = 0 ∨ r = -1) ∧
    (r = 0 ↔ AllUsable t userspace destination source.length) ∧
    (r = 0 → Written 4096 (frameOf t) mem mem' destination.toNat source) ∧
    (r = -1 → ∀ a, mem' a ≠ mem a → ∃ k < source.length,
      a = place 4096 (frameOf t) (destination.toNat + k) ∧
      ∀ j ≤ k, PageUsable t userspace ((destination.toNat + j) / 4096))

/-- The call does so wherever the memory ends, as long as the frames of the table are in it. -/
def CopiesExactly (t : PageTree 3) (userspace : Bool) (destination : UInt64)
    (source : List UInt8) (mem : Bytes) : Prop :=
  ∀ memEnd, (∀ page ∈ UserPages t, frameOf t page + 4096 ≤ memEnd) →
    CopiesIn memEnd t userspace destination source mem

/-- The frames of a table are in a memory without an end. -/
theorem CopiesExactly.endless (h : CopiesExactly t userspace destination source mem) :
    CopiesIn endless t userspace destination source mem := by
  refine h _ fun page _ => ?_
  have := frameOf_lt t page
  unfold Mem.endless
  omega

/-- Where the end of the memory does not matter, it is enough to look at one. -/
theorem copiesExactly_of_each {P : Prop}
    (h : ∀ memEnd, CopiesIn memEnd t userspace destination source mem ↔ P) :
    CopiesExactly t userspace destination source mem ↔ P :=
  ⟨fun hall => (h _).mp hall.endless, fun hp memEnd _ => (h memEnd).mpr hp⟩

/-- Frames start at multiples of the page size. -/
theorem frameOf_aligned (t : PageTree 3) (page : Nat) : frameOf t page % 4096 = 0 := by
  unfold frameOf
  cases pageEntry t (pageVa page) with
  | none => rfl
  | some pte =>
    rw [Option.map_some, Option.getD_some, toNat_pteFollow]
    exact Nat.mul_mod_left _ 4096

/-- Different frames are apart. -/
theorem DistinctFrames.apart (h : DistinctFrames t) :
    Apart 4096 (frameOf t) (UserPages t) := by
  intro p hp q hq hpq
  have hne := h p hp q hq hpq
  have halp := frameOf_aligned t p
  have halq := frameOf_aligned t q
  omega

/-- A usable page is mapped. -/
theorem PageUsable.mem_userPages (h : PageUsable t userspace page) : page ∈ UserPages t := by
  obtain ⟨pte, hentry, -⟩ := h.entry
  refine ⟨h.lo, h.hi, ?_⟩
  rw [hentry]
  rfl

/-- A destination in usable pages ends in the user window. -/
theorem AllUsable.le (h : AllUsable t userspace destination len) (hpos : 0 < len) :
    destination.toNat + len ≤ 2 ^ 46 := by
  have hlast := (h (len - 1) (by omega)).hi
  rw [show USERSPACE_VA_MAX.toNat = 2 ^ 46 by decide] at hlast
  omega

/-- Below 4 GiB the call fails only when it goes on above. -/
theorem copiesExactly_low (hdistinct : DistinctFrames t) (hle : destination.toNat ≤ 2 ^ 32)
    (source : List UInt8) (mem : Bytes) :
    CopiesExactly t userspace destination source mem ↔
      (AllUsable t userspace destination source.length →
        source.length = 0 ∨ destination.toNat + source.length ≤ 2 ^ 32) := by
  refine copiesExactly_of_each fun memEnd => ?_
  -- The `m` bytes that the loop copies are all below 4 GiB.
  obtain ⟨r, mem', m, hrun, hm, hlow, hresult, hwritten⟩ := memcpyFrom_low memEnd
    hdistinct.apart (fun page h => h.mem_userPages) hle
    (Nat.le_refl source.length) mem
  have hcall : vmmMemcpy memEnd t mem destination source userspace = .ok (r, mem') := hrun
  have hchanged : ∀ a, mem' a ≠ mem a → ∃ k < source.length,
      a = place 4096 (frameOf t) (destination.toNat + k) ∧
      ∀ j ≤ k, PageUsable t userspace ((destination.toNat + j) / 4096) := by
    intro a ha
    by_contra hc
    refine ha (hwritten.rest a fun k hk hplace => hc ⟨k, ?_, hplace, fun j hj => ?_⟩)
    · rw [List.length_take] at hk
      omega
    · rw [List.length_take] at hk
      exact (hlow j (by omega)).2
  -- What was written is right in any case, so only the result can be wrong.
  have hiff : CopiesIn memEnd t userspace destination source mem ↔
      (r = 0 ↔ AllUsable t userspace destination source.length) := by
    constructor
    · rintro ⟨r₁, mem₁, hcall₁, -, hr, -⟩
      obtain ⟨rfl, rfl⟩ := Prod.mk.inj (Except.ok.inj (hcall.symm.trans hcall₁))
      exact hr
    · intro hr
      refine ⟨r, mem', hcall, ?_, hr, ?_, fun _ => hchanged⟩
      · rcases hresult with ⟨-, h0⟩ | ⟨-, -, h1⟩
        · exact Or.inl h0
        · exact Or.inr h1
      · intro h0
        rcases hresult with ⟨hall, -⟩ | ⟨-, -, h1⟩
        · rw [hall, List.take_length] at hwritten
          exact hwritten
        · omega
  rw [hiff]
  rcases hresult with ⟨hall, h0⟩ | ⟨hfew, hnot, h1⟩
  · -- Every byte was copied, so all of them are below 4 GiB.
    have husable : AllUsable t userspace destination source.length :=
      fun k hk => (hlow k (by omega)).2
    have hend : source.length = 0 ∨ destination.toNat + source.length ≤ 2 ^ 32 := by
      by_cases hzero : source.length = 0
      · exact Or.inl hzero
      · have hlast := (hlow (m - 1) (by omega)).1
        exact Or.inr (by omega)
    exact iff_of_true (iff_of_true h0 husable) fun _ => hend
  · -- The loop stopped at the byte `m`, because of its page or at 4 GiB.
    have hne : ¬ r = 0 := by omega
    constructor
    · intro hr husable
      exact absurd (hr.mpr husable) hne
    · intro hend
      refine iff_of_false hne fun husable => hnot ⟨?_, husable m hfew⟩
      rcases hend husable with h | h
      · omega
      · omega

/-! ### From 4 GiB on -/

/-- From 4 GiB on one turn copies almost 2 ^ 64 bytes. -/
theorem turnLength_high (h : 2 ^ 32 ≤ destination.toNat) :
    turnLength destination =
      2 ^ 64 + 4096 - (destination.toNat - lookupPage destination * 4096) := by
  have hlt := destination.toNat_lt
  rw [turnLength, UInt64.toNat_sub, UInt64.toNat_sub, toNat_PAGE_SIZE_toUInt64, toNat_lookupPage]
  unfold lookupPage
  omega

/-- When the page that is looked up is not usable, nothing happens. -/
theorem copiesExactly_unusable (hne : source ≠ [])
    (h : ¬ PageUsable t userspace (lookupPage destination)) :
    CopiesExactly t userspace destination source mem ↔
      ¬ AllUsable t userspace destination source.length := by
  refine copiesExactly_of_each fun memEnd => ?_
  have hcall : vmmMemcpy memEnd t mem destination source userspace = .ok (-1, mem) := by
    obtain ⟨n, hn⟩ := Nat.exists_eq_succ_of_ne_zero (mt List.length_eq_zero_iff.mp hne)
    rw [vmmMemcpy, hn]
    exact memcpyFrom_unusable hne h
  constructor
  · rintro ⟨r, mem', hcall', -, hr, -⟩ hall
    have hr1 := (Prod.mk.inj (Except.ok.inj (hcall.symm.trans hcall'))).1
    have hr0 := hr.mpr hall
    omega
  · intro hno
    refine ⟨-1, mem, hcall, Or.inr rfl, ⟨fun h => absurd h (by decide), fun h => absurd h hno⟩,
      fun h => absurd h (by decide), fun _ a ha => absurd rfl ha⟩

/-- When it is, and the whole destination too, one turn copies the source to one place. -/
theorem vmmMemcpy_oneTurn (hne : source ≠ [])
    (h : PageUsable t userspace (lookupPage destination))
    (hlen : source.length ≤ turnLength destination)
    (hstore : StoreOk memEnd t destination source.length) (mem : Bytes) :
    vmmMemcpy memEnd t mem destination source userspace =
      .ok (0, mem.blit (lookupPlace t destination).toNat source) := by
  obtain ⟨n, hn⟩ := Nat.exists_eq_succ_of_ne_zero (mt List.length_eq_zero_iff.mp hne)
  rw [vmmMemcpy, hn, memcpyFrom_turn hne h (by rw [Nat.min_eq_right hlen]; exact hstore),
    Nat.min_eq_right hlen, List.drop_length, List.take_length, memcpyFrom_nil]

/-- A source of ones leaves a byte that is 1 as it is. -/
theorem memcpyFrom_ones {a : Nat} (hsource : ∀ b ∈ source, b = 1) (ha : mem a = 1)
    (h : memcpyFrom endless t userspace fuel destination source mem = .ok (r, mem')) :
    mem' a = 1 := by
  induction fuel generalizing destination source mem with
  | zero =>
    cases h
    exact ha
  | succ fuel ih =>
    by_cases hne : source = []
    · rw [hne, memcpyFrom_nil] at h
      cases h
      exact ha
    by_cases hpage : PageUsable t userspace (lookupPage destination)
    · rw [memcpyFrom_turn hne hpage (storeOk_endless _ _ _)] at h
      refine ih (fun b hb => hsource b (List.mem_of_mem_drop hb)) ?_ h
      generalize (lookupPlace t destination).toNat = p
      generalize hpiece : source.take (min (turnLength destination) source.length) = piece
      have hones : ∀ b ∈ piece, b = 1 := fun b hb => hsource b (List.mem_of_mem_take (hpiece ▸ hb))
      by_cases hin : p ≤ a ∧ a < p + piece.length
      · rw [Bytes.blit_of_mem hin.1 hin.2]
        exact hones _ (List.getElem_mem _)
      · have hout : a < p ∨ p + piece.length ≤ a := by omega
        rw [Bytes.blit_of_apart hout]
        exact ha
    · rw [memcpyFrom_unusable hne hpage] at h
      cases h
      exact ha

/-- When the page that is looked up is usable, but not the whole destination, a source of ones goes
to places that are none of the destination. -/
theorem not_copiesExactly_high {zero : Bytes} (hzero : ∀ a, zero a = 0) (hpos : 0 < len)
    (hhigh : 2 ^ 32 ≤ destination.toNat) (h : PageUsable t userspace (lookupPage destination))
    (hno : ¬ AllUsable t userspace destination len) :
    ¬ CopiesExactly t userspace destination (List.replicate len 1) zero := by
  obtain ⟨source, hsource⟩ : ∃ source : List UInt8, source = List.replicate len 1 := ⟨_, rfl⟩
  have hlen : source.length = len := by rw [hsource, List.length_replicate]
  have hne : source ≠ [] := List.ne_nil_of_length_pos (hlen ▸ hpos)
  have hones : ∀ b ∈ source, b = 1 := fun b hb => List.eq_of_mem_replicate (hsource ▸ hb)
  rw [← hsource]
  intro hexact
  obtain ⟨r, mem', hcall, hresult, hr, -, hchanged⟩ := hexact.endless
  rw [hlen] at hr
  have hr1 : r = -1 := hresult.resolve_left fun hr0 => hno (hr.mp hr0)
  have hturn := turnLength_high hhigh
  have hdst := destination.toNat_lt
  -- The call goes on after the first turn, so that turn is as long as it can be.
  have hmore : turnLength destination < source.length := by
    by_contra hc
    have hstore := storeOk_endless t destination source.length
    rw [Nat.min_eq_right (Nat.not_lt.mp hc)] at hstore
    rw [vmmMemcpy_oneTurn hne h (Nat.not_lt.mp hc) hstore] at hcall
    have hr0 := (Prod.mk.inj (Except.ok.inj hcall)).1
    omega
  obtain ⟨n, hn⟩ := Nat.exists_eq_succ_of_ne_zero (Nat.ne_of_gt (hlen ▸ hpos : 0 < source.length))
  rw [vmmMemcpy, hn, memcpyFrom_turn hne h (storeOk_endless _ _ _),
    Nat.min_eq_left (Nat.le_of_lt hmore)] at hcall
  have hplace : ∀ j < turnLength destination, ∃ k < source.length,
      (lookupPlace t destination).toNat + j =
        place 4096 (frameOf t) (destination.toNat + k) ∧
      ∀ i ≤ k, PageUsable t userspace ((destination.toNat + i) / 4096) := by
    intro j hj
    refine hchanged hr1 _ ?_
    have htake : (source.take (turnLength destination)).length = turnLength destination :=
      List.length_take_of_le (Nat.le_of_lt hmore)
    have hone : zero.blit (lookupPlace t destination).toNat
        (source.take (turnLength destination)) ((lookupPlace t destination).toNat + j) = 1 := by
      rw [Bytes.blit_of_mem (Nat.le_add_right _ _) (by omega)]
      exact hones _ (List.mem_of_mem_take (List.getElem_mem _))
    rw [memcpyFrom_ones (fun b hb => hones b (List.mem_of_mem_drop hb)) hone hcall, hzero]
    decide
  have hbase : lookupPage destination * 4096 ≤ destination.toNat := by
    unfold lookupPage
    omega
  have hfirst : 0 < turnLength destination := by omega
  obtain ⟨k₀, -, -, husable⟩ := hplace 0 hfirst
  have hwindow := (husable 0 (Nat.zero_le _)).hi
  rw [show USERSPACE_VA_MAX.toNat = 2 ^ 46 by decide, Nat.add_zero] at hwindow
  -- The last byte of the turn lies behind all frames.
  obtain ⟨k, -, hlast, -⟩ := hplace (turnLength destination - 1) (by omega)
  have hframe := frameOf_lt t ((destination.toNat + k) / 4096)
  unfold place at hlast
  omega

/-! ### The condition -/

/-- The destinations of a length for which the call copies exactly. -/
def MemcpyCondition (t : PageTree 3) (userspace : Bool) (destination : UInt64) (len : Nat) : Prop :=
  len = 0 ∨ destination.toNat + len ≤ 2 ^ 32 ∨
    (¬ AllUsable t userspace destination len ∧
      (destination.toNat < 2 ^ 32 ∨ ¬ PageUsable t userspace (lookupPage destination))) ∨
    (2 ^ 32 ≤ destination.toNat ∧ AllUsable t userspace destination len ∧
      PageUsable t userspace (lookupPage destination) ∧
      ∀ k < len, place 4096 (frameOf t) (destination.toNat + k) =
        (lookupPlace t destination).toNat + k)

/-- When the destination and the page that is looked up are usable, the call writes to one place.
It copies exactly when the bytes of the destination are there. -/
theorem copiesExactly_placed (hpos : 0 < len) (hhigh : 2 ^ 32 ≤ destination.toNat)
    (hpage : PageUsable t userspace (lookupPage destination))
    (hall : AllUsable t userspace destination len) :
    (∀ source mem, source.length = len → CopiesExactly t userspace destination source mem) ↔
      ∀ k < len, place 4096 (frameOf t) (destination.toNat + k) =
        (lookupPlace t destination).toNat + k := by
  have hturn : len ≤ turnLength destination := by
    have hend := hall.le hpos
    rw [turnLength_high hhigh]
    omega
  have hcall : ∀ memEnd, StoreOk memEnd t destination len → ∀ source mem, source.length = len →
      vmmMemcpy memEnd t mem destination source userspace =
        .ok (0, mem.blit (lookupPlace t destination).toNat source) := by
    intro memEnd hstore source mem hlen
    have hne : source ≠ [] := List.ne_nil_of_length_pos (hlen ▸ hpos)
    exact vmmMemcpy_oneTurn hne hpage (hlen ▸ hturn) (hlen ▸ hstore) mem
  rw [← written_blit_iff]
  constructor
  · intro h mem source hlen
    have hstore := storeOk_endless t destination len
    rw [Nat.min_eq_right hturn] at hstore
    obtain ⟨r, mem', hcall', -, -, hwritten, -⟩ := (h source mem hlen).endless
    obtain ⟨rfl, rfl⟩ :=
      Prod.mk.inj (Except.ok.inj ((hcall _ hstore source mem hlen).symm.trans hcall'))
    exact hwritten rfl
  · intro h source mem hlen memEnd hframes
    -- The last byte is in a frame of the table, so the store ends in front of the memory's end.
    have hstore : StoreOk memEnd t destination len := by
      have hend := hall.le hpos
      have hlast := written_blit_iff.mp h (len - 1) (by omega)
      have hframe := hframes _ (hall (len - 1) (by omega)).mem_userPages
      have hlow := frameOf_lt t (lookupPage destination)
      have hoff : (destination - PAGE_ROUND_DOWN destination).toNat ≤ destination.toNat := by
        have hle : PAGE_ROUND_DOWN destination ≤ destination := by
          rw [UInt64.le_iff_toNat_le, toNat_lookupPage]
          unfold lookupPage
          omega
        rw [UInt64.toNat_sub_of_le _ _ hle]
        exact Nat.sub_le _ _
      have hplace : (lookupPlace t destination).toNat = frameOf t (lookupPage destination) +
          (destination - PAGE_ROUND_DOWN destination).toNat := by
        rw [lookupPlace, UInt64.toNat_add, UInt64.toNat_ofNat']
        omega
      rw [hplace] at hlast
      unfold place at hlast
      exact Or.inr (by omega)
    refine ⟨0, _, hcall _ hstore source mem hlen, Or.inl rfl, ⟨fun _ => hlen ▸ hall, fun _ => rfl⟩,
      fun _ => h mem source hlen, fun hr => absurd hr (by decide)⟩

/-- From 4 GiB on the call copies exactly in two cases: it fails rightly, since neither the
destination nor the page that is looked up is usable, or the bytes of the destination happen to be
where it writes. -/
theorem copiesExactly_high (hpos : 0 < len) (hhigh : 2 ^ 32 ≤ destination.toNat) :
    (∀ source mem, source.length = len → CopiesExactly t userspace destination source mem) ↔
      (¬ AllUsable t userspace destination len ∧
        ¬ PageUsable t userspace (lookupPage destination)) ∨
      (AllUsable t userspace destination len ∧ PageUsable t userspace (lookupPage destination) ∧
        ∀ k < len, place 4096 (frameOf t) (destination.toNat + k) =
          (lookupPlace t destination).toNat + k) := by
  by_cases hpage : PageUsable t userspace (lookupPage destination)
  · by_cases hall : AllUsable t userspace destination len
    · rw [copiesExactly_placed hpos hhigh hpage hall, or_iff_right fun h => h.1 hall,
        and_iff_right hall, and_iff_right hpage]
    · -- The call must fail and write nothing wrong, but a source of ones ends up elsewhere.
      obtain ⟨zero, hzero⟩ : ∃ zero : Bytes, ∀ i, zero i = 0 := ⟨fun _ => 0, fun _ => rfl⟩
      refine iff_of_false (fun h => ?_) ?_
      · exact not_copiesExactly_high hzero hpos hhigh hpage hall
          (h (List.replicate len 1) zero List.length_replicate)
      · rintro (⟨-, hc⟩ | ⟨hc, -⟩)
        · exact hc hpage
        · exact hall hc
  · -- The call returns -1 and writes nothing, which is right when the destination is not usable.
    have hunusable : ∀ source : List UInt8, ∀ mem, source.length = len →
        (CopiesExactly t userspace destination source mem ↔
          ¬ AllUsable t userspace destination len) := by
      intro source mem hlen
      have hne : source ≠ [] := List.ne_nil_of_length_pos (hlen ▸ hpos)
      rw [copiesExactly_unusable hne hpage, hlen]
    constructor
    · intro h
      obtain ⟨mem⟩ : Nonempty Bytes := ⟨fun _ => 0⟩
      have hlen : (List.replicate len (1 : UInt8)).length = len := List.length_replicate
      exact Or.inl ⟨(hunusable _ mem hlen).mp (h _ mem hlen), hpage⟩
    · rintro (⟨hno, -⟩ | ⟨-, hc, -⟩) source mem hlen
      · exact (hunusable source mem hlen).mpr hno
      · exact absurd hc hpage

/-- `vmm_memcpy` copies exactly, for every memory and every source of the length, exactly under the
condition. -/
theorem copiesExactly_iff {len : Nat} (hdistinct : DistinctFrames t) :
    (∀ source mem, source.length = len → CopiesExactly t userspace destination source mem) ↔
      MemcpyCondition t userspace destination len := by
  unfold MemcpyCondition
  by_cases hzero : len = 0
  · -- An empty copy does nothing and returns 0.
    refine iff_of_true (fun source mem hlen => ?_) (Or.inl hzero)
    have hnil := List.length_eq_zero_iff.mp (hlen.trans hzero)
    subst hnil
    intro memEnd _
    refine ⟨0, mem, memcpyFrom_nil _ _ _, Or.inl rfl, ⟨fun _ k hk => ?_, fun _ => rfl⟩,
      fun _ => written_nil _ _, fun hr => absurd hr (by decide)⟩
    exact absurd hk (Nat.not_lt_zero k)
  have hpos : 0 < len := Nat.pos_of_ne_zero hzero
  rw [or_iff_right hzero]
  by_cases hlow : destination.toNat < 2 ^ 32
  · have hiff : (∀ source mem, source.length = len →
        CopiesExactly t userspace destination source mem) ↔
        (AllUsable t userspace destination len → destination.toNat + len ≤ 2 ^ 32) := by
      constructor
      · intro h hall
        obtain ⟨mem⟩ : Nonempty Bytes := ⟨fun _ => 0⟩
        have hone := h (List.replicate len 1) mem List.length_replicate
        rw [copiesExactly_low hdistinct (Nat.le_of_lt hlow), List.length_replicate] at hone
        exact (hone hall).resolve_left hzero
      · intro h source mem hlen
        rw [copiesExactly_low hdistinct (Nat.le_of_lt hlow), hlen]
        exact fun hall => Or.inr (h hall)
    rw [hiff, imp_iff_or_not]
    constructor
    · rintro (hend | hno)
      · exact Or.inl hend
      · exact Or.inr (Or.inl ⟨hno, Or.inl hlow⟩)
    · rintro (hend | ⟨hno, -⟩ | ⟨hhigh, -⟩)
      · exact Or.inl hend
      · exact Or.inr hno
      · omega
  · have hhigh := Nat.not_lt.mp hlow
    have hend : ¬ destination.toNat + len ≤ 2 ^ 32 := by omega
    rw [copiesExactly_high hpos hhigh, or_iff_right hend, or_iff_right hlow, and_iff_right hhigh]

/-! ### A table with one page -/

/-- The table where only the page of `va` is mapped, with the frame at `0x4000`. -/
def onePageTree (va : UInt64) : PageTree 3 :=
  writeLeaf (extendPath (PTE_P ||| PTE_W ||| PTE_U) (Radix.empty 0 3) va
    [0x1000, 0x2000, 0x3000]).2.1 va (buildPte 0x4000 heapPermissions)

/-- Its only entry. -/
theorem pageEntry_onePageTree (va q : UInt64) :
    pageEntry (onePageTree va) q =
      if SamePage q va then some (buildPte 0x4000 heapPermissions) else none := by
  have hok : (extendPath (PTE_P ||| PTE_W ||| PTE_U) (Radix.empty 0 3) va
      [0x1000, 0x2000, 0x3000]).1 = true := (Radix.extend_of_length _ _ (by decide)).1
  have hold : pageEntry (extendPath (PTE_P ||| PTE_W ||| PTE_U) (Radix.empty 0 3) va
      [0x1000, 0x2000, 0x3000]).2.1 q = none :=
    (Radix.mapping_extend (fun pa => (tableEntry_flags (by decide) (by decide) pa).1)
    (by decide) _ _
      _ _).trans (Radix.mapping_empty (by decide) 3 _)
  rw [onePageTree, pageEntry_writeLeaf (readLeaf_extendPath (by decide) (by decide) hok)
    (buildPte_flags _ _).1, hold]

/-- The page of `va` is its only user page. -/
theorem userPages_onePageTree (hva : va.toNat < 2 ^ 46) (h : page ∈ UserPages (onePageTree va)) :
    page = va.toNat / 4096 := by
  obtain ⟨-, hhi, hentry⟩ := h
  rw [show USERSPACE_VA_MAX.toNat = 2 ^ 46 by decide] at hhi
  rw [pageEntry_onePageTree] at hentry
  have hsame : SamePage (pageVa page) va := by
    by_contra hc
    rw [if_neg hc] at hentry
    cases hentry
  have hpage : (pageVa page).toNat = page * 4096 := by
    rw [pageVa, UInt64.toNat_ofNat']
    omega
  rw [samePage_iff, hpage] at hsame
  omega

/-- So the frames are distinct. -/
theorem distinctFrames_onePageTree (hva : va.toNat < 2 ^ 46) : DistinctFrames (onePageTree va) := by
  intro p hp q hq hpq
  exact absurd ((userPages_onePageTree hva hp).trans (userPages_onePageTree hva hq).symm) hpq

/-- The page is usable for user accesses. -/
theorem pageUsable_onePageTree (hlo : 2 ^ 22 ≤ va.toNat) (hva : va.toNat < 2 ^ 46) :
    PageUsable (onePageTree va) true (va.toNat / 4096) where
  lo := by
    rw [show USERSPACE_VA_MIN.toNat = 2 ^ 22 by decide]
    omega
  hi := by
    rw [show USERSPACE_VA_MAX.toNat = 2 ^ 46 by decide]
    omega
  entry := by
    obtain ⟨-, huser, hwrite, -⟩ := buildPte_flags 0x4000 heapPermissions
    refine ⟨_, ?_, huser, hwrite⟩
    rw [pageEntry_pageVa, pageEntry_onePageTree, if_pos (samePage_refl va)]

/-- A copy to the start of the user window. -/
theorem copiesExactly_first :
    DistinctFrames (onePageTree 0x400000) ∧
      ∀ source mem, source.length = 4 →
        CopiesExactly (onePageTree 0x400000) true 0x400000 source mem :=
  ⟨distinctFrames_onePageTree (by decide),
    (copiesExactly_iff (distinctFrames_onePageTree (by decide))).mpr
      (Or.inr (Or.inl (by decide)))⟩

/-- A copy of one byte to a page above 4 GiB returns -1, though the page is usable. -/
theorem memcpy_above_four_gib : ∃ (t : PageTree 3) (destination : UInt64) (source : List UInt8)
    (mem : Bytes), DistinctFrames t ∧ ¬ CopiesExactly t true destination source mem := by
  obtain ⟨mem⟩ : Nonempty Bytes := ⟨fun _ => 0⟩
  have hva : (0x100400000 : UInt64).toNat < 2 ^ 46 := by decide
  have hdistinct := distinctFrames_onePageTree hva
  refine ⟨onePageTree 0x100400000, 0x100400000, [0x41], mem, hdistinct, fun h => ?_⟩
  have hlookup : ¬ PageUsable (onePageTree 0x100400000) true (lookupPage 0x100400000) := by
    intro husable
    have hpage := userPages_onePageTree hva husable.mem_userPages
    exact absurd hpage (by decide)
  rw [copiesExactly_unusable (by decide) hlookup] at h
  refine h fun k hk => ?_
  have hzero : k = 0 := Nat.lt_one_iff.mp hk
  rw [hzero]
  exact pageUsable_onePageTree (by decide) hva

end DzOS.Proofs.Mem
