import DzOS.Proofs.Mem.UserFrames

/-!
# `DzOS.Proofs.Mem.UserCopy`: copying to the pages of an address space

`vmm_memcpy` and `vmm_zero` go from page to page. Below 4 GiB, where `PAGE_ROUND_DOWN` does what
its name says, they write the bytes that they are given to the addresses that they are given, as
seen through the table (`vmmMemcpy_copied`, `vmmZero_copied`). From 4 GiB on `vmm_memcpy` misses the
frames (`vmmMemcpy_high`).
-/

set_option autoImplicit false

namespace DzOS.Proofs.Mem

open DzOS.Lib DzOS.Lib.PagedView DzOS.Mem

variable {fuel memEnd : Nat} {vaddr last destination va : UInt64} {source : List UInt8}
  {userspace : Bool} {t : PageTree 3} {S : Set Nat} {mem mem' : Bytes} {r : Int}

/-- `walk` without allocation. -/
theorem walkUserNoAlloc_ok {io : Bool} {pte : Option UInt64}
    (h : walkUserNoAlloc t va io = .ok pte) : pte = readLeaf t va := by
  unfold walkUserNoAlloc at h
  split at h
  · cases h
  · exact (Except.ok.inj h).symm

/-- `vmm_walkaddr` finds the frame of a user page. -/
theorem walkAddr_frame {pa : UInt64} (h : walkAddr t va true = .ok pa) (hne : pa ≠ 0) :
    pa.toNat = frameOf t (va.toNat / 4096) ∧ pa.toNat < 2 ^ 52 := by
  unfold walkAddr at h
  split at h
  · exact absurd (Except.ok.inj h).symm hne
  split at h
  · cases h
  · exact absurd (Except.ok.inj h).symm hne
  rename_i pte hwalk
  have hleaf := walkUserNoAlloc_ok hwalk
  split at h
  · exact absurd (Except.ok.inj h).symm hne
  rename_i hpresent
  split at h
  · exact absurd (Except.ok.inj h).symm hne
  have hentry : pageEntry t va = some pte :=
    pageEntry_eq_some.mpr ⟨hleaf.symm, by simpa using hpresent⟩
  have hfollow := toNat_pteFollow pte
  rw [frameOf_eq hentry, ← Except.ok.inj h]
  exact ⟨rfl, by omega⟩

/-- The base of a page of the lowest 4 GiB, and the offset in it. -/
theorem pageRoundDown_low (h : va.toNat < 2 ^ 32) :
    (PAGE_ROUND_DOWN va).toNat = va.toNat / 4096 * 4096 ∧
      (va - PAGE_ROUND_DOWN va).toNat = va.toNat % 4096 ∧
      (PAGE_ROUND_DOWN va + PAGE_SIZE.toUInt64).toNat = va.toNat / 4096 * 4096 + 4096 := by
  have hbase : (PAGE_ROUND_DOWN va).toNat = va.toNat / 4096 * 4096 := by
    rw [toNat_PAGE_ROUND_DOWN]
    omega
  refine ⟨hbase, ?_, ?_⟩
  · rw [UInt64.toNat_sub, hbase]
    omega
  · rw [UInt64.toNat_add, hbase, toNat_PAGE_SIZE_toUInt64]
    omega

/-- The place of a byte in a frame. -/
theorem toNat_frame_add (pte : UInt64) {off : UInt64} (h : off.toNat < 4096) :
    (pteFollow pte + off).toNat = (pteFollow pte).toNat + off.toNat := by
  have hfollow := toNat_pteFollow pte
  rw [UInt64.toNat_add]
  omega

/-! ### `vmm_memcpy` -/

/-- Nothing is left to copy. -/
theorem memcpyFrom_nil (userspace : Bool) (fuel : Nat) (destination : UInt64) :
    memcpyFrom memEnd t userspace fuel destination [] mem = .ok (0, mem) := by
  cases fuel with
  | zero => rfl
  | succ fuel => rfl

/-- One turn of the loop of `vmm_memcpy` that does not fail: the page is mapped, and a piece of
the source goes to it. -/
theorem memcpyFrom_step
    (h : memcpyFrom memEnd t userspace (fuel + 1) destination source mem = .ok (r, mem'))
    (hr : 0 ≤ r) (hne : source ≠ []) :
    ∃ pte n, pageEntry t (PAGE_ROUND_DOWN destination) = some pte ∧
      n = min (PAGE_SIZE.toUInt64 - (destination - PAGE_ROUND_DOWN destination)).toNat
        source.length ∧
      memcpyFrom memEnd t userspace fuel (PAGE_ROUND_DOWN destination + PAGE_SIZE.toUInt64)
        (source.drop n)
        (mem.blit (pteFollow pte + (destination - PAGE_ROUND_DOWN destination)).toNat
          (source.take n)) = .ok (r, mem') := by
  unfold memcpyFrom at h
  rw [if_neg hne] at h
  dsimp only at h
  split at h
  · cases h
    exact absurd hr (by decide)
  split at h
  · cases h
  · cases h
    exact absurd hr (by decide)
  rename_i pte hwalk
  split at h
  · cases h
    exact absurd hr (by decide)
  rename_i hcheck
  split at h
  · cases h
  have hpresent : pteIsPresent pte = true := by
    by_contra hno
    simp [hno] at hcheck
  exact ⟨pte, _, pageEntry_eq_some.mpr ⟨(walkUserNoAlloc_ok hwalk).symm, hpresent⟩, rfl, h⟩

/-- The loop of `vmm_memcpy` below 4 GiB. -/
theorem memcpyFrom_copied {content : Nat → UInt8} (hS : Apart 4096 (frameOf t) S)
    (hlt : destination.toNat + source.length ≤ 2 ^ 32) (hfuel : source.length ≤ fuel)
    (hpages : ∀ x, destination.toNat ≤ x → x < destination.toNat + source.length → x / 4096 ∈ S)
    (hsrc : ∀ i (hi : i < source.length), source[i] = content (destination.toNat + i))
    (h : memcpyFrom memEnd t userspace fuel destination source mem = .ok (r, mem')) (hr : 0 ≤ r) :
    Copied 4096 (frameOf t) S mem mem' destination.toNat (destination.toNat + source.length)
      content := by
  induction fuel generalizing destination source mem with
  | zero =>
    have hnil : source = [] := List.length_eq_zero_iff.mp (Nat.le_zero.mp hfuel)
    subst hnil
    cases h
    exact copied_refl _ _ _
  | succ fuel ih =>
    by_cases hnil : source = []
    · subst hnil
      rw [memcpyFrom_nil] at h
      cases h
      exact copied_refl _ _ _
    have hpos : 0 < source.length := List.length_pos_iff.mpr hnil
    have hlow : destination.toNat < 2 ^ 32 := by omega
    obtain ⟨hbase, hoff, hnext⟩ := pageRoundDown_low hlow
    obtain ⟨pte, n, hentry, hn, hrest⟩ := memcpyFrom_step h hr hnil
    have hmod : destination.toNat % 4096 < 4096 := Nat.mod_lt _ (by decide)
    have hcount : n = min (4096 - destination.toNat % 4096) source.length := by
      rw [hn, UInt64.toNat_sub, hoff, toNat_PAGE_SIZE_toUInt64]
      omega
    have hframe : (pteFollow pte + (destination - PAGE_ROUND_DOWN destination)).toNat
        = frameOf t (destination.toNat / 4096) + destination.toNat % 4096 := by
      have hpage : (PAGE_ROUND_DOWN destination).toNat / 4096 = destination.toNat / 4096 := by omega
      rw [toNat_frame_add pte (by omega), hoff, ← hpage, frameOf_eq hentry]
    rw [hframe] at hrest
    have hlen : (source.take n).length = n := by
      rw [List.length_take]
      omega
    have hpiece : Copied 4096 (frameOf t) S mem
        (mem.blit (frameOf t (destination.toNat / 4096) + destination.toNat % 4096) (source.take n))
        destination.toNat (destination.toNat + n) content := by
      have hfirst : ∀ i (hi : i < (source.take n).length),
          (source.take n)[i] = content (destination.toNat + i) := by
        intro i hi
        rw [List.getElem_take]
        exact hsrc i (by omega)
      have hblit := copied_blit mem destination.toNat content hS (by decide)
        (hpages _ (Nat.le_refl _) (by omega)) (by omega) hfirst
      rwa [hlen] at hblit
    by_cases hlast : source.length ≤ 4096 - destination.toNat % 4096
    · -- The rest of the source fits into this page.
      have hall : n = source.length := by omega
      rw [hall, List.drop_length, memcpyFrom_nil] at hrest
      cases hrest
      rw [hall] at hpiece
      exact hpiece
    · have hmore : (PAGE_ROUND_DOWN destination + PAGE_SIZE.toUInt64).toNat
          = destination.toNat + n := by omega
      have hdrop : (source.drop n).length = source.length - n := List.length_drop
      have hend : destination.toNat + n + (source.length - n)
          = destination.toNat + source.length := by omega
      have hothers := ih (by omega) (by omega) (fun x h1 h2 => hpages x (by omega) (by omega))
        (fun i hi => by
          rw [List.getElem_drop, hsrc _ (by omega), hmore, Nat.add_assoc]) hrest
      rw [hmore, hdrop, hend] at hothers
      exact hpiece.trans hothers (by omega) (by omega)

/-- `vmm_memcpy` below 4 GiB, when it does not fail. -/
theorem vmmMemcpy_copied (content : Nat → UInt8) (hS : Apart 4096 (frameOf t) S)
    (hlt : destination.toNat + source.length ≤ 2 ^ 32)
    (hpages : ∀ x, destination.toNat ≤ x → x < destination.toNat + source.length → x / 4096 ∈ S)
    (hsrc : ∀ i (hi : i < source.length), source[i] = content (destination.toNat + i))
    (h : vmmMemcpy memEnd t mem destination source userspace = .ok (r, mem')) (hr : 0 ≤ r) :
    Copied 4096 (frameOf t) S mem mem' destination.toNat (destination.toNat + source.length)
      content :=
  memcpyFrom_copied hS hlt (Nat.le_refl _) hpages hsrc h hr

/-- The lowest 4 GiB of the memory, where the frames are, stay. -/
def SameLow (mem mem' : Bytes) : Prop := ∀ x < 2 ^ 32, mem' x = mem x

theorem SameLow.refl (mem : Bytes) : SameLow mem mem := fun _ _ => rfl

theorem SameLow.trans {mem'' : Bytes} (h : SameLow mem mem') (h' : SameLow mem' mem'') :
    SameLow mem mem'' := fun x hx => (h' x hx).trans (h x hx)

/-- `vmm_memcpy` to a higher address. It takes the frame of the address that is cut to 32 bits, and
it adds the difference of the two to it. So no write goes to a frame. -/
theorem vmmMemcpy_high (hlo : 2 ^ 32 ≤ destination.toNat)
    (hhi : destination.toNat + source.length ≤ 2 ^ 46)
    (h : vmmMemcpy memEnd t mem destination source userspace = .ok (r, mem')) :
    SameLow mem mem' := by
  unfold vmmMemcpy at h
  cases hlen : source.length with
  | zero =>
    rw [hlen] at h
    cases h
    exact SameLow.refl mem
  | succ fuel =>
    rw [hlen] at h
    unfold memcpyFrom at h
    split at h
    · cases h
      exact SameLow.refl mem
    dsimp only at h
    split at h
    · cases h
      exact SameLow.refl mem
    split at h
    · cases h
    · cases h
      exact SameLow.refl mem
    rename_i pte hwalk
    split at h
    · cases h
      exact SameLow.refl mem
    split at h
    · cases h
    have hbase := toNat_PAGE_ROUND_DOWN destination
    have hoff : (destination - PAGE_ROUND_DOWN destination).toNat
        = destination.toNat - destination.toNat % 2 ^ 32 / 4096 * 4096 := by
      rw [UInt64.toNat_sub, hbase]
      omega
    have hroom : source.length
        ≤ (PAGE_SIZE.toUInt64 - (destination - PAGE_ROUND_DOWN destination)).toNat := by
      rw [UInt64.toNat_sub, hoff, toNat_PAGE_SIZE_toUInt64]
      omega
    have hplace : 2 ^ 32 ≤ (pteFollow pte + (destination - PAGE_ROUND_DOWN destination)).toNat := by
      have hfollow := toNat_pteFollow pte
      rw [UInt64.toNat_add, hoff]
      omega
    -- The difference of the two is large, so the whole source is written at once.
    rw [Nat.min_eq_right hroom, List.drop_length, memcpyFrom_nil] at h
    cases h
    intro x hx
    exact Bytes.blit_of_apart (Or.inl (hx.trans_le hplace))

/-! ### `vmm_zero` -/

/-- The length of a piece of `vmm_zero`: a page, or what is left. -/
theorem toNat_toWrite (hle : vaddr.toNat ≤ last.toNat) :
    (if last - vaddr > PAGE_SIZE.toUInt64 then PAGE_SIZE.toUInt64 else last - vaddr).toNat =
      min 4096 (last.toNat - vaddr.toNat) := by
  have hlast := last.toNat_lt
  have hsub : (last - vaddr).toNat = last.toNat - vaddr.toNat := by
    rw [UInt64.toNat_sub]
    omega
  split
  · rename_i hbig
    rw [gt_iff_lt, UInt64.lt_iff_toNat_lt, hsub, toNat_PAGE_SIZE_toUInt64] at hbig
    rw [toNat_PAGE_SIZE_toUInt64]
    omega
  · rename_i hsmall
    rw [gt_iff_lt, UInt64.lt_iff_toNat_lt, hsub, toNat_PAGE_SIZE_toUInt64] at hsmall
    rw [hsub]
    omega

/-- The loop of `vmm_zero` below 4 GiB, when it does not fail. -/
theorem zeroFrom_copied (hS : Apart 4096 (frameOf t) S) (hle : vaddr.toNat ≤ last.toNat)
    (hlast : last.toNat ≤ 2 ^ 32) (hfuel : last.toNat ≤ vaddr.toNat + fuel * 4096)
    (hpages : ∀ x, vaddr.toNat ≤ x → x < last.toNat → x / 4096 ∈ S)
    (h : zeroFrom memEnd t last fuel vaddr mem = .ok (r, mem')) (hr : 0 ≤ r) :
    Copied 4096 (frameOf t) S mem mem' vaddr.toNat last.toNat fun _ => 0 := by
  induction fuel generalizing vaddr mem with
  | zero =>
    cases h
    have heq : last.toNat = vaddr.toNat := by omega
    rw [heq]
    exact copied_refl _ _ _
  | succ fuel ih =>
    unfold zeroFrom at h
    split at h
    · rename_i hmore
      rw [UInt64.lt_iff_toNat_lt] at hmore
      dsimp only at h
      have hcount := toNat_toWrite hmore.le
      generalize (if last - vaddr > PAGE_SIZE.toUInt64 then PAGE_SIZE.toUInt64
        else last - vaddr) = toWrite at h hcount
      have hadd : (vaddr + toWrite).toNat = vaddr.toNat + toWrite.toNat := by
        rw [UInt64.toNat_add]
        omega
      split at h
      · cases h
      rename_i r₁ mem₁ hcopy
      split at h
      · cases h
        exact absurd hr (by decide)
      rename_i hok
      have hlen : (List.replicate toWrite.toNat (0 : UInt8)).length = toWrite.toNat :=
        List.length_replicate
      have hpiece := vmmMemcpy_copied (fun _ => 0) hS (by omega)
        (fun x h1 h2 => hpages x h1 (by omega)) (fun i hi => List.getElem_replicate _) hcopy
        (by omega)
      rw [hlen, ← hadd] at hpiece
      exact hpiece.trans (ih (by omega) (by omega) (fun x h1 h2 => hpages x (by omega) h2) h)
        (by omega) (by omega)
    · rename_i hdone
      rw [UInt64.lt_iff_toNat_lt] at hdone
      cases h
      have heq : last.toNat = vaddr.toNat := by omega
      rw [heq]
      exact copied_refl _ _ _

/-- `vmm_zero` below 4 GiB, when it does not fail. -/
theorem vmmZero_copied {len : UInt64} (hS : Apart 4096 (frameOf t) S)
    (hlt : vaddr.toNat + len.toNat ≤ 2 ^ 32)
    (hpages : ∀ x, vaddr.toNat ≤ x → x < vaddr.toNat + len.toNat → x / 4096 ∈ S)
    (h : vmmZero memEnd t mem vaddr len = .ok (r, mem')) (hr : 0 ≤ r) :
    Copied 4096 (frameOf t) S mem mem' vaddr.toNat (vaddr.toNat + len.toNat) fun _ => 0 := by
  have hadd : (vaddr + len).toNat = vaddr.toNat + len.toNat := by
    rw [UInt64.toNat_add]
    omega
  rw [← hadd] at hlt hpages ⊢
  exact zeroFrom_copied hS (by omega) hlt (by omega) hpages h hr

end DzOS.Proofs.Mem
