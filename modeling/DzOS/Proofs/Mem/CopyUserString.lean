import DzOS.Proofs.Mem.ValidateUserPtr

/-!
# `DzOS.Proofs.Mem.CopyUserString`: when user strings are copied faithfully

`userByte` reads a byte of user memory through the page table, and `IsUserString` says that
the bytes at an address form a NUL-terminated string. `CopiesFaithfully` is what
`vmm_copy_user_string` is for.

The loop does not look at `userByte`. It looks at `seenByte`: the page is checked modulo
4 GiB, because `PAGE_ROUND_DOWN` has a 32-bit mask, and the byte is the first one of the
page, because `vmm_walkaddr` returns the frame without the offset in the page.
`copyUserStringFrom_outcome` says how the loop ends in terms of `seenByte`, and
`copyUserString_faithful_iff` says exactly when that is the right answer.
-/

set_option autoImplicit false

namespace DzOS.Proofs.Mem

open DzOS.Lib DzOS.Mem

variable {r a j : Nat} {buf mem : Bytes} {maxLen userStr root : UInt64} {s : MemState}
  {str : List UInt8} {res : Except String (Int × Bytes)}

/-! ### The specification -/

/-- The frame of a page that is present and has `PTE_U`. -/
def userFrame (mem : Bytes) (root : UInt64) (page : Nat) : Option UInt64 :=
  ((leafEntry mem root page).filter fun pte => pteIsPresent pte && pteIsUser pte).map pteFollow

/-- The byte at the user address `a`, read through the page table. -/
def userByte (mem : Bytes) (root : UInt64) (a : Nat) : Option UInt8 :=
  if USERSPACE_VA_MIN.toNat ≤ a ∧ a < USERSPACE_VA_MAX.toNat then
    (userFrame mem root (a / 4096)).map fun frame => mem (frame.toNat + a % 4096)
  else none

/-- The bytes at `a` are `str` and a NUL, and `str` has no NUL. -/
def IsUserString (mem : Bytes) (root : UInt64) (a : Nat) (str : List UInt8) : Prop :=
  (∀ i (h : i < str.length), userByte mem root (a + i) = some str[i] ∧ str[i] ≠ 0) ∧
  userByte mem root (a + str.length) = some 0

/-- The bytes at `a` form a string that fits a buffer of `maxLen` bytes with its NUL. -/
def FitsString (mem : Bytes) (root : UInt64) (a maxLen : Nat) : Prop :=
  ∃ str, IsUserString mem root a str ∧ str.length + 1 ≤ maxLen

/-- A string that fits is copied with its NUL and its length is returned. Otherwise the
result is -1. There is no panic in either case. -/
def CopiesFaithfully (s : MemState) (root userStr : UInt64) (buf : Bytes) (maxLen : UInt64) :
    Prop :=
  (∀ str, IsUserString s.mem root userStr.toNat str → str.length + 1 ≤ maxLen.toNat →
    ∃ buf', vmmCopyUserString s root userStr (some buf) maxLen =
        .ok ((str.length : Int), some buf') ∧
      buf'.slice 0 (str.length + 1) = str ++ [0]) ∧
  (¬ FitsString s.mem root userStr.toNat maxLen.toNat →
    ∃ buf', vmmCopyUserString s root userStr (some buf) maxLen = .ok (-1, buf'))

/-! ### What the loop looks at -/

/-- The page of `a` modulo 4 GiB is below the user window. -/
def LowAlias (a : Nat) : Prop := a % 2 ^ 32 < 2 ^ 22

instance (a : Nat) : Decidable (LowAlias a) := inferInstanceAs (Decidable (_ < _))

/-- The byte that the loop reads for address `a`: the first byte of the frame, provided that
the page and the page modulo 4 GiB are present user pages and that the frame is not at
physical address 0. -/
def seenByte (mem : Bytes) (root : UInt64) (a : Nat) : Option UInt8 :=
  match userFrame mem root (a % 2 ^ 32 / 4096), userFrame mem root (a / 4096) with
  | some _, some frame => if frame = 0 then none else some (mem frame.toNat)
  | _, _ => none

/-- The loop goes past address `a`. -/
def PassesByte (mem : Bytes) (root : UInt64) (a : Nat) : Prop :=
  ¬ LowAlias a ∧ ∃ c, seenByte mem root a = some c ∧ c ≠ 0

/-- The condition under which the copy is right. The first case starts outside the window. In
the second there is a string: it leaves a byte of the buffer unused besides its NUL, its
length is an `int`, and each of its bytes is what the loop reads. In the third there is none,
and the loop goes on to the end of the buffer or to a page that it cannot read. -/
def CopyCondition (mem : Bytes) (root : UInt64) (a maxLen : Nat) : Prop :=
  ¬ (USERSPACE_VA_MIN.toNat ≤ a ∧ a < USERSPACE_VA_MAX.toNat) ∨
  (∃ str, IsUserString mem root a str ∧ str.length + 2 ≤ maxLen ∧ str.length < 2 ^ 31 ∧
    ∀ i ≤ str.length, ¬ LowAlias (a + i) ∧ seenByte mem root (a + i) = (str ++ [0])[i]?) ∨
  (¬ FitsString mem root a maxLen ∧ ∃ j ≤ maxLen - 1,
    (∀ i < j, PassesByte mem root (a + i)) ∧
    (j = maxLen - 1 ∨ (¬ LowAlias (a + j) ∧ seenByte mem root (a + j) = none)))

/-- Nothing is read when the page modulo 4 GiB is not a present user page. -/
theorem seenByte_of_alias_none (h : userFrame mem root (a % 2 ^ 32 / 4096) = none) :
    seenByte mem root a = none := by
  rw [seenByte, h]

/-- What is read when the page modulo 4 GiB is a present user page. -/
theorem seenByte_of_alias {f : UInt64} (h : userFrame mem root (a % 2 ^ 32 / 4096) = some f) :
    seenByte mem root a =
      (userFrame mem root (a / 4096)).bind fun frame =>
        if frame = 0 then none else some (mem frame.toNat) := by
  rw [seenByte, h]
  cases userFrame mem root (a / 4096) <;> rfl

/-! ### One round of the loop -/

/-- The page check of the loop, for a page inside the window. -/
theorem userPagePresent_eq (s : MemState) (root page : UInt64) (hlo : 2 ^ 22 ≤ page.toNat)
    (hhi : page.toNat < 2 ^ 46) :
    userPagePresent s root page = .ok (userFrame s.mem root (page.toNat / 4096)).isSome := by
  rw [userPagePresent, walk_eq s root page hlo hhi]
  cases hslot : leafSlot s.mem root (page.toNat / 4096) with
  | none => simp [userFrame, leafEntry, hslot]
  | some slot =>
    simp only [userFrame, leafEntry, hslot, Option.map_some, Option.isSome_map, Except.ok.injEq]
    by_cases hp : (pteIsPresent (readPte s.mem slot) && pteIsUser (readPte s.mem slot)) = true
    · simp [Option.filter, hp]
    · simp [Option.filter, hp]

/-- `vmm_walkaddr` returns the frame of a present user page, and 0 for any other page. -/
theorem vmmWalkaddr_eq (s : MemState) (root va : UInt64) (hlo : 2 ^ 22 ≤ va.toNat)
    (hhi : va.toNat < 2 ^ 46) :
    vmmWalkaddr s root va true = .ok ((userFrame s.mem root (va.toNat / 4096)).getD 0) := by
  have hmax : ¬ va ≥ USERSPACE_VA_MAX := by
    rw [ge_iff_le, UInt64.le_iff_toNat_le, toNat_USERSPACE_VA_MAX]; omega
  rw [vmmWalkaddr, if_neg hmax, walk_eq s root va hlo hhi]
  cases hslot : leafSlot s.mem root (va.toNat / 4096) with
  | none => simp [userFrame, leafEntry, hslot]
  | some slot =>
    have hleaf : leafEntry s.mem root (va.toNat / 4096) = some (readPte s.mem slot) := by
      simp [leafEntry, hslot]
    dsimp only
    generalize readPte s.mem slot = pte at hleaf ⊢
    rw [userFrame, hleaf]
    cases hp : pteIsPresent pte <;> cases hu : pteIsUser pte <;> simp [Option.filter, hp, hu]

/-- The cached check holds for the page that it was made for. -/
def CheckedPage (s : MemState) (root currentPage : UInt64) (currentPageValid : Bool) : Prop :=
  currentPageValid = true → userPagePresent s root currentPage = .ok true

/-- One round of the loop. The cache makes no difference. -/
theorem copyUserStringFrom_succ (s : MemState) (root userAddr : UInt64) (r copied : Nat)
    (page : UInt64) (valid : Bool) (buf : Bytes) (hcache : CheckedPage s root page valid) :
    let va := userAddr + UInt64.ofNat copied
    copyUserStringFrom s root userAddr (r + 1) copied page valid buf =
      match userPagePresent s root (PAGE_ROUND_DOWN va) with
      | .error e => .error e
      | .ok false => .ok (-1, buf)
      | .ok true =>
        match vmmWalkaddr s root va true with
        | .error e => .error e
        | .ok pa =>
          if pa = 0 then .ok (-1, buf)
          else
            let c := s.mem pa.toNat
            let buf := buf.setLE 1 copied c.toNat
            if c = 0 then .ok (Int.bmod copied (2 ^ 32), buf)
            else
              copyUserStringFrom s root userAddr r (copied + 1) (PAGE_ROUND_DOWN va) true buf := by
  intro va
  have hround := copyUserStringFrom.eq_2 s root userAddr copied page valid buf r
  by_cases hcross : PAGE_ROUND_DOWN va = page
  · have hcur : (if PAGE_ROUND_DOWN va ≠ page then PAGE_ROUND_DOWN va else page) =
        PAGE_ROUND_DOWN va := by simp [hcross]
    have hval : (if PAGE_ROUND_DOWN va ≠ page then false else valid) = valid := by simp [hcross]
    have hcheck : (if valid = true then .ok true else userPagePresent s root (PAGE_ROUND_DOWN va))
        = userPagePresent s root (PAGE_ROUND_DOWN va) := by
      split
      · rename_i hv
        rw [hcross, hcache hv]
      · rfl
    dsimp only [va] at hcur hval hcheck hround
    rw [hcur, hval, hcheck] at hround
    exact hround
  · have hcur : (if PAGE_ROUND_DOWN va ≠ page then PAGE_ROUND_DOWN va else page) =
        PAGE_ROUND_DOWN va := by simp [hcross]
    have hval : (if PAGE_ROUND_DOWN va ≠ page then false else valid) = false := by simp [hcross]
    dsimp only [va] at hcur hval hround
    rw [hcur, hval] at hround
    exact hround

/-! ### How the loop ends -/

/-- How the loop ends, started at index `k`: it goes past the addresses up to `j`, and stops
there because the buffer is full, because of the panic, because it cannot read, or at a zero
byte. -/
inductive LoopEnd (mem : Bytes) (root : UInt64) (a k r j : Nat) :
    Except String (Int × Bytes) → Prop where
  | full {buf : Bytes} (hj : j = k + r) : LoopEnd mem root a k r j (.ok (-1, buf))
  | panic (hj : j < k + r) (hlow : LowAlias (a + j)) : LoopEnd mem root a k r j (.error "walk")
  | stop {buf : Bytes} (hj : j < k + r) (hlow : ¬ LowAlias (a + j))
      (hseen : seenByte mem root (a + j) = none) : LoopEnd mem root a k r j (.ok (-1, buf))
  | found {buf : Bytes} (hj : j < k + r) (hlow : ¬ LowAlias (a + j))
      (hseen : ∀ i, k ≤ i → i ≤ j → seenByte mem root (a + i) = some (buf i)) (hzero : buf j = 0) :
      LoopEnd mem root a k r j (.ok (Int.bmod j (2 ^ 32), buf))

/-- Writing one byte. -/
theorem setLE_one (buf : Bytes) (k i : Nat) (c : UInt8) :
    buf.setLE 1 k c.toNat i = if i = k then c else buf i := by
  unfold Bytes.setLE
  by_cases hi : i = k
  · simp [hi]
  · rw [if_neg (by omega), if_neg hi]

/-- The end of the loop. Bytes before index `k` stay in the buffer. -/
theorem copyUserStringFrom_outcome (s : MemState) (root userAddr : UInt64)
    (hlo : 2 ^ 22 ≤ userAddr.toNat) (hhi : userAddr.toNat < 2 ^ 46) (r k : Nat)
    (page : UInt64) (valid : Bool) (buf : Bytes) (hcache : CheckedPage s root page valid)
    (hblock : userAddr.toNat % 2 ^ 32 + k ≤ 2 ^ 32) :
    ∃ j, k ≤ j ∧ (∀ i, k ≤ i → i < j → PassesByte s.mem root (userAddr.toNat + i)) ∧
      LoopEnd s.mem root userAddr.toNat k r j
        (copyUserStringFrom s root userAddr r k page valid buf) ∧
      ∀ n buf', copyUserStringFrom s root userAddr r k page valid buf = .ok (n, buf') →
        ∀ i < k, buf' i = buf i := by
  induction r generalizing k page valid buf with
  | zero =>
    refine ⟨k, Nat.le_refl k, fun i h1 h2 => by omega, .full rfl, ?_⟩
    intro n buf' hres i hi
    cases hres
    rw [show (0 : Nat) = (0 : UInt8).toNat from rfl, setLE_one, if_neg (by omega)]
  | succ r ih =>
    -- A round that ends the loop ends it at `k`, and leaves the buffer below `k` alone.
    have hend : ∀ res, LoopEnd s.mem root userAddr.toNat k (r + 1) k res →
        (∀ n buf', res = .ok (n, buf') → ∀ i < k, buf' i = buf i) →
        ∃ j, k ≤ j ∧ (∀ i, k ≤ i → i < j → PassesByte s.mem root (userAddr.toNat + i)) ∧
          LoopEnd s.mem root userAddr.toNat k (r + 1) j res ∧
          ∀ n buf', res = .ok (n, buf') → ∀ i < k, buf' i = buf i :=
      fun res hres hbuf => ⟨k, Nat.le_refl k, fun i h1 h2 => by omega, hres, hbuf⟩
    have hva : (userAddr + UInt64.ofNat k).toNat = userAddr.toNat + k := by
      rw [UInt64.toNat_add, UInt64.toNat_ofNat']; omega
    have hround := toNat_PAGE_ROUND_DOWN (userAddr + UInt64.ofNat k)
    rw [hva] at hround
    rw [copyUserStringFrom_succ s root userAddr r k page valid buf hcache]
    by_cases hlow : LowAlias (userAddr.toNat + k)
    · have hpanic : userPagePresent s root (PAGE_ROUND_DOWN (userAddr + UInt64.ofNat k)) =
          .error "walk" := by
        rw [userPagePresent, walk_panic]
        exact Or.inl (by unfold LowAlias at hlow; omega)
      rw [hpanic]
      exact hend _ (.panic (by omega) hlow) (fun n buf' hc => by cases hc)
    · have hlow' := hlow
      unfold LowAlias at hlow'
      have hpage := userPagePresent_eq s root
        (PAGE_ROUND_DOWN (userAddr + UInt64.ofNat k)) (by omega) (by omega)
      rw [hround, Nat.mul_div_cancel _ (by omega)] at hpage
      have hwalk := vmmWalkaddr_eq s root (userAddr + UInt64.ofNat k) (by omega) (by omega)
      rw [hva] at hwalk
      have hstop : seenByte s.mem root (userAddr.toNat + k) = none →
          LoopEnd s.mem root userAddr.toNat k (r + 1) k (.ok (-1, buf)) :=
        fun hseen => .stop (by omega) hlow hseen
      have hsame : ∀ n buf', Except.ok (ε := String) ((-1 : Int), buf) = .ok (n, buf') →
          ∀ i < k, buf' i = buf i := by
        intro n buf' hc i _
        cases hc
        rfl
      cases halias : userFrame s.mem root ((userAddr.toNat + k) % 2 ^ 32 / 4096) with
      | none =>
        rw [hpage, halias]
        exact hend _ (hstop (seenByte_of_alias_none halias)) hsame
      | some f =>
        have hok : userPagePresent s root (PAGE_ROUND_DOWN (userAddr + UInt64.ofNat k)) =
            .ok true := by rw [hpage, halias]; rfl
        rw [hok, hwalk]
        have hbyte := seenByte_of_alias halias
        cases hframe : userFrame s.mem root ((userAddr.toNat + k) / 4096) with
        | none =>
          rw [hframe] at hbyte
          exact hend _ (hstop hbyte) hsame
        | some frame =>
          rw [hframe, Option.bind_some] at hbyte
          simp only [Option.getD_some]
          split
          · rename_i hf0
            rw [if_pos hf0] at hbyte
            exact hend _ (hstop hbyte) hsame
          · rename_i hf0
            have hseen : seenByte s.mem root (userAddr.toNat + k) = some (s.mem frame.toNat) := by
              rw [hbyte, if_neg hf0]
            have hkeep : ∀ i < k, buf.setLE 1 k (s.mem frame.toNat).toNat i = buf i := by
              intro i hi
              rw [setLE_one, if_neg (by omega)]
            split
            · rename_i hc0
              refine hend _ (.found (by omega) hlow ?_ ?_) ?_
              · intro i h1 h2
                have hik : i = k := by omega
                rw [hik, hseen, setLE_one, if_pos rfl]
              · rw [setLE_one, if_pos rfl, hc0]
              · intro n buf' hres i hi
                rw [← (Prod.mk.inj (Except.ok.inj hres)).2]
                exact hkeep i hi
            · rename_i hc0
              obtain ⟨j, hkj, hpass, hloop, hbuf⟩ := ih (k + 1)
                (PAGE_ROUND_DOWN (userAddr + UInt64.ofNat k)) true
                (buf.setLE 1 k (s.mem frame.toNat).toNat) (fun _ => hok) (by omega)
              refine ⟨j, by omega, fun i h1 h2 => ?_, ?_, fun n buf' hres i hi => ?_⟩
              · by_cases hik : i = k
                · rw [hik]
                  exact ⟨hlow, _, hseen, hc0⟩
                · exact hpass i (by omega) h2
              · -- The byte at `k` is in the buffer that the rest of the loop returns.
                generalize hres : copyUserStringFrom s root userAddr r (k + 1)
                  (PAGE_ROUND_DOWN (userAddr + UInt64.ofNat k)) true
                  (buf.setLE 1 k (s.mem frame.toNat).toNat) = res at hloop hbuf
                cases hloop with
                | full hj => exact .full (by omega)
                | panic hj hl => exact .panic (by omega) hl
                | stop hj hl hs => exact .stop (by omega) hl hs
                | found hj hl hs hz =>
                  refine .found (by omega) hl (fun i h1 h2 => ?_) hz
                  by_cases hik : i = k
                  · rw [hik, hseen, hbuf _ _ rfl k (by omega), setLE_one, if_pos rfl]
                  · exact hs i (by omega) h2
              · rw [hbuf n buf' hres i (by omega)]
                exact hkeep i hi

/-! ### The whole function -/

/-- Outside the window the result is -1. -/
theorem vmmCopyUserString_outside (s : MemState) (root userStr : UInt64) (buf : Bytes)
    (maxLen : UInt64)
    (h : ¬ (USERSPACE_VA_MIN.toNat ≤ userStr.toNat ∧ userStr.toNat < USERSPACE_VA_MAX.toNat)) :
    vmmCopyUserString s root userStr (some buf) maxLen = .ok (-1, some buf) := by
  unfold vmmCopyUserString
  simp only
  split
  · rfl
  split
  · rfl
  rename_i hwin
  simp only [ge_iff_le, Bool.or_eq_true, decide_eq_true_eq, not_or] at hwin
  rw [UInt64.le_iff_toNat_le, UInt64.lt_iff_toNat_lt] at hwin
  omega

/-- Inside the window the result is that of the loop. -/
theorem vmmCopyUserString_inside (s : MemState) (root userStr : UInt64) (buf : Bytes)
    (maxLen : UInt64) (hlo : USERSPACE_VA_MIN.toNat ≤ userStr.toNat)
    (hhi : userStr.toNat < USERSPACE_VA_MAX.toNat) (hmax : maxLen ≠ 0) :
    vmmCopyUserString s root userStr (some buf) maxLen =
      (copyUserStringFrom s root userStr (maxLen.toNat - 1) 0
        (PAGE_ROUND_DOWN userStr) false buf).map fun r => (r.1, some r.2) := by
  have hmin := toNat_USERSPACE_VA_MIN
  have hne : userStr ≠ 0 := by
    intro h0
    rw [h0, UInt64.toNat_zero] at hlo
    omega
  have h1 : ¬ userStr ≥ USERSPACE_VA_MAX := by
    rw [ge_iff_le, UInt64.le_iff_toNat_le]; omega
  have h2 : ¬ userStr < USERSPACE_VA_MIN := by rw [UInt64.lt_iff_toNat_lt]; omega
  unfold vmmCopyUserString
  simp only [hne, hmax, h1, h2, decide_false, Bool.or_self, Bool.false_eq_true, if_false]
  cases copyUserStringFrom s root userStr (maxLen.toNat - 1) 0 (PAGE_ROUND_DOWN userStr) false
    buf with
  | error e => rfl
  | ok r => rfl

/-- An address holds at most one string. -/
theorem IsUserString.unique {str' : List UInt8} (h : IsUserString mem root a str)
    (h' : IsUserString mem root a str') : str = str' := by
  -- The end of the shorter string is a NUL inside the longer one.
  have hle : ∀ {u v : List UInt8}, IsUserString mem root a u → IsUserString mem root a v →
      ¬ u.length < v.length := by
    intro u v hu hv hlt
    obtain ⟨heq, hne⟩ := hv.1 u.length hlt
    rw [hu.2] at heq
    exact hne (Option.some.inj heq).symm
  have hlen : str.length = str'.length := by
    have h1 := hle h h'
    have h2 := hle h' h
    omega
  refine List.ext_getElem hlen fun i h1 h2 => ?_
  have heq := (h.1 i h1).1
  rw [(h'.1 i h2).1] at heq
  exact (Option.some.inj heq).symm

/-- The first byte that the loop does not go past is determined. -/
theorem passes_unique {i : Nat} (hi : ∀ k < i, PassesByte mem root (a + k))
    (hj : ∀ k < j, PassesByte mem root (a + k)) (hi' : ¬ PassesByte mem root (a + i))
    (hj' : ¬ PassesByte mem root (a + j)) : i = j := by
  by_contra hne
  rcases Nat.lt_or_gt_of_ne hne with h | h
  · exact hi' (hj i h)
  · exact hj' (hi j h)

/-- The loop does not go past the end of a 4 GiB block. -/
theorem block_bound (h : ∀ i ≤ j, ¬ LowAlias (a + i)) : a % 2 ^ 32 + j < 2 ^ 32 := by
  induction j with
  | zero => omega
  | succ j ih =>
    have hprev := ih fun i hi => h i (by omega)
    have hlast := h (j + 1) (Nat.le_refl _)
    unfold LowAlias at hlast
    omega

/-- An index below 4 GiB that is returned as an `int`. -/
theorem bmod_index (h : j < 2 ^ 32 - 1) :
    Int.bmod j (2 ^ 32) ≠ -1 ∧
      ∀ n : Nat, Int.bmod j (2 ^ 32) = (n : Int) ↔ j = n ∧ n < 2 ^ 31 := by
  have hdef : Int.bmod j (2 ^ 32) = if j < 2 ^ 31 then (j : Int) else (j : Int) - 2 ^ 32 := by
    rw [Int.bmod_def]
    split <;> split <;> omega
  rw [hdef]
  constructor
  · split <;> omega
  · intro n
    split <;> omega

/-- How the function ends, inside the window. -/
theorem vmmCopyUserString_outcome (s : MemState) (root userStr : UInt64) (buf : Bytes)
    (maxLen : UInt64) (hlo : USERSPACE_VA_MIN.toNat ≤ userStr.toNat)
    (hhi : userStr.toNat < USERSPACE_VA_MAX.toNat) (hmax : maxLen ≠ 0) :
    ∃ j res, (∀ i < j, PassesByte s.mem root (userStr.toNat + i)) ∧
      LoopEnd s.mem root userStr.toNat 0 (maxLen.toNat - 1) j res ∧
      vmmCopyUserString s root userStr (some buf) maxLen = res.map fun r => (r.1, some r.2) := by
  have hmin := toNat_USERSPACE_VA_MIN
  have hmx := toNat_USERSPACE_VA_MAX
  obtain ⟨j, -, hpass, hloop, -⟩ := copyUserStringFrom_outcome s root userStr (by omega) (by omega)
    (maxLen.toNat - 1) 0 (PAGE_ROUND_DOWN userStr) false buf (fun hc => by cases hc) (by omega)
  refine ⟨j, _, fun i hi => hpass i (Nat.zero_le i) hi, hloop, ?_⟩
  exact vmmCopyUserString_inside s root userStr buf maxLen hlo hhi hmax

/-- The loop does not go past a byte where it ends with a zero byte or with -1. -/
theorem not_passes_of_seen_zero (h : seenByte mem root a = some 0) : ¬ PassesByte mem root a := by
  rintro ⟨-, c, hc, hne⟩
  rw [h] at hc
  exact hne (Option.some.inj hc).symm

/-- The loop does not go past a byte that it cannot read. -/
theorem not_passes_of_seen_none (h : seenByte mem root a = none) : ¬ PassesByte mem root a := by
  rintro ⟨-, c, hc, -⟩
  rw [h] at hc
  cases hc

/-- A string that the loop sees byte by byte: the loop goes past all of it but the NUL. -/
theorem passes_of_seen_string (hstr : IsUserString mem root a str)
    (hseen : ∀ i ≤ str.length, ¬ LowAlias (a + i) ∧ seenByte mem root (a + i) = (str ++ [0])[i]?) :
    (∀ i < str.length, PassesByte mem root (a + i)) ∧
      seenByte mem root (a + str.length) = some 0 := by
  constructor
  · intro i hi
    obtain ⟨hlow, hs⟩ := hseen i (by omega)
    rw [List.getElem?_append_left hi, List.getElem?_eq_getElem hi] at hs
    exact ⟨hlow, _, hs, (hstr.1 i hi).2⟩
  · rw [(hseen str.length (Nat.le_refl _)).2]
    simp

section

variable (hpass : ∀ i < j, PassesByte mem root (a + i))

include hpass

/-- Where the loop stops at a good address, all addresses before it are good too. -/
theorem no_alias_through (hl : ¬ LowAlias (a + j)) : ∀ i ≤ j, ¬ LowAlias (a + i) := by
  intro i hi
  rcases Nat.eq_or_lt_of_le hi with rfl | hlt
  · exact hl
  · exact (hpass i hlt).1

/-- If the copy is right on a string that fits, the loop saw the string. -/
theorem seen_of_copied {buf' : Bytes} (hloop : LoopEnd mem root a 0 r j res)
    (hres : res = .ok ((str.length : Int), buf'))
    (hbuf : buf'.slice 0 (str.length + 1) = str ++ [0]) :
    str.length < r ∧ str.length < 2 ^ 31 ∧
      ∀ i ≤ str.length, ¬ LowAlias (a + i) ∧ seenByte mem root (a + i) = (str ++ [0])[i]? := by
  cases hloop with
  | full hj => simp only [Except.ok.injEq, Prod.mk.injEq] at hres; omega
  | panic hj hl => cases hres
  | stop hj hl hs => simp only [Except.ok.injEq, Prod.mk.injEq] at hres; omega
  | found hj hl hs hz =>
    simp only [Except.ok.injEq, Prod.mk.injEq] at hres
    obtain ⟨hn, rfl⟩ := hres
    have hlow := no_alias_through hpass hl
    have hbound := block_bound hlow
    have hstart := hlow 0 (by omega)
    unfold LowAlias at hstart
    obtain ⟨rfl, hint⟩ := ((bmod_index (by omega)).2 _).mp hn
    refine ⟨by omega, hint, fun i hi => ⟨hlow i hi, ?_⟩⟩
    rw [hs i (Nat.zero_le i) hi, ← hbuf, List.getElem?_eq_getElem (by simp; omega)]
    simp [Bytes.getElem_slice]

/-- If the loop sees a string that fits, the copy is right on it. -/
theorem copied_of_seen (hloop : LoopEnd mem root a 0 r j res) (hstr : IsUserString mem root a str)
    (hlt : str.length < r) (hint : str.length < 2 ^ 31)
    (hseen : ∀ i ≤ str.length, ¬ LowAlias (a + i) ∧ seenByte mem root (a + i) = (str ++ [0])[i]?) :
    ∃ buf', res = .ok ((str.length : Int), buf') ∧ buf'.slice 0 (str.length + 1) = str ++ [0] := by
  obtain ⟨hpre, hnul⟩ := passes_of_seen_string hstr hseen
  have hstop := not_passes_of_seen_zero hnul
  -- The loop ends no earlier and no later than at the NUL.
  have hge : ¬ str.length < j := fun h => hstop (hpass _ h)
  have hjr : j < 0 + r := by omega
  have hle : ¬ PassesByte mem root (a + j) → j = str.length :=
    fun hn => passes_unique hpass hpre hn hstop
  cases hloop with
  | full hj => omega
  | panic hj hl =>
    obtain rfl := hle fun hp => hp.1 hl
    exact absurd hl (hseen _ (Nat.le_refl _)).1
  | stop hj hl hs =>
    obtain rfl := hle (not_passes_of_seen_none hs)
    rw [hs] at hnul
    cases hnul
  | found hj hl hs hz =>
    obtain rfl := hle (not_passes_of_seen_zero (by rw [hs j (Nat.zero_le j) (Nat.le_refl j), hz]))
    rename_i buf'
    have hn := ((bmod_index (j := str.length) (by omega)).2 str.length).mpr ⟨rfl, hint⟩
    refine ⟨buf', by rw [hn], ?_⟩
    refine List.ext_getElem? fun i => ?_
    by_cases hi : i ≤ str.length
    · rw [← (hseen i hi).2, hs i (Nat.zero_le i) hi, List.getElem?_eq_getElem (by simp; omega)]
      simp [Bytes.getElem_slice]
    · rw [List.getElem?_eq_none (by simp; omega), List.getElem?_eq_none (by simp; omega)]

/-- The result -1 of the loop, when it does not see a string. -/
theorem minusOne_iff (hloop : LoopEnd mem root a 0 r j res) :
    (∃ buf', res = .ok (-1, buf')) ↔
      ∃ j ≤ r, (∀ i < j, PassesByte mem root (a + i)) ∧
        (j = r ∨ (¬ LowAlias (a + j) ∧ seenByte mem root (a + j) = none)) := by
  constructor
  · rintro ⟨buf', hres⟩
    cases hloop with
    | full hj => exact ⟨j, by omega, hpass, Or.inl (by omega)⟩
    | panic hj hl => cases hres
    | stop hj hl hs => exact ⟨j, by omega, hpass, Or.inr ⟨hl, hs⟩⟩
    | found hj hl hs hz =>
      simp only [Except.ok.injEq, Prod.mk.injEq] at hres
      have hlow := no_alias_through hpass hl
      have hbound := block_bound hlow
      have hstart := hlow 0 (by omega)
      unfold LowAlias at hstart
      exact absurd hres.1 (bmod_index (by omega)).1
  · rintro ⟨j', hj', hpass', hend⟩
    -- The loop stands at `j'`, where it ends with -1.
    have hge : ¬ j < j' → ¬ PassesByte mem root (a + j) → j' < r → j = j' := by
      intro h1 h2 h3
      by_contra hne
      rcases hend with rfl | ⟨-, hs⟩
      · omega
      · exact not_passes_of_seen_none hs (hpass j' (by omega))
    have hjj : j < r → ¬ PassesByte mem root (a + j) → j = j' := by
      intro h1 h2
      have h3 : ¬ j < j' := fun h => h2 (hpass' j h)
      exact hge h3 h2 (by omega)
    cases hloop with
    | full hj => exact ⟨_, rfl⟩
    | panic hj hl =>
      obtain rfl := hjj (by omega) fun hp => hp.1 hl
      rcases hend with rfl | ⟨hl', -⟩
      · omega
      · exact absurd hl hl'
    | stop hj hl hs => exact ⟨_, rfl⟩
    | found hj hl hs hz =>
      have hseen : seenByte mem root (a + j) = some 0 := by
        rw [hs j (Nat.zero_le j) (Nat.le_refl j), hz]
      obtain rfl := hjj (by omega) (not_passes_of_seen_zero hseen)
      rcases hend with rfl | ⟨-, hs'⟩
      · omega
      · rw [hs'] at hseen
        cases hseen

end

/-! ### The result -/

/-- Without a buffer of at least one byte the result is -1. -/
theorem vmmCopyUserString_empty (s : MemState) (root userStr : UInt64) (buf : Bytes) :
    vmmCopyUserString s root userStr (some buf) 0 = .ok (-1, some buf) := by
  simp [vmmCopyUserString]

/-- Bytes outside the window are in no string. -/
theorem not_fitsString_outside {maxLen : Nat}
    (h : ¬ (USERSPACE_VA_MIN.toNat ≤ a ∧ a < USERSPACE_VA_MAX.toNat)) :
    ¬ FitsString mem root a maxLen := by
  rintro ⟨str, hstr, -⟩
  have hfirst : userByte mem root a = none := by rw [userByte, if_neg h]
  cases hlen : str.length with
  | zero =>
    have := hstr.2
    rw [hlen, Nat.add_zero, hfirst] at this
    cases this
  | succ n =>
    have := (hstr.1 0 (by omega)).1
    rw [Nat.add_zero, hfirst] at this
    cases this

/-- When there is no string to copy, being faithful is returning -1. -/
theorem copiesFaithfully_of_not_fits (hfit : ¬ FitsString s.mem root userStr.toNat maxLen.toNat) :
    CopiesFaithfully s root userStr buf maxLen ↔
      ∃ buf', vmmCopyUserString s root userStr (some buf) maxLen = .ok (-1, buf') := by
  constructor
  · intro h
    exact h.2 hfit
  · intro h
    exact ⟨fun str hstr hlen => absurd ⟨str, hstr, hlen⟩ hfit, fun _ => h⟩

/-- When there is a string to copy, being faithful is copying it. -/
theorem copiesFaithfully_of_fits (hstr : IsUserString s.mem root userStr.toNat str)
    (hlen : str.length + 1 ≤ maxLen.toNat) :
    CopiesFaithfully s root userStr buf maxLen ↔
      ∃ buf', vmmCopyUserString s root userStr (some buf) maxLen =
          .ok ((str.length : Int), some buf') ∧
        buf'.slice 0 (str.length + 1) = str ++ [0] := by
  constructor
  · intro h
    exact h.1 str hstr hlen
  · intro h
    refine ⟨fun str' hstr' _ => ?_, fun hn => absurd ⟨str, hstr, hlen⟩ hn⟩
    rw [hstr'.unique hstr]
    exact h

/-- Inside the window, for a buffer that is not empty. -/
theorem copiesFaithfully_inside_iff (s : MemState) (root userStr : UInt64) (buf : Bytes)
    (maxLen : UInt64) (hlo : USERSPACE_VA_MIN.toNat ≤ userStr.toNat)
    (hhi : userStr.toNat < USERSPACE_VA_MAX.toNat) (hmax : maxLen ≠ 0) :
    CopiesFaithfully s root userStr buf maxLen ↔
      CopyCondition s.mem root userStr.toNat maxLen.toNat := by
  have hpos : 0 < maxLen.toNat :=
    Nat.pos_of_ne_zero fun h0 => hmax (UInt64.toNat.inj h0)
  obtain ⟨j, res, hpass, hloop, hrun⟩ :=
    vmmCopyUserString_outcome s root userStr buf maxLen hlo hhi hmax
  have hcond : CopyCondition s.mem root userStr.toNat maxLen.toNat ↔ _ :=
    or_iff_right (not_not_intro ⟨hlo, hhi⟩)
  rw [hcond]
  by_cases hfit : FitsString s.mem root userStr.toNat maxLen.toNat
  · obtain ⟨str, hstr, hlen⟩ := id hfit
    rw [copiesFaithfully_of_fits hstr hlen, hrun]
    constructor
    · rintro ⟨buf', hres, hbuf⟩
      have hres' : res = .ok ((str.length : Int), buf') := by
        cases res with
        | error e => cases hres
        | ok r =>
          simp only [Except.map, Except.ok.injEq, Prod.mk.injEq, Option.some.injEq] at hres
          rw [← hres.1, ← hres.2]
      obtain ⟨h1, h2, h3⟩ := seen_of_copied hpass hloop hres' hbuf
      exact Or.inl ⟨str, hstr, by omega, h2, h3⟩
    · rintro (⟨str', hstr', h1, h2, h3⟩ | ⟨hn, -⟩)
      · obtain rfl := hstr'.unique hstr
        obtain ⟨buf', hres, hbuf⟩ := copied_of_seen hpass hloop hstr (by omega) h2 h3
        exact ⟨buf', by rw [hres]; rfl, hbuf⟩
      · exact absurd hfit hn
  · rw [copiesFaithfully_of_not_fits hfit, hrun]
    have hres : (∃ buf', (res.map fun r => (r.1, some r.2)) = .ok (-1, buf')) ↔
        ∃ buf', res = .ok (-1, buf') := by
      cases res with
      | error e => simp [Except.map]
      | ok r => cases r; simp [Except.map]
    rw [hres, minusOne_iff hpass hloop]
    constructor
    · exact fun h => Or.inr ⟨hfit, h⟩
    · rintro (⟨str, hstr, h1, -⟩ | ⟨-, h⟩)
      · exact absurd ⟨str, hstr, by omega⟩ hfit
      · exact h

/-- User strings are copied faithfully exactly under `CopyCondition`. In particular a string
that is not empty and ends in the page it starts in is never copied faithfully, however large
the buffer. -/
theorem copyUserString_faithful_iff (s : MemState) (root userStr : UInt64) (buf : Bytes)
    (maxLen : UInt64) :
    (CopiesFaithfully s root userStr buf maxLen ↔
      CopyCondition s.mem root userStr.toNat maxLen.toNat) ∧
    ∀ str, IsUserString s.mem root userStr.toNat str → str ≠ [] →
      userStr.toNat % 4096 + str.length < 4096 → str.length + 1 ≤ maxLen.toNat →
      ¬ CopiesFaithfully s root userStr buf maxLen := by
  have hiff : CopiesFaithfully s root userStr buf maxLen ↔
      CopyCondition s.mem root userStr.toNat maxLen.toNat := by
    by_cases hwin : USERSPACE_VA_MIN.toNat ≤ userStr.toNat ∧
        userStr.toNat < USERSPACE_VA_MAX.toNat
    · by_cases hmax : maxLen = 0
      · have hfit : ¬ FitsString s.mem root userStr.toNat maxLen.toNat := by
          rintro ⟨str, -, hlen⟩
          rw [hmax, UInt64.toNat_zero] at hlen
          omega
        rw [copiesFaithfully_of_not_fits hfit, hmax]
        refine ⟨fun _ => Or.inr (Or.inr ⟨hmax ▸ hfit, 0, by simp, ?_, Or.inl (by simp)⟩),
          fun _ => ?_⟩
        · intro i hi; omega
        · exact ⟨_, vmmCopyUserString_empty s root userStr buf⟩
      · exact copiesFaithfully_inside_iff s root userStr buf maxLen hwin.1 hwin.2 hmax
    · rw [copiesFaithfully_of_not_fits (not_fitsString_outside hwin)]
      exact ⟨fun _ => Or.inl hwin,
        fun _ => ⟨_, vmmCopyUserString_outside s root userStr buf maxLen hwin⟩⟩
  refine ⟨hiff, fun str hstr hne hpage hlen hcopy => ?_⟩
  rcases hiff.mp hcopy with hout | ⟨str', hstr', -, -, hseen⟩ | ⟨hn, -⟩
  · exact not_fitsString_outside hout ⟨str, hstr, hlen⟩
  · obtain rfl := hstr'.unique hstr
    have hlen0 : 0 < str'.length := List.length_pos_iff.mpr hne
    obtain ⟨hpass, hnul⟩ := passes_of_seen_string hstr hseen
    -- The first byte and the NUL are in one page, so the loop sees the same byte for both.
    obtain ⟨-, c, hc, hc0⟩ := hpass 0 hlen0
    have hsame : seenByte s.mem root (userStr.toNat + 0) =
        seenByte s.mem root (userStr.toNat + str'.length) := by
      have h1 : (userStr.toNat + str'.length) / 4096 = userStr.toNat / 4096 := by omega
      have h2 : (userStr.toNat + str'.length) % 2 ^ 32 / 4096 =
          userStr.toNat % 2 ^ 32 / 4096 := by omega
      rw [Nat.add_zero, seenByte, seenByte, h1, h2]
    rw [hsame, hnul] at hc
    exact hc0 (Option.some.inj hc).symm
  · exact hn ⟨str, hstr, hlen⟩

/-- In `lowMemory` the page at 4 MiB starts with the bytes 7, 48, 0. Given a buffer of four
bytes, the loop reads 7 three times and returns -1, where the string of length 2 should be
copied. -/
theorem copyUserString_twoBytes_lost :
    IsUserString lowMemory 0x1000 0x400000 [7, 48] ∧
    (vmmCopyUserString (MemState.boot lowMemory) 0x1000 0x400000 (some Bytes.zero) 4).map
      (fun r => r.1) = .ok (-1) ∧
    ¬ ∀ s root userStr buf maxLen, CopiesFaithfully s root userStr buf maxLen := by
  have hstr : IsUserString lowMemory 0x1000 0x400000 [7, 48] := by
    refine ⟨fun i hi => ?_, by decide +kernel⟩
    have hcases : i = 0 ∨ i = 1 := by simp at hi; omega
    rcases hcases with rfl | rfl
    · exact ⟨show userByte lowMemory 0x1000 0x400000 = some 7 by decide +kernel,
        show (7 : UInt8) ≠ 0 by decide⟩
    · exact ⟨show userByte lowMemory 0x1000 0x400001 = some 48 by decide +kernel,
        show (48 : UInt8) ≠ 0 by decide⟩
  have hrun : (vmmCopyUserString (MemState.boot lowMemory) 0x1000 0x400000 (some Bytes.zero) 4).map
      (fun r => r.1) = .ok (-1) := by decide +kernel
  refine ⟨hstr, hrun, fun hall => ?_⟩
  obtain ⟨buf', hcopy, -⟩ :=
    (hall (MemState.boot lowMemory) 0x1000 0x400000 Bytes.zero 4).1 [7, 48] hstr (by decide)
  rw [hcopy] at hrun
  exact absurd (Except.ok.inj hrun) (show ((2 : Int) ≠ -1) by decide)

end DzOS.Proofs.Mem
