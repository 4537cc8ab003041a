import DzOS.Proofs.Mem.ProcessPages
import DzOS.Proofs.Userspace.Segments

/-!
# `DzOS.Proofs.Userspace.LoaderSteps`: how the functions of the loader end

What `load_segment` and `vmm_zero` do depends on the pages of the user only. `load_segment` panics
exactly if it comes to an address without a page (`loadSegment_outcome`). It goes from page to page,
and it stops at the end of the file, so it comes to the pages that `Reached` describes.

`vmm_memcpy` looks up the page of the low 32 bits of an address and adds the full difference to its
frame. From 4 GiB on a store behind the direct map is the result (`Wild`), which is a page fault of
the kernel. `vmm_zero` faults exactly if its first address is of this kind, and otherwise it fails
exactly if one of the pages that it looks up may not be written (`vmmZero_outcome`).
-/

set_option autoImplicit false

namespace DzOS.Proofs.Userspace

open DzOS.Lib DzOS.Mem DzOS.Fs DzOS.Userspace DzOS.Proofs.Mem
open DzOS.Proofs.Fs (byteAt readCount dzfsRead_eq)

variable {sz : UInt32} {destination va : UInt64} {off x len : Nat} {source : List UInt8}
  {t : PageTree 3} {m : PageMap} {vars : FsVars} {inode : InodePtr} {mem : Bytes}

/-! ### The file -/

/-- The dnode of an inode is a file. -/
def IsFile (vars : FsVars) (inode : InodePtr) : Prop :=
  entityType (vars.fs.disk (vars.inodes inode).dnode) = DZFS_ENTITY_FILE

theorem fileContent_length_lt (vars : FsVars) (inode : InodePtr) :
    (fileContent vars inode).length < 2 ^ 32 := by
  have hlt : fileSize (vars.fs.disk (vars.inodes inode).dnode) < 256 ^ 4 := Bytes.getLE_lt _ 4 _
  unfold fileContent
  simpa using hlt

/-- A read of at most a page of a file is full exactly if the file has these bytes. -/
theorem fsRead_full_iff (hfile : IsFile vars inode) (off : Nat) (hpos : 0 < len)
    (hlen : len ≤ 4096) :
    (fsRead vars inode len off).1 = len ↔ off + len ≤ (fileContent vars inode).length := by
  constructor
  · intro hfull
    exact (fsRead_full hpos hfull).1
  · intro hle
    have hsize : off + len ≤ fileSize (vars.fs.disk (vars.inodes inode).dnode) := by
      simpa [fileContent] using hle
    have hcount : readCount (fileSize (vars.fs.disk (vars.inodes inode).dnode)) len off = len := by
      have hmin : min (fileSize (vars.fs.disk (vars.inodes inode).dnode) - off) len = len := by
        omega
      unfold Proofs.Fs.readCount
      rw [if_neg (by omega), hmin, Nat.mod_eq_of_lt (by omega), if_pos (by omega)]
    unfold fsRead
    rw [dzfsRead_eq hfile, hcount]
    have hnat : ¬ Int.ofNat len < 0 := Int.not_lt.mpr (Int.natCast_nonneg len)
    dsimp only
    rw [if_neg hnat]
    rfl

/-- Only a file can be read. -/
theorem isFile_of_read (h : (fsRead vars inode len off).1 = len) : IsFile vars inode := by
  by_contra hfile
  unfold IsFile at hfile
  have hread : (fsRead vars inode len off).1 = -1 := by
    unfold fsRead dzfsRead
    rw [if_pos hfile]
    rfl
  rw [hread] at h
  omega

/-! ### `load_segment` -/

/-- What `vmm_walkaddr` finds for the user. -/
theorem walkAddr_outcome (h : ProcessPages t m) (hmin : USERSPACE_VA_MIN ≤ va) :
    ((m (va.toNat / 4096)).isSome ∧ ∃ pa, walkAddr t va true = .ok pa ∧ pa ≠ 0) ∨
      (m (va.toNat / 4096) = none ∧ walkAddr t va true = .ok 0) := by
  by_cases hpage : (m (va.toNat / 4096)).isSome
  · exact Or.inl ⟨hpage, (h.walkable va).mpr hpage⟩
  · refine Or.inr ⟨by simpa using hpage, ?_⟩
    have hwalk : ¬ Walkable t va := fun hwalk => hpage ((h.walkable va).mp hwalk)
    have hok : ∃ pa, walkAddr t va true = .ok pa := by
      unfold walkAddr
      split
      · exact ⟨_, rfl⟩
      rename_i hmax
      have hrange : ((!false && decide (va ≥ USERSPACE_VA_MAX)) || decide (va < USERSPACE_VA_MIN))
          = false := by
        simp [hmax, UInt64.not_lt.mpr hmin]
      unfold walkUserNoAlloc
      rw [hrange, if_neg Bool.false_ne_true]
      cases readLeaf t va with
      | none => exact ⟨_, rfl⟩
      | some pte =>
        dsimp only
        split
        · exact ⟨_, rfl⟩
        · split
          · exact ⟨_, rfl⟩
          · exact ⟨_, rfl⟩
    obtain ⟨pa, hpa⟩ := hok
    by_cases hzero : pa = 0
    · rw [hpa, hzero]
    · exact absurd ⟨pa, hpa, hzero⟩ hwalk

/-- `load_segment` comes to this page when it copies `sz` bytes from the place `off` of a file of
`len` bytes to the address `va`. It does so with the first page, and with each other one if the file
has all bytes before it. -/
def Reached (len off va sz page : Nat) : Prop :=
  va / 4096 ≤ page ∧ page * 4096 < va + sz ∧ (va < page * 4096 → off + (page * 4096 - va) ≤ len)

instance (len off va sz page : Nat) : Decidable (Reached len off va sz page) :=
  inferInstanceAs (Decidable (_ ∧ _ ∧ _))

/-- The pages that are reached from a place inside the segment on. -/
theorem reached_next {va sz i n page : Nat} (hn : n = min (4096 - (va + i) % 4096) (sz - i))
    (hi : i < sz) (hmore : i + n < sz) (hfull : off + i + n ≤ len) :
    Reached len (off + i) (va + i) (sz - i) page ↔
      page = (va + i) / 4096 ∨ Reached len (off + (i + n)) (va + (i + n)) (sz - (i + n)) page := by
  have hmod : (va + i) % 4096 < 4096 := Nat.mod_lt _ (by decide)
  have hdiv := Nat.div_add_mod (va + i) 4096
  unfold Reached
  constructor
  · rintro ⟨h1, h2, h3⟩
    rcases Nat.eq_or_lt_of_le h1 with heq | hlt
    · exact Or.inl heq.symm
    · exact Or.inr ⟨by omega, by omega, fun h4 => by omega⟩
  · rintro (rfl | ⟨h1, h2, h3⟩)
    · exact ⟨Nat.le_refl _, by omega, fun h4 => by omega⟩
    · exact ⟨by omega, by omega, fun h4 => by omega⟩

/-- Nothing is left to load. -/
theorem loadSegmentFrom_done {offset i : UInt32} (fuel : Nat) (h : ¬ i < sz) :
    loadSegmentFrom t vars inode va offset sz fuel i mem = .ok (0, mem) := by
  cases fuel with
  | zero => rfl
  | succ fuel =>
    unfold loadSegmentFrom
    rw [if_neg h]

/-- The loop of `load_segment`, from the byte `i` on. -/
theorem loadSegmentFrom_outcome (offset : UInt32) (i : UInt32) (fuel : Nat) (mem : Bytes)
    (hfile : IsFile vars inode) (h : ProcessPages t m) (hmin : USERSPACE_VA_MIN ≤ va)
    (hi : i.toNat < sz.toNat) (hfuel : sz.toNat ≤ i.toNat + fuel) (hstarted : i.toNat = 0 ∨
      va.toNat < 2 ^ 46 ∧ offset.toNat + i.toNat ≤ (fileContent vars inode).length) :
    ((∀ page, Reached (fileContent vars inode).length (offset.toNat + i.toNat)
          (va.toNat + i.toNat) (sz.toNat - i.toNat) page → (m page).isSome) ∧
        ∃ r mem', loadSegmentFrom t vars inode va offset sz fuel i mem = .ok (r, mem') ∧
          (0 ≤ r ↔ offset.toNat + sz.toNat ≤ (fileContent vars inode).length)) ∨
      ((∃ page, Reached (fileContent vars inode).length (offset.toNat + i.toNat)
          (va.toNat + i.toNat) (sz.toNat - i.toNat) page ∧ m page = none) ∧
        loadSegmentFrom t vars inode va offset sz fuel i mem
          = .error "load_segment: address should exist") := by
  induction fuel generalizing i mem with
  | zero => omega
  | succ fuel ih =>
    have hsz := sz.toNat_lt
    have hoffset := offset.toNat_lt
    have hlen := fileContent_length_lt vars inode
    have hcur : (va + i.toUInt64).toNat = va.toNat + i.toNat := by
      have hlt := va.toNat_lt
      rw [UInt64.toNat_add, UInt32.toNat_toUInt64]
      omega
    have hpos : (offset + i).toNat = offset.toNat + i.toNat := by
      rw [UInt32.toNat_add]
      omega
    have hlo : USERSPACE_VA_MIN ≤ va + i.toUInt64 := by
      rw [UInt64.le_iff_toNat_le] at hmin ⊢
      omega
    have hreached : Reached (fileContent vars inode).length (offset.toNat + i.toNat)
        (va.toNat + i.toNat) (sz.toNat - i.toNat) ((va.toNat + i.toNat) / 4096) := by
      refine ⟨Nat.le_refl _, by omega, fun hlt => ?_⟩
      omega
    unfold loadSegmentFrom
    rw [if_pos (UInt32.lt_iff_toNat_lt.mpr hi)]
    dsimp only
    rcases walkAddr_outcome h hlo with ⟨hpage, pa, hwalk, hne⟩ | ⟨hpage, hwalk⟩
    · rw [hcur] at hpage
      rw [hwalk]
      dsimp only
      rw [if_neg hne]
      generalize hn : (if (sz - i).toUInt64 < PAGE_SIZE.toUInt64 - pageOffset (va + i.toUInt64) then
        (sz - i).toUInt64 else PAGE_SIZE.toUInt64 - pageOffset (va + i.toUInt64)) = n
      have hcount : n.toNat = min (4096 - (va.toNat + i.toNat) % 4096) (sz.toNat - i.toNat) := by
        rw [← hn, toNat_piece (UInt32.lt_iff_toNat_lt.mpr hi), hcur]
      have hmod : (va.toNat + i.toNat) % 4096 < 4096 := Nat.mod_lt _ (by decide)
      have hread := fsRead_full_iff hfile (offset + i).toNat (show 0 < n.toNat by omega)
        (by omega)
      rw [hpos] at hread
      rw [hpos]
      by_cases hfull : (fsRead vars inode n.toNat (offset.toNat + i.toNat)).1 = n.toNat
      · have hbytes := hread.mp hfull
        rw [if_neg (not_not.mpr hfull)]
        have hnext : (i + n.toUInt32).toNat = i.toNat + n.toNat := by
          rw [UInt32.toNat_add, UInt64.toNat_toUInt32]
          omega
        by_cases hmore : i.toNat + n.toNat < sz.toNat
        · have hmax : (va + i.toUInt64).toNat < 2 ^ 46 := by
            rw [← hcur] at hpage
            obtain ⟨-, hmax, -⟩ := walkable_iff.mp ((h.walkable _).mpr hpage)
            rwa [UInt64.lt_iff_toNat_lt, toNat_USERSPACE_VA_MAX] at hmax
          have hrest := ih (i + n.toUInt32)
            (mem.blit (pa + pageOffset (va + i.toUInt64)).toNat
              (fsRead vars inode n.toNat (offset.toNat + i.toNat)).2)
            (by omega) (by omega) (Or.inr ⟨by omega, by omega⟩)
          rw [hnext] at hrest
          simp only [reached_next hcount hi hmore hbytes]
          rcases hrest with ⟨hpages, hrun⟩ | ⟨⟨page, hin, hnone⟩, hrun⟩
          · refine Or.inl ⟨?_, hrun⟩
            rintro page (rfl | hin)
            · exact hpage
            · exact hpages page hin
          · exact Or.inr ⟨⟨page, Or.inr hin, hnone⟩, hrun⟩
        · -- The segment ends on this page.
          have hdone : ¬ i + n.toUInt32 < sz := by
            rw [UInt32.lt_iff_toNat_lt]
            omega
          rw [loadSegmentFrom_done fuel hdone]
          refine Or.inl ⟨?_, _, _, rfl, iff_of_true (Int.le_refl 0) (by omega)⟩
          rintro page ⟨h1, h2, -⟩
          obtain rfl : page = (va.toNat + i.toNat) / 4096 := by omega
          exact hpage
      · rw [if_pos hfull]
        -- The file ends on this page.
        have hbytes : ¬ offset.toNat + i.toNat + n.toNat ≤ (fileContent vars inode).length :=
          fun hle => hfull (hread.mpr hle)
        refine Or.inl ⟨?_, _, _, rfl, iff_of_false (by decide) (by omega)⟩
        rintro page ⟨h1, h2, h3⟩
        obtain rfl : page = (va.toNat + i.toNat) / 4096 := by omega
        exact hpage
    · rw [hwalk]
      dsimp only
      rw [if_pos rfl]
      rw [hcur] at hpage
      exact Or.inr ⟨⟨_, hreached, hpage⟩, rfl⟩

/-- `load_segment` of at least one byte. -/
theorem loadSegment_outcome (offset : UInt32) (mem : Bytes) (hfile : IsFile vars inode)
    (h : ProcessPages t m) (hmin : USERSPACE_VA_MIN ≤ va) (hsz : 0 < sz.toNat) :
    ((∀ page, Reached (fileContent vars inode).length offset.toNat va.toNat sz.toNat page →
          (m page).isSome) ∧
        ∃ r mem', loadSegment t mem vars inode va offset sz = .ok (r, mem') ∧
          (0 ≤ r ↔ offset.toNat + sz.toNat ≤ (fileContent vars inode).length)) ∨
      ((∃ page, Reached (fileContent vars inode).length offset.toNat va.toNat sz.toNat page ∧
          m page = none) ∧
        loadSegment t mem vars inode va offset sz =
          .error "load_segment: address should exist") := by
  have hloop := loadSegmentFrom_outcome offset 0 sz.toNat mem hfile h hmin hsz
    (Nat.le_add_left _ _) (Or.inl rfl)
  unfold loadSegment
  simpa only [UInt32.toNat_zero, Nat.add_zero, Nat.sub_zero] using hloop

/-! ### `vmm_memcpy` -/

/-- The page of an address that is cut to 32 bits. -/
def lowPage (x : Nat) : Nat := x % 2 ^ 32 / 4096

/-- `vmm_memcpy` stores behind the direct map: the address is from 4 GiB on, and the page of its low
32 bits, which is the one that is looked up, may be written. -/
def Wild (m : PageMap) (x : Nat) : Prop := 2 ^ 32 ≤ x ∧ m (lowPage x) = some true

instance (m : PageMap) (x : Nat) : Decidable (Wild m x) := inferInstanceAs (Decidable (_ ∧ _))

/-- The pages that `vmm_memcpy` looks up for `len` bytes, at most a page of them, may be written.
From 4 GiB on it looks up the first one only. -/
def CopyPages (m : PageMap) (x len : Nat) : Prop :=
  m (lowPage x) = some true ∧ (x < 2 ^ 32 → m (lowPage (x + len - 1)) = some true)

instance (m : PageMap) (x len : Nat) : Decidable (CopyPages m x len) :=
  inferInstanceAs (Decidable (_ ∧ (_ → _)))

/-- The page at 0 is below the user half. -/
theorem page_zero_not_writable (h : ProcessPages t m) : m 0 ≠ some true := by
  intro hsome
  obtain ⟨hmin, -⟩ := (h.entry 0 true).mp hsome
  exact absurd hmin (by decide)

/-- The address behind a page below 4 GiB is not wild. -/
theorem not_wild_of_le (h : ProcessPages t m) (hle : x ≤ 2 ^ 32) : ¬ Wild m x := by
  rintro ⟨hge, hpage⟩
  obtain rfl : x = 2 ^ 32 := by omega
  exact page_zero_not_writable h hpage

/-- Nor is the address behind some bytes that `vmm_memcpy` has copied below 4 GiB. -/
theorem CopyPages.not_wild (h : ProcessPages t m) (hcopy : CopyPages m x len) (hlow : x < 2 ^ 32)
    (hpos : 0 < len) (hlen : len ≤ 4096) : ¬ Wild m (x + len) := by
  refine not_wild_of_le h ?_
  by_contra hgt
  -- Otherwise the last byte is on the page at 4 GiB, which is cut to the page at 0.
  have hzero : lowPage (x + len - 1) = 0 := by
    unfold lowPage
    omega
  have hlast := hcopy.2 hlow
  rw [hzero] at hlast
  exact page_zero_not_writable h hlast

/-- The offset that `vmm_memcpy` adds to the frame. -/
theorem toNat_sub_PAGE_ROUND_DOWN (destination : UInt64) :
    (destination - PAGE_ROUND_DOWN destination).toNat
      = destination.toNat - destination.toNat % 2 ^ 32 / 4096 * 4096 := by
  have hdest := destination.toNat_lt
  rw [UInt64.toNat_sub, toNat_PAGE_ROUND_DOWN]
  omega

/-- One turn of the loop of `vmm_memcpy`: a piece below 4 GiB is copied, or the store is wild, or
the page may not be written. -/
theorem memcpyFrom_turn (h : ProcessPages t m) (hne : source ≠ []) (fuel : Nat) (mem : Bytes) :
    (m (lowPage destination.toNat) = some true ∧ destination.toNat < 2 ^ 32 ∧ ∃ mem',
      memcpyFrom memoryEnd t true (fuel + 1) destination source mem
        = memcpyFrom memoryEnd t true fuel (PAGE_ROUND_DOWN destination + PAGE_SIZE.toUInt64)
          (source.drop (min (PAGE_SIZE.toUInt64
            - (destination - PAGE_ROUND_DOWN destination)).toNat source.length)) mem') ∨
      (Wild m destination.toNat ∧
        memcpyFrom memoryEnd t true (fuel + 1) destination source mem
          = .error "vmm_memcpy: page fault") ∨
      (m (lowPage destination.toNat) ≠ some true ∧
        memcpyFrom memoryEnd t true (fuel + 1) destination source mem = .ok (-1, mem)) := by
  have hpage : (PAGE_ROUND_DOWN destination).toNat / 4096 = lowPage destination.toNat := by
    rw [toNat_PAGE_ROUND_DOWN, Nat.mul_div_cancel _ (by decide), lowPage]
  have hentry := h.entry (PAGE_ROUND_DOWN destination) true
  rw [hpage] at hentry
  rw [memcpyFrom, if_neg hne]
  dsimp only
  by_cases hout : (decide (PAGE_ROUND_DOWN destination ≥ USERSPACE_VA_MAX) ||
      decide (PAGE_ROUND_DOWN destination < USERSPACE_VA_MIN)) = true
  · rw [if_pos hout]
    refine Or.inr (Or.inr ⟨fun hsome => ?_, rfl⟩)
    obtain ⟨hmin, hmax, -⟩ := hentry.mp hsome
    simp [UInt64.not_le.mpr hmax, UInt64.not_lt.mpr hmin] at hout
  rw [if_neg hout]
  rw [Bool.not_eq_true, Bool.or_eq_false_iff, decide_eq_false_iff_not, decide_eq_false_iff_not]
    at hout
  obtain ⟨hmax, hmin⟩ := hout
  have hwalk : walkUserNoAlloc t (PAGE_ROUND_DOWN destination) false
      = .ok (readLeaf t (PAGE_ROUND_DOWN destination)) := by
    unfold walkUserNoAlloc
    rw [if_neg (by simp [hmax, hmin])]
  rw [hwalk]
  cases hleaf : readLeaf t (PAGE_ROUND_DOWN destination) with
  | none =>
    refine Or.inr (Or.inr ⟨fun hsome => ?_, rfl⟩)
    obtain ⟨-, -, pte, hpte, -⟩ := hentry.mp hsome
    rw [(pageEntry_eq_some.mp hpte).1] at hleaf
    cases hleaf
  | some pte =>
    dsimp only
    by_cases hcheck : (!pteIsPresent pte || pteIsUser pte != true || !pteIsWritable pte) = true
    · rw [if_pos hcheck]
      refine Or.inr (Or.inr ⟨fun hsome => ?_, rfl⟩)
      obtain ⟨-, -, pte', hpte, huser, hwritable⟩ := hentry.mp hsome
      obtain ⟨hleaf', hpresent⟩ := pageEntry_eq_some.mp hpte
      rw [hleaf] at hleaf'
      cases hleaf'
      simp [hpresent, huser, hwritable] at hcheck
    · rw [if_neg hcheck]
      rw [Bool.not_eq_true] at hcheck
      simp only [Bool.or_eq_false_iff, Bool.not_eq_false', bne_eq_false_iff_eq] at hcheck
      obtain ⟨⟨hpresent, huser⟩, hwritable⟩ := hcheck
      have hwrite : m (lowPage destination.toNat) = some true :=
        hentry.mpr ⟨UInt64.not_lt.mp hmin, UInt64.not_le.mp hmax, pte,
          pageEntry_eq_some.mpr ⟨hleaf, hpresent⟩, huser, hwritable⟩
      have hsource : 0 < source.length := List.length_pos_iff.mpr hne
      have hoff := toNat_sub_PAGE_ROUND_DOWN destination
      have hdest := destination.toNat_lt
      by_cases hlow : destination.toNat < 2 ^ 32
      · rw [if_neg]
        · exact Or.inl ⟨hwrite, hlow, _, rfl⟩
        · rintro ⟨hge, -⟩
          rw [ge_iff_le, UInt64.le_iff_toNat_le, toNat_PAGE_SIZE_toUInt64, hoff] at hge
          omega
      · -- The offset is at least 4 GiB, and so is the room that is left for the piece.
        have hroom := UInt64.toNat_sub PAGE_SIZE.toUInt64
          (destination - PAGE_ROUND_DOWN destination)
        rw [hoff, toNat_PAGE_SIZE_toUInt64] at hroom
        rw [if_pos]
        · exact Or.inr (Or.inl ⟨⟨by omega, hwrite⟩, rfl⟩)
        · rw [ge_iff_le, UInt64.le_iff_toNat_le, toNat_PAGE_SIZE_toUInt64, hoff, memoryEnd]
          omega

/-- `vmm_memcpy` of any number of bytes to the user faults exactly if the first store is wild:
behind a page below 4 GiB there is no wild address. -/
theorem memcpyFrom_faults_iff (h : ProcessPages t m) (hne : source ≠ []) (fuel : Nat)
    (mem : Bytes) :
    (¬ Wild m destination.toNat ∧
        ∃ r, memcpyFrom memoryEnd t true (fuel + 1) destination source mem = .ok r) ∨
      (Wild m destination.toNat ∧
        memcpyFrom memoryEnd t true (fuel + 1) destination source mem
          = .error "vmm_memcpy: page fault") := by
  induction fuel generalizing destination source mem with
  | zero =>
    rcases memcpyFrom_turn h hne 0 mem with ⟨-, hlow, mem', hrun⟩ | hwild | ⟨hpage, hrun⟩
    · exact Or.inl ⟨not_wild_of_le h (Nat.le_of_lt hlow), _, hrun⟩
    · exact Or.inr hwild
    · exact Or.inl ⟨fun hwild => hpage hwild.2, _, hrun⟩
  | succ fuel ih =>
    rcases memcpyFrom_turn h hne (fuel + 1) mem with
      ⟨-, hlow, mem', hrun⟩ | hwild | ⟨hpage, hrun⟩
    · refine Or.inl ⟨not_wild_of_le h (Nat.le_of_lt hlow), ?_⟩
      rw [hrun]
      by_cases hrest : source.drop (min (PAGE_SIZE.toUInt64
          - (destination - PAGE_ROUND_DOWN destination)).toNat source.length) = []
      · rw [hrest, memcpyFrom_nil]
        exact ⟨_, rfl⟩
      · rcases ih hrest mem' with ⟨-, hok⟩ | ⟨hwild, -⟩
        · exact hok
        · refine absurd hwild (not_wild_of_le h ?_)
          rw [UInt64.toNat_add, toNat_PAGE_ROUND_DOWN, toNat_PAGE_SIZE_toUInt64]
          omega
    · exact Or.inr hwild
    · exact Or.inl ⟨fun hwild => hpage hwild.2, _, hrun⟩

/-- `vmm_memcpy` of at least one byte to the user. -/
theorem vmmMemcpy_faults_iff (h : ProcessPages t m) (mem : Bytes) (destination : UInt64)
    (hne : source ≠ []) :
    (¬ Wild m destination.toNat ∧
        ∃ r, vmmMemcpy memoryEnd t mem destination source true = .ok r) ∨
      (Wild m destination.toNat ∧
        vmmMemcpy memoryEnd t mem destination source true
          = .error "vmm_memcpy: page fault") := by
  obtain ⟨fuel, hfuel⟩ : ∃ fuel, source.length = fuel + 1 :=
    Nat.exists_eq_succ_of_ne_zero (Nat.ne_of_gt (List.length_pos_iff.mpr hne))
  unfold vmmMemcpy
  rw [hfuel]
  exact memcpyFrom_faults_iff h hne fuel mem

/-- `vmm_memcpy` of at most a page to the user. -/
theorem vmmMemcpy_outcome (h : ProcessPages t m) (mem : Bytes) (destination : UInt64)
    (source : List UInt8) (hpos : 0 < source.length) (hlen : source.length ≤ 4096) :
    (¬ Wild m destination.toNat ∧
        ∃ r mem', vmmMemcpy memoryEnd t mem destination source true = .ok (r, mem') ∧
          (0 ≤ r ↔ CopyPages m destination.toNat source.length)) ∨
      (Wild m destination.toNat ∧
        vmmMemcpy memoryEnd t mem destination source true
          = .error "vmm_memcpy: page fault") := by
  have hne : source ≠ [] := List.length_pos_iff.mp hpos
  obtain ⟨fuel, hfuel⟩ : ∃ fuel, source.length = fuel + 1 := ⟨source.length - 1, by omega⟩
  have hbase := toNat_PAGE_ROUND_DOWN destination
  have hdest := destination.toNat_lt
  have hoff := toNat_sub_PAGE_ROUND_DOWN destination
  have hroom := UInt64.toNat_sub PAGE_SIZE.toUInt64 (destination - PAGE_ROUND_DOWN destination)
  rw [hoff, toNat_PAGE_SIZE_toUInt64] at hroom
  unfold vmmMemcpy
  rw [hfuel]
  rcases memcpyFrom_turn h hne fuel mem with
    ⟨hfirst, hlow, mem₁, hrun⟩ | hwild | ⟨hfirst, hrun⟩
  · rw [hrun]
    refine Or.inl ⟨not_wild_of_le h (Nat.le_of_lt hlow), ?_⟩
    generalize hn : min (PAGE_SIZE.toUInt64 - (destination - PAGE_ROUND_DOWN destination)).toNat
      source.length = n
    by_cases hall : n = source.length
    · -- One page is enough.
      rw [hall, List.drop_length, memcpyFrom_nil]
      refine ⟨_, _, rfl, iff_of_true (Int.le_refl 0) ⟨hfirst, fun _ => ?_⟩⟩
      have hsame : lowPage (destination.toNat + (fuel + 1) - 1) = lowPage destination.toNat := by
        unfold lowPage
        omega
      rw [hsame]
      exact hfirst
    · -- The source goes to two pages.
      have hrest : source.drop n ≠ [] := by
        rw [Ne, List.drop_eq_nil_iff]
        omega
      have hnext : (PAGE_ROUND_DOWN destination + PAGE_SIZE.toUInt64).toNat
          = destination.toNat + n := by
        rw [UInt64.toNat_add, hbase, toNat_PAGE_SIZE_toUInt64]
        omega
      have hpage : lowPage (destination.toNat + (fuel + 1) - 1)
          = lowPage (PAGE_ROUND_DOWN destination + PAGE_SIZE.toUInt64).toNat := by
        rw [hnext]
        unfold lowPage
        omega
      obtain ⟨fuel', rfl⟩ : ∃ fuel', fuel = fuel' + 1 := ⟨fuel - 1, by omega⟩
      have htame : ¬ Wild m (PAGE_ROUND_DOWN destination + PAGE_SIZE.toUInt64).toNat := by
        refine not_wild_of_le h ?_
        rw [UInt64.toNat_add, hbase, toNat_PAGE_SIZE_toUInt64]
        omega
      rcases memcpyFrom_turn h hrest fuel' mem₁ with
        ⟨hsecond, -, mem₂, hrun₂⟩ | ⟨hwild, -⟩ | ⟨hsecond, hrun₂⟩
      · rw [hrun₂]
        have hend : min (PAGE_SIZE.toUInt64 - (PAGE_ROUND_DOWN destination + PAGE_SIZE.toUInt64
            - PAGE_ROUND_DOWN (PAGE_ROUND_DOWN destination + PAGE_SIZE.toUInt64))).toNat
              (source.drop n).length = (source.drop n).length := by
          rw [UInt64.toNat_sub, UInt64.toNat_sub, toNat_PAGE_ROUND_DOWN, hnext,
            toNat_PAGE_SIZE_toUInt64, List.length_drop]
          omega
        rw [hend, List.drop_length, memcpyFrom_nil]
        refine ⟨_, _, rfl, iff_of_true (Int.le_refl 0) ⟨hfirst, fun _ => ?_⟩⟩
        rw [hpage]
        exact hsecond
      · exact absurd hwild htame
      · rw [hrun₂]
        refine ⟨_, _, rfl, iff_of_false (by decide) fun hpages => hsecond ?_⟩
        rw [← hpage]
        exact hpages.2 hlow
  · exact Or.inr hwild
  · rw [hrun]
    exact Or.inl ⟨fun hwild => hfirst hwild.2, _, _, rfl,
      iff_of_false (by decide) fun hpages => hfirst hpages.1⟩

/-! ### `vmm_zero` -/

/-- The pages that `vmm_zero` looks up between two addresses may be written. -/
def ZeroPages (m : PageMap) (first last : Nat) : Prop :=
  ∀ j < (last - first + 4095) / 4096,
    CopyPages m (first + 4096 * j) (min 4096 (last - (first + 4096 * j)))

instance (m : PageMap) (first last : Nat) : Decidable (ZeroPages m first last) :=
  inferInstanceAs (Decidable (∀ j < _, _))

/-- The first piece, and the others. -/
theorem zeroPages_step {first last : Nat} (h : first < last) :
    ZeroPages m first last ↔ CopyPages m first (min 4096 (last - first)) ∧
      ZeroPages m (first + min 4096 (last - first)) last := by
  constructor
  · intro hall
    have hone := hall 0 (by omega)
    rw [Nat.mul_zero, Nat.add_zero] at hone
    refine ⟨hone, fun j hj => ?_⟩
    have hnext := hall (j + 1) (by omega)
    have hplace : first + 4096 * (j + 1) = first + min 4096 (last - first) + 4096 * j := by omega
    rw [hplace] at hnext
    exact hnext
  · rintro ⟨hone, hrest⟩ j hj
    cases j with
    | zero =>
      rw [Nat.mul_zero, Nat.add_zero]
      exact hone
    | succ j =>
      have hplace : first + 4096 * (j + 1) = first + min 4096 (last - first) + 4096 * j := by omega
      rw [hplace]
      exact hrest j (by omega)

/-- The loop of `vmm_zero`. Only its first address can be wild: a piece that is copied ends at 4 GiB
or below. -/
theorem zeroFrom_outcome (h : ProcessPages t m) {last : UInt64} (vaddr : UInt64) {fuel : Nat}
    (mem : Bytes) (hfuel : last.toNat ≤ vaddr.toNat + fuel * 4096) :
    ((vaddr.toNat < last.toNat → ¬ Wild m vaddr.toNat) ∧
        ∃ r mem', zeroFrom memoryEnd t last fuel vaddr mem = .ok (r, mem') ∧
          (0 ≤ r ↔ ZeroPages m vaddr.toNat last.toNat)) ∨
      ((vaddr.toNat < last.toNat ∧ Wild m vaddr.toNat) ∧
        zeroFrom memoryEnd t last fuel vaddr mem = .error "vmm_memcpy: page fault") := by
  induction fuel generalizing vaddr mem with
  | zero =>
    refine Or.inl ⟨fun hlt => by omega, _, _, rfl, iff_of_true (Int.le_refl 0) fun j hj => ?_⟩
    omega
  | succ fuel ih =>
    unfold zeroFrom
    by_cases hmore : vaddr < last
    · rw [if_pos hmore]
      rw [UInt64.lt_iff_toNat_lt] at hmore
      dsimp only
      have hlast := last.toNat_lt
      have hcount := toNat_toWrite hmore.le
      generalize (if last - vaddr > PAGE_SIZE.toUInt64 then PAGE_SIZE.toUInt64
        else last - vaddr) = toWrite at hcount ⊢
      have hlen : (List.replicate toWrite.toNat (0 : UInt8)).length = toWrite.toNat :=
        List.length_replicate
      rcases vmmMemcpy_outcome h mem vaddr (List.replicate toWrite.toNat 0) (by omega) (by omega)
        with ⟨htame, r, mem₁, hcopy, hr⟩ | ⟨hwild, hcopy⟩
      · rw [hlen, hcount] at hr
        rw [hcopy, zeroPages_step hmore]
        refine Or.inl ⟨fun _ => htame, ?_⟩
        dsimp only
        by_cases hfail : r < 0
        · rw [if_pos hfail]
          refine ⟨_, _, rfl, iff_of_false (by decide) fun hpages => ?_⟩
          exact absurd (hr.mpr hpages.1) (by omega)
        · have hadd : (vaddr + toWrite).toNat =
              vaddr.toNat + min 4096 (last.toNat - vaddr.toNat) := by
            rw [UInt64.toNat_add]
            omega
          have hcopied := hr.mp (by omega)
          have hlow : vaddr.toNat < 2 ^ 32 := by
            by_contra hge
            exact htame ⟨Nat.not_lt.mp hge, hcopied.1⟩
          have hnext := hcopied.not_wild h hlow (by omega) (by omega)
          rw [if_neg hfail]
          rcases ih (vaddr + toWrite) mem₁ (by omega) with ⟨-, hrest⟩ | ⟨⟨-, hwild⟩, -⟩
          · rw [hadd] at hrest
            simpa only [hcopied, true_and] using hrest
          · rw [hadd] at hwild
            exact absurd hwild hnext
      · rw [hcopy]
        exact Or.inr ⟨⟨hmore, hwild⟩, rfl⟩
    · rw [if_neg hmore]
      rw [UInt64.lt_iff_toNat_lt] at hmore
      refine Or.inl ⟨fun hlt => absurd hlt hmore, _, _, rfl,
        iff_of_true (Int.le_refl 0) fun j hj => ?_⟩
      omega

/-- `vmm_zero`. -/
theorem vmmZero_outcome (h : ProcessPages t m) (mem : Bytes) (vaddr len : UInt64) :
    ((vaddr.toNat < (vaddr + len).toNat → ¬ Wild m vaddr.toNat) ∧
        ∃ r mem', vmmZero memoryEnd t mem vaddr len = .ok (r, mem') ∧
          (0 ≤ r ↔ ZeroPages m vaddr.toNat (vaddr + len).toNat)) ∨
      ((vaddr.toNat < (vaddr + len).toNat ∧ Wild m vaddr.toNat) ∧
        vmmZero memoryEnd t mem vaddr len = .error "vmm_memcpy: page fault") := by
  refine zeroFrom_outcome h vaddr mem ?_
  have hle := Nat.mod_le (vaddr.toNat + len.toNat) (2 ^ 64)
  rw [UInt64.toNat_add]
  omega

end DzOS.Proofs.Userspace
