import DzOS.Proofs.Fs.Read
import DzOS.Proofs.Mem.UserCopy
import DzOS.Proofs.Userspace.StartState

/-!
# `DzOS.Proofs.Userspace.Segments`: what the loop over the program headers loads

`proc_exec` cuts the start and the size of a segment to 32 bits, `load_segment` takes the place in
the file as 32 bits, and `vmm_zero` works below 4 GiB only. `InReach` is the condition on a header
under which nothing is cut. `fillSegment_copied` says that a segment in reach gets the bytes of the
file, with zeros behind them.

`Loaded` is the invariant of the loop. It has the segments that are there already, as seen through
the table, and it survives the loading of another one (`Loaded.loadProgram`), since that has pages
and frames of its own. `Loaded.loadPrograms` is the law for the whole loop.
-/

set_option autoImplicit false

namespace DzOS.Proofs.Userspace

open DzOS.Lib DzOS.Lib.PagedView DzOS.Mem DzOS.Fs DzOS.Userspace DzOS.Proofs.Mem
open DzOS.Proofs.Fs (byteAt readCount readCount_le dzfsRead_eq)

variable {i sz offset : UInt32} {l l' : Loading} {file : List UInt8} {fuel : Nat} {r : Int}
  {space : UserSpace} {va bias : UInt64} {ph : ProgramHeader} {done : Set ProgramHeader}
  {s : ExecState} {c : ExecCall} {o : ExecOutcome} {t : PageTree 3} {S : Set Nat} {vars : FsVars}
  {inode : InodePtr} {mem mem' : Bytes}

/-! ### The file -/

/-- The bytes of an open file. -/
def fileContent (vars : FsVars) (inode : InodePtr) : List UInt8 :=
  (List.range (fileSize (vars.fs.disk (vars.inodes inode).dnode))).map
    (byteAt vars.fs (vars.inodes inode).dnode)

/-- A read that returns as many bytes as were asked for. -/
theorem fsRead_full {len off : Nat} (hlen : 0 < len)
    (h : (fsRead vars inode len off).1 = len) :
    off + len ≤ (fileContent vars inode).length ∧ (fsRead vars inode len off).2.length = len ∧
      ∀ i < len, (fsRead vars inode len off).2[i]? = (fileContent vars inode)[off + i]? := by
  by_cases hfile : entityType (vars.fs.disk (vars.inodes inode).dnode) = DZFS_ENTITY_FILE
  · have hread : fsRead vars inode len off
        = (Int.ofNat (readCount (fileSize (vars.fs.disk (vars.inodes inode).dnode)) len off),
          (List.range (readCount (fileSize (vars.fs.disk (vars.inodes inode).dnode)) len off)).map
            fun i => byteAt vars.fs (vars.inodes inode).dnode (off + i)) := by
      unfold fsRead
      rw [dzfsRead_eq hfile]
      exact if_neg (Int.not_lt.mpr (Int.natCast_nonneg _))
    rw [hread] at h ⊢
    have hcount : readCount (fileSize (vars.fs.disk (vars.inodes inode).dnode)) len off = len :=
      Int.ofNat.inj h
    have hbound := readCount_le _ _ _ (hcount.symm ▸ hlen)
    rw [hcount] at hbound ⊢
    unfold fileContent
    refine ⟨by simpa using hbound, by simp, fun i hi => ?_⟩
    simp [hi, show off + i < fileSize (vars.fs.disk (vars.inodes inode).dnode) by omega]
  · -- Other entities cannot be read.
    have hread : (fsRead vars inode len off).1 = -1 := by
      unfold fsRead dzfsRead
      rw [if_pos hfile]
      rfl
    rw [hread] at h
    omega

/-! ### `load_segment` -/

/-- The size of a piece of `load_segment`, as a number. -/
theorem toNat_piece {current : UInt64} (hi : i < sz) :
    (if (sz - i).toUInt64 < PAGE_SIZE.toUInt64 - pageOffset current then (sz - i).toUInt64
      else PAGE_SIZE.toUInt64 - pageOffset current).toNat
        = min (4096 - current.toNat % 4096) (sz.toNat - i.toNat) := by
  have hoff := toNat_pageOffset current
  have hpage : (PAGE_SIZE.toUInt64 - pageOffset current).toNat = 4096 - current.toNat % 4096 := by
    rw [UInt64.toNat_sub, hoff, toNat_PAGE_SIZE_toUInt64]
    omega
  have hleft : (sz - i).toUInt64.toNat = sz.toNat - i.toNat := by
    rw [UInt32.toNat_toUInt64, UInt32.toNat_sub_of_le _ _ (UInt32.le_of_lt hi)]
  split
  · rename_i hsmall
    rw [UInt64.lt_iff_toNat_lt, hleft, hpage] at hsmall
    omega
  · rename_i hbig
    rw [UInt64.lt_iff_toNat_lt, hleft, hpage] at hbig
    omega

/-- One turn of the loop of `load_segment` that does not fail: a piece of the file goes to the
frame of the page. -/
theorem loadSegmentFrom_step
    (h : loadSegmentFrom t vars inode va offset sz (fuel + 1) i mem = .ok (r, mem')) (hr : 0 ≤ r)
    (hmore : i < sz) :
    ∃ pa n : UInt64, walkAddr t (va + i.toUInt64) true = .ok pa ∧ pa ≠ 0 ∧
      n.toNat = min (4096 - (va + i.toUInt64).toNat % 4096) (sz.toNat - i.toNat) ∧
      (fsRead vars inode n.toNat (offset + i).toNat).1 = n.toNat ∧
      loadSegmentFrom t vars inode va offset sz fuel (i + n.toUInt32)
        (mem.blit (pa + pageOffset (va + i.toUInt64)).toNat
          (fsRead vars inode n.toNat (offset + i).toNat).2) = .ok (r, mem') := by
  unfold loadSegmentFrom at h
  rw [if_pos hmore] at h
  dsimp only at h
  split at h
  · cases h
  rename_i pa hwalk
  split at h
  · cases h
  rename_i hne
  generalize hn : (if (sz - i).toUInt64 < PAGE_SIZE.toUInt64 - pageOffset (va + i.toUInt64) then
    (sz - i).toUInt64 else PAGE_SIZE.toUInt64 - pageOffset (va + i.toUInt64)) = n at h
  split at h
  · cases h
    exact absurd hr (by decide)
  rename_i hfull
  rw [not_not] at hfull
  refine ⟨pa, n, hwalk, hne, ?_, hfull, h⟩
  rw [← hn]
  exact toNat_piece hmore

/-- The place of the last piece that `load_segment` reads, for `sz` bytes at `va`. -/
def lastPiece (va sz : Nat) : Nat := (va + sz - 1) / 4096 * 4096 - va

/-- The loop of `load_segment`, when it does not fail. A piece that is not the first one starts
with a page, so no piece comes after the last one. -/
theorem loadSegmentFrom_copied (hS : Apart 4096 (frameOf t) S) (hva : va.toNat < 2 ^ 32)
    (hoffset : offset.toNat + lastPiece va.toNat sz.toNat < 2 ^ 32)
    (hfuel : sz.toNat ≤ i.toNat + fuel) (hi : i.toNat ≤ sz.toNat)
    (hpiece : i.toNat = 0 ∨ i.toNat = sz.toNat ∨ (va.toNat + i.toNat) % 4096 = 0)
    (hpages : ∀ x, va.toNat ≤ x → x < va.toNat + sz.toNat → x / 4096 ∈ S)
    (h : loadSegmentFrom t vars inode va offset sz fuel i mem = .ok (r, mem')) (hr : 0 ≤ r) :
    Copied 4096 (frameOf t) S mem mem' (va.toNat + i.toNat) (va.toNat + sz.toNat)
        (fun x => (fileContent vars inode).getD (offset.toNat + (x - va.toNat)) 0) ∧
      (i.toNat < sz.toNat → offset.toNat + sz.toNat ≤ (fileContent vars inode).length) := by
  induction fuel generalizing i mem with
  | zero =>
    cases h
    have heq : i.toNat = sz.toNat := by omega
    rw [heq]
    exact ⟨copied_refl _ _ _, fun hlt => absurd hlt (Nat.lt_irrefl _)⟩
  | succ fuel ih =>
    by_cases hmore : i < sz
    · obtain ⟨pa, n, hwalk, hne, hn, hfull, hrest⟩ := loadSegmentFrom_step h hr hmore
      rw [UInt32.lt_iff_toNat_lt] at hmore
      have hsz := sz.toNat_lt
      have hcur : (va + i.toUInt64).toNat = va.toNat + i.toNat := by
        rw [UInt64.toNat_add, UInt32.toNat_toUInt64]
        omega
      have hpos : (offset + i).toNat = offset.toNat + i.toNat := by
        rw [UInt32.toNat_add]
        unfold lastPiece at hoffset
        omega
      rw [hcur] at hn
      have hmod : (va.toNat + i.toNat) % 4096 < 4096 := Nat.mod_lt _ (by decide)
      have hnext : (i + n.toUInt32).toNat = i.toNat + n.toNat := by
        rw [UInt32.toNat_add, UInt64.toNat_toUInt32]
        omega
      obtain ⟨hbound, hlen, hbytes⟩ := fsRead_full (show 0 < n.toNat by omega) hfull
      rw [hpos] at hbound hlen hbytes hrest
      have hoff : (pageOffset (va + i.toUInt64)).toNat = (va.toNat + i.toNat) % 4096 := by
        rw [toNat_pageOffset, hcur]
      have hframe : (pa + pageOffset (va + i.toUInt64)).toNat
          = frameOf t ((va.toNat + i.toNat) / 4096) + (va.toNat + i.toNat) % 4096 := by
        obtain ⟨hpa, hlt⟩ := walkAddr_frame hwalk hne
        rw [hcur] at hpa
        rw [UInt64.toNat_add, hoff, ← hpa]
        omega
      rw [hframe] at hrest
      have hread : ∀ j (hj : j < (fsRead vars inode n.toNat (offset.toNat + i.toNat)).2.length),
          (fsRead vars inode n.toNat (offset.toNat + i.toNat)).2[j]
            = (fileContent vars inode).getD
                (offset.toNat + (va.toNat + i.toNat + j - va.toNat)) 0 := by
        intro j hj
        have hbyte := hbytes j (by omega)
        rw [List.getElem?_eq_getElem hj] at hbyte
        have hindex : offset.toNat + (va.toNat + i.toNat + j - va.toNat)
            = offset.toNat + i.toNat + j := by omega
        rw [hindex, List.getD_eq_getElem?_getD, ← hbyte]
        rfl
      have hfits : (va.toNat + i.toNat) % 4096
          + (fsRead vars inode n.toNat (offset.toNat + i.toNat)).2.length ≤ 4096 := by
        rw [hlen]
        omega
      have hcopy := copied_blit mem (va.toNat + i.toNat)
        (fun x => (fileContent vars inode).getD (offset.toNat + (x - va.toNat)) 0) hS (by decide)
        (hpages _ (by omega) (by omega)) hfits hread
      obtain ⟨hothers, hmax⟩ := ih (by omega) (by omega) (by omega) hrest
      rw [hlen, Nat.add_assoc, ← hnext] at hcopy
      refine ⟨hcopy.trans hothers (by omega) (by omega), fun _ => ?_⟩
      by_cases hend : (i + n.toUInt32).toNat < sz.toNat
      · exact hmax hend
      · omega
    · unfold loadSegmentFrom at h
      rw [if_neg hmore] at h
      cases h
      rw [UInt32.lt_iff_toNat_lt] at hmore
      have heq : i.toNat = sz.toNat := by omega
      rw [heq]
      exact ⟨copied_refl _ _ _, fun hlt => absurd hlt (Nat.lt_irrefl _)⟩

/-! ### One segment -/

/-- The address of the first byte of a segment. -/
def segmentStart (bias : UInt64) (ph : ProgramHeader) : Nat := (ph.vaddr + bias).toNat

/-- The segment is in reach of the loader: its start, the size of its pages and the places of its
pieces in the file are not cut to 32 bits, and its zeros end below 4 GiB. -/
structure InReach (bias : UInt64) (ph : ProgramHeader) : Prop where
  start : segmentStart bias ph < 2 ^ 32
  size : segmentStart bias ph % 4096 + ph.memsz.toNat ≤ 2 ^ 32 - 4096
  inFile : ph.filesz ≠ 0 →
    ph.off.toNat + lastPiece (segmentStart bias ph) ph.filesz.toNat < 2 ^ 32
  zeros : ph.filesz < ph.memsz → segmentStart bias ph + ph.memsz.toNat ≤ 2 ^ 32

instance (bias : UInt64) (ph : ProgramHeader) : Decidable (InReach bias ph) :=
  decidable_of_iff (segmentStart bias ph < 2 ^ 32 ∧
      segmentStart bias ph % 4096 + ph.memsz.toNat ≤ 2 ^ 32 - 4096 ∧
      (ph.filesz ≠ 0 →
        ph.off.toNat + lastPiece (segmentStart bias ph) ph.filesz.toNat < 2 ^ 32) ∧
      (ph.filesz < ph.memsz → segmentStart bias ph + ph.memsz.toNat ≤ 2 ^ 32))
    ⟨fun ⟨h1, h2, h3, h4⟩ => ⟨h1, h2, h3, h4⟩, fun h => ⟨h.start, h.size, h.inFile, h.zeros⟩⟩

/-- The byte of a segment at the distance `k` from its start. -/
def segmentByte (file : List UInt8) (ph : ProgramHeader) (k : Nat) : UInt8 :=
  if k < ph.filesz.toNat then file.getD (ph.off.toNat + k) 0 else 0

/-- The contents of a segment in reach, when the source does not go to `bad`. -/
theorem fillSegment_copied (hS : Apart 4096 (frameOf t) S) (hreach : InReach bias ph)
    (hsize : ph.filesz.toNat ≤ ph.memsz.toNat)
    (hpages : ∀ x, segmentStart bias ph ≤ x → x < segmentStart bias ph + ph.memsz.toNat →
      x / 4096 ∈ S) (h : fillSegment t mem vars inode ph (ph.vaddr + bias) = .ok (true, mem')) :
    Copied 4096 (frameOf t) S mem mem' (segmentStart bias ph)
        (segmentStart bias ph + ph.memsz.toNat)
        (fun x => segmentByte (fileContent vars inode) ph (x - segmentStart bias ph)) ∧
      (0 < ph.filesz.toNat →
        ph.off.toNat + ph.filesz.toNat ≤ (fileContent vars inode).length) := by
  have hstart := hreach.start
  have hpagesSize := hreach.size
  unfold fillSegment at h
  generalize hload : (if ph.filesz > 0 then
      loadSegment t mem vars inode (ph.vaddr + bias) ph.off.toUInt32 ph.filesz.toUInt32
    else Except.ok (0, mem)) = loaded at h
  cases loaded with
  | error e => cases h
  | ok loaded =>
    obtain ⟨r, mem₁⟩ := loaded
    dsimp only at h
    split at h
    · cases h
    rename_i hr
    -- The part that comes from the file.
    have hfile : Copied 4096 (frameOf t) S mem mem₁ (segmentStart bias ph)
          (segmentStart bias ph + ph.filesz.toNat)
          (fun x => segmentByte (fileContent vars inode) ph (x - segmentStart bias ph)) ∧
        (0 < ph.filesz.toNat →
          ph.off.toNat + ph.filesz.toNat ≤ (fileContent vars inode).length) := by
      split at hload
      · rename_i hpos
        have hpos' : 0 < ph.filesz.toNat := UInt64.lt_iff_toNat_lt.mp hpos
        have hplace := hreach.inFile fun hzero => by
          rw [hzero] at hpos'
          exact Nat.lt_irrefl _ hpos'
        have hoff32 : ph.off.toUInt32.toNat = ph.off.toNat := by
          rw [UInt64.toNat_toUInt32]
          omega
        have hsz32 : ph.filesz.toUInt32.toNat = ph.filesz.toNat := by
          rw [UInt64.toNat_toUInt32]
          omega
        obtain ⟨hcopied, hlen⟩ := loadSegmentFrom_copied hS hstart
          (by rw [hoff32, hsz32]; exact hplace) (by simp) (Nat.zero_le _) (Or.inl rfl)
          (fun x h1 h2 => hpages x h1 (by
            rw [hsz32] at h2
            exact h2.trans_le (Nat.add_le_add_left hsize _))) hload (by omega)
        rw [hoff32, hsz32] at hcopied hlen
        refine ⟨?_, hlen⟩
        refine Copied.congr hcopied fun x h1 h2 => ?_
        have hk : x - segmentStart bias ph < ph.filesz.toNat := by
          change segmentStart bias ph + 0 ≤ x at h1
          change x < segmentStart bias ph + ph.filesz.toNat at h2
          omega
        rw [segmentByte, if_pos hk]
        rfl
      · rename_i hzero
        have hzero' : ph.filesz.toNat = 0 := by
          rw [gt_iff_lt, UInt64.lt_iff_toNat_lt] at hzero
          exact Nat.eq_zero_of_not_pos hzero
        cases hload
        rw [hzero']
        exact ⟨copied_refl _ _ _, fun hpos => absurd hpos (Nat.lt_irrefl 0)⟩
    refine ⟨?_, hfile.2⟩
    split at h
    · -- The zeros behind it.
      rename_i hmore
      have hend := hreach.zeros hmore
      split at h
      · cases h
      rename_i r₂ mem₂ hzero
      have hr₂ : 0 ≤ r₂ := by
        have hok := congrArg Prod.fst (Except.ok.inj h)
        exact of_decide_eq_true hok
      have hmem : mem₂ = mem' := congrArg Prod.snd (Except.ok.inj h)
      rw [hmem] at hzero
      have hzeroStart : (ph.vaddr + bias + ph.filesz).toNat
          = segmentStart bias ph + ph.filesz.toNat := by
        rw [UInt64.toNat_add, segmentStart]
        unfold segmentStart at hend
        omega
      have hle : ph.filesz ≤ ph.memsz := UInt64.le_iff_toNat_le.mpr hsize
      have hlen : (ph.memsz - ph.filesz).toNat = ph.memsz.toNat - ph.filesz.toNat :=
        UInt64.toNat_sub_of_le _ _ hle
      have hzeros := vmmZero_copied hS (by omega)
        (fun x h1 h2 => hpages x (by omega) (by omega)) hzero hr₂
      rw [hzeroStart, hlen, Nat.add_assoc, Nat.add_sub_cancel' hsize] at hzeros
      refine hfile.1.trans (Copied.congr hzeros fun x h1 h2 => ?_) (by omega) (by omega)
      rw [segmentByte, if_neg (by omega)]
    · rename_i hfull
      cases h
      rw [gt_iff_lt, UInt64.lt_iff_toNat_lt] at hfull
      have heq : ph.memsz.toNat = ph.filesz.toNat := by omega
      rw [heq]
      exact hfile.1

/-! ### All segments -/

/-- A segment is there: its pages are in `S` and have the permissions of the header, and they hold
its bytes. -/
structure SegmentIn (space : UserSpace) (S : Set Nat) (file : List UInt8) (bias : UInt64)
    (ph : ProgramHeader) : Prop where
  size : ph.filesz ≤ ph.memsz
  inFile : 0 < ph.filesz.toNat → ph.off.toNat + ph.filesz.toNat ≤ file.length
  page : ∀ x, segmentStart bias ph ≤ x → x < segmentStart bias ph + ph.memsz.toNat → x / 4096 ∈ S
  entry : ∀ x, segmentStart bias ph ≤ x → x < segmentStart bias ph + ph.memsz.toNat →
    ∃ f, FrameOk f ∧
      pageEntry space.pagetable (pageVa (x / 4096)) = some (buildPte f (flags2perm ph.flags))
  byte : ∀ x, segmentStart bias ph ≤ x → x < segmentStart bias ph + ph.memsz.toNat →
    view 4096 (frameOf space.pagetable) space.mem x
      = segmentByte file ph (x - segmentStart bias ph)

/-- A segment stays when other pages are mapped and filled. -/
theorem SegmentIn.newPages {space' : UserSpace} {first last : Nat} {perm : PtePermissions}
    (h : SegmentIn space S file bias ph) (hnew : NewPages space space' S first last perm)
    {lo hi : Nat} {content : Nat → UInt8} (hlo : first ≤ lo / 4096)
    (hhi : ∀ x, lo ≤ x → x < hi → x / 4096 < last)
    (hfill : Copied 4096 (frameOf space'.pagetable) (S ∪ Set.Ico first last) space'.mem mem' lo hi
      content) :
    SegmentIn { space' with mem := mem' } (S ∪ Set.Ico first last) file bias ph where
  size := h.size
  inFile := h.inFile
  page x h1 h2 := Or.inl (h.page x h1 h2)
  entry x h1 h2 := by
    obtain ⟨f, hf, hentry⟩ := h.entry x h1 h2
    exact ⟨f, hf, hnew.keeps _ _ hentry⟩
  byte x h1 h2 := by
    have hpage := h.page x h1 h2
    have hfresh := hnew.fresh _ hpage
    have hout : ¬ (lo ≤ x ∧ x < hi) := by
      rintro ⟨hx, hx'⟩
      have hle : lo / 4096 ≤ x / 4096 := Nat.div_le_div_right hx
      exact hfresh ⟨hlo.trans hle, hhi x hx hx'⟩
    show view 4096 (frameOf space'.pagetable) mem' x = _
    rw [hfill x (Or.inl hpage), if_neg hout, hnew.view x hpage]
    exact h.byte x h1 h2

/-- The invariant of the loop over the program headers, for the segments in `done`. -/
structure Loaded (file : List UInt8) (bias : UInt64) (done : Set ProgramHeader)
    (space : UserSpace) (S : Set Nat) : Prop where
  frames : Frames space S
  segment : ∀ ph ∈ done, SegmentIn space S file bias ph

/-- The steps of an accepted header. -/
theorem loadProgram_accepted (h : loadProgram vars inode bias ph l = .ok (true, l')) :
    ph.filesz ≤ ph.memsz ∧ USERSPACE_VA_MIN ≤ PAGE_ROUND_DOWN (ph.vaddr + bias) ∧
      ∃ r space, l.space.vmmAllocate (PAGE_ROUND_DOWN (ph.vaddr + bias))
          (PAGE_ROUND_UP (ph.vaddr + bias - PAGE_ROUND_DOWN (ph.vaddr + bias) + ph.memsz))
          (flags2perm ph.flags) false = .ok (r, space) ∧ r ≠ -1 ∧
        fillSegment space.pagetable space.mem vars inode ph (ph.vaddr + bias)
          = .ok (true, l'.space.mem) ∧
        l'.space = { space with mem := l'.space.mem } := by
  unfold loadProgram at h
  split at h
  · cases h
  rename_i hsize
  dsimp only at h
  split at h
  · cases h
  rename_i hrange
  simp only [Bool.or_eq_true, decide_eq_true_eq, not_or] at hrange
  split at h
  · cases h
  rename_i r space halloc
  split at h
  · cases h
  rename_i hr
  split at h
  · cases h
  rename_i ok mem hfill
  split at h
  · cases h
  rename_i hok
  cases h
  rw [Bool.not_eq_true, Bool.not_eq_false'] at hok
  rw [hok, add_sub_cancel] at hfill
  exact ⟨UInt64.not_lt.mp hsize, UInt64.not_lt.mp hrange.1, r, space, halloc, hr, hfill, rfl⟩

/-- One more segment. -/
theorem Loaded.loadProgram (h : Loaded (fileContent vars inode) bias done l.space S)
    (hreach : InReach bias ph) (hrun : loadProgram vars inode bias ph l = .ok (true, l')) :
    ∃ S', Loaded (fileContent vars inode) bias (insert ph done) l'.space S' := by
  obtain ⟨hsize, hmin, r, space, halloc, hr, hfill, hspace⟩ := loadProgram_accepted hrun
  have hsize' := UInt64.le_iff_toNat_le.mp hsize
  have hstart := hreach.start
  have hpagesSize := hreach.size
  rw [UInt64.le_iff_toNat_le, toNat_USERSPACE_VA_MIN] at hmin
  -- The start is below 4 GiB, so the two roundings of the source are exact.
  obtain ⟨hbase, hoff, -⟩ := pageRoundDown_low hstart
  rw [hbase] at hmin
  rw [← segmentStart] at hbase hoff hmin
  have hpages : (PAGE_ROUND_UP (ph.vaddr + bias - PAGE_ROUND_DOWN (ph.vaddr + bias)
      + ph.memsz)).toNat
        = (segmentStart bias ph % 4096 + ph.memsz.toNat + 4095) / 4096 * 4096 := by
    have hsum : (ph.vaddr + bias - PAGE_ROUND_DOWN (ph.vaddr + bias) + ph.memsz).toNat
        = segmentStart bias ph % 4096 + ph.memsz.toNat := by
      rw [UInt64.toNat_add, hoff]
      omega
    rw [toNat_PAGE_ROUND_UP _ (by omega), hsum]
    omega
  obtain ⟨base, hbaseEq⟩ : ∃ base, base = segmentStart bias ph / 4096 := ⟨_, rfl⟩
  obtain ⟨k, hk⟩ : ∃ k, k = (segmentStart bias ph % 4096 + ph.memsz.toNat + 4095) / 4096 := ⟨_, rfl⟩
  rw [← hbaseEq] at hbase
  rw [← hk] at hpages
  have hnew := vmmAllocate_new h.frames hbase hpages (by omega) halloc hr
  have hin : ∀ x, segmentStart bias ph ≤ x → x < segmentStart bias ph + ph.memsz.toNat →
      base ≤ x / 4096 ∧ x / 4096 < base + k := by
    intro x h1 h2
    omega
  have hinUnion : ∀ x, segmentStart bias ph ≤ x → x < segmentStart bias ph + ph.memsz.toNat →
      x / 4096 ∈ S ∪ Set.Ico base (base + k) := fun x h1 h2 => Or.inr (hin x h1 h2)
  obtain ⟨hcopied, hlen⟩ := fillSegment_copied hnew.frames.apart hreach hsize' hinUnion hfill
  refine ⟨S ∪ Set.Ico base (base + k), ?_⟩
  rw [hspace]
  constructor
  · exact hnew.frames.withMem _
  · rintro other (rfl | hother)
    · exact {
        size := hsize
        inFile := hlen
        page := hinUnion
        entry := fun x h1 h2 => hnew.entry _ (hin x h1 h2).1 (hin x h1 h2).2
        byte := fun x h1 h2 => by
          show view 4096 (frameOf space.pagetable) l'.space.mem x = _
          rw [hcopied x (hinUnion x h1 h2), if_pos ⟨h1, h2⟩] }
    · exact (h.segment other hother).newPages hnew (by omega) (fun x h1 h2 => (hin x h1 h2).2)
        hcopied

/-- The invariant for fewer segments. -/
theorem Loaded.mono {done' : Set ProgramHeader} (h : Loaded file bias done space S)
    (hsub : done' ⊆ done) : Loaded file bias done' space S :=
  ⟨h.frames, fun ph hph => h.segment ph (hsub hph)⟩

/-- The headers of the type `ELF_PROG_LOAD` among the `left` ones from `off` on. -/
def loadHeaders (vars : FsVars) (inode : InodePtr) (left : Nat) (off : UInt64) :
    List ProgramHeader :=
  (List.range left).filterMap fun i =>
    (readProgramHeader vars inode (off + UInt64.ofNat (i * PROGRAM_HEADER_SIZE))).filter
      (·.type = ELF_PROG_LOAD)

/-- The first header, and those behind it. -/
theorem loadHeaders_succ (left : Nat) (off : UInt64) :
    loadHeaders vars inode (left + 1) off
      = ((readProgramHeader vars inode off).filter (·.type = ELF_PROG_LOAD)).toList
        ++ loadHeaders vars inode left (off + UInt64.ofNat PROGRAM_HEADER_SIZE) := by
  have hnext : ∀ i, off + UInt64.ofNat ((i + 1) * PROGRAM_HEADER_SIZE)
      = off + UInt64.ofNat PROGRAM_HEADER_SIZE + UInt64.ofNat (i * PROGRAM_HEADER_SIZE) := by
    intro i
    rw [add_assoc, ← UInt64.ofNat_add, Nat.add_mul, Nat.one_mul, Nat.add_comm]
  have hfirst : off + UInt64.ofNat (0 * PROGRAM_HEADER_SIZE) = off := by
    rw [Nat.zero_mul]
    exact add_zero off
  unfold loadHeaders
  rw [List.range_succ_eq_map, List.filterMap_cons, hfirst, List.filterMap_map]
  simp only [Function.comp_def, Nat.succ_eq_add_one, hnext]
  cases (readProgramHeader vars inode off).filter (·.type = ELF_PROG_LOAD) <;> rfl

/-- The loop over the program headers, when the source does not go to `bad`. -/
theorem Loaded.loadPrograms {left : Nat} {off : UInt64}
    (h : Loaded (fileContent vars inode) bias done l.space S)
    (hreach : ∀ ph ∈ loadHeaders vars inode left off, InReach bias ph)
    (hrun : loadPrograms vars inode bias left off l = .ok (true, l')) :
    ∃ S', Loaded (fileContent vars inode) bias
      (done ∪ { ph | ph ∈ loadHeaders vars inode left off }) l'.space S' := by
  induction left generalizing off l done S with
  | zero =>
    cases hrun
    refine ⟨S, h.mono ?_⟩
    rintro ph (hph | hph)
    · exact hph
    · cases hph
  | succ left ih =>
    unfold Userspace.loadPrograms at hrun
    split at hrun
    · cases hrun
    rename_i ph hread
    dsimp only at hrun
    rw [loadHeaders_succ, hread] at hreach ⊢
    split at hrun
    · -- Another type: nothing is loaded.
      rename_i htype
      rw [Option.filter_some, if_neg (by simpa using htype)] at hreach ⊢
      exact ih h hreach hrun
    rename_i htype
    rw [not_not] at htype
    rw [Option.filter_some, if_pos (by simpa using htype)] at hreach ⊢
    split at hrun
    · cases hrun
    · cases hrun
    rename_i l₁ hone
    obtain ⟨S₁, hnext⟩ := h.loadProgram (hreach ph List.mem_cons_self) hone
    obtain ⟨S', hall⟩ := ih hnext (fun other hother => hreach other (List.mem_cons_of_mem _ hother))
      hrun
    refine ⟨S', hall.mono ?_⟩
    rintro other (hother | hother)
    · exact Or.inl (Or.inr hother)
    · rcases List.mem_cons.mp hother with rfl | hrest
      · exact Or.inl (Or.inl rfl)
      · exact Or.inr hrest

end DzOS.Proofs.Userspace
