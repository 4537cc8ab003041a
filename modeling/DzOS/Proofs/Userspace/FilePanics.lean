import DzOS.Proofs.Mem.KernelStack
import DzOS.Proofs.Mem.KmallocLarge
import DzOS.Proofs.Userspace.FailedExec
import DzOS.Proofs.Userspace.Image
import DzOS.Proofs.Userspace.LoaderSteps

/-!
# `DzOS.Proofs.Userspace.FilePanics`: which files stop the kernel

`proc_exec` checks some of the fields of a program header and rejects the file if they are wrong. It
does not check that a segment has pages, that no page of it is there already, and that its bytes go
to pages that are there, since the page addresses and the sizes are cut to 32 bits and the address
of the data is not. The functions that it calls panic then.

Two of its stores can also go behind the direct map, which is a page fault of the kernel: the zeros
of a segment from 4 GiB on whose low 32 bits are on a page of the program, and the arguments. The
stack of the arguments is at 2^46, so they are stored there if a segment has mapped the page that
the low 32 bits of their address are on.

`HeadersOk` is the condition on the headers and the arguments, and it says which pages the headers
before have mapped. `exec_survives_iff` says that the panics of the loader and the page fault are
reached exactly by the other files.
-/

set_option autoImplicit false

namespace DzOS.Proofs.Userspace

open DzOS.Lib DzOS.Mem DzOS.Fs DzOS.Userspace DzOS.Proofs.Mem
open DzOS.Proofs.Mem.SpaceCreation (UserHalfEmpty)
open DzOS.Sched (procAllocate findSlot)

variable {i k : Nat} {K P : Prop} {α : Type} {e : String} {pages : List UInt64} {va bias : UInt64}
  {s : ExecState} {c : ExecCall} {t : PageTree 3} {m : PageMap} {vars : FsVars} {inode : InodePtr}
  {mem : Bytes} {ph : ProgramHeader} {l : Loading}

/-! ### The condition -/

/-- The size that `proc_exec` allocates for a segment. -/
def allocSize (bias : UInt64) (ph : ProgramHeader) : UInt64 :=
  PAGE_ROUND_UP (ph.vaddr + bias - PAGE_ROUND_DOWN (ph.vaddr + bias) + ph.memsz)

/-- The first page of a segment. -/
def firstPage (bias : UInt64) (ph : ProgramHeader) : Nat :=
  (PAGE_ROUND_DOWN (ph.vaddr + bias)).toNat / 4096

/-- The number of its pages. -/
def pageCount (bias : UInt64) (ph : ProgramHeader) : Nat := (allocSize bias ph).toNat / 4096

/-- The file is rejected for the sizes or the place of a segment. -/
def Refused (bias : UInt64) (ph : ProgramHeader) : Prop :=
  ph.memsz < ph.filesz ∨ PAGE_ROUND_DOWN (ph.vaddr + bias) < USERSPACE_VA_MIN ∨
    PAGE_ROUND_DOWN (ph.vaddr + bias) + allocSize bias ph > USERSPACE_VA_MAX

instance (bias : UInt64) (ph : ProgramHeader) : Decidable (Refused bias ph) :=
  inferInstanceAs (Decidable (_ ∨ _ ∨ _))

/-- The pages of the user with those of a segment. -/
def withSegment (m : PageMap) (bias : UInt64) (ph : ProgramHeader) : PageMap :=
  m.add (flags2perm ph.flags) (firstPage bias ph) (firstPage bias ph + pageCount bias ph)

/-- `load_segment` finds a page wherever it comes to. The place in the file and the number of bytes
are cut to 32 bits. -/
def BytesOk (len : Nat) (m : PageMap) (va : UInt64) (ph : ProgramHeader) : Prop :=
  ∀ page, 0 < ph.filesz.toUInt32.toNat →
    Reached len ph.off.toUInt32.toNat va.toNat ph.filesz.toUInt32.toNat page → (m page).isSome

instance (len : Nat) (m : PageMap) (va : UInt64) (ph : ProgramHeader) :
    Decidable (BytesOk len m va ph) :=
  decidable_of_iff (∀ j < ph.filesz.toUInt32.toNat / 4096 + 2, 0 < ph.filesz.toUInt32.toNat →
      Reached len ph.off.toUInt32.toNat va.toNat ph.filesz.toUInt32.toNat (va.toNat / 4096 + j) →
        (m (va.toNat / 4096 + j)).isSome) <| by
    constructor
    · intro h page hpos hin
      obtain ⟨j, rfl⟩ := Nat.exists_eq_add_of_le hin.1
      have hlt := hin.2.1
      exact h j (by omega) hpos hin
    · intro h j _
      exact h _

/-- The file has the bytes of the segment. -/
def HasBytes (len : Nat) (ph : ProgramHeader) : Prop :=
  ph.filesz.toUInt32.toNat = 0 ∨ ph.off.toUInt32.toNat + ph.filesz.toUInt32.toNat ≤ len

instance (len : Nat) (ph : ProgramHeader) : Decidable (HasBytes len ph) :=
  inferInstanceAs (Decidable (_ ∨ _))

/-- `vmm_zero` does not store behind the direct map, if it is called. Its first address is behind
the bytes of the file, and it does nothing if the sum of this address and the length is cut. -/
def ZerosOk (len : Nat) (m : PageMap) (va : UInt64) (ph : ProgramHeader) : Prop :=
  HasBytes len ph → ph.filesz < ph.memsz →
    (va + ph.filesz).toNat < (va + ph.filesz + (ph.memsz - ph.filesz)).toNat →
      ¬ Wild m (va + ph.filesz).toNat

instance (len : Nat) (m : PageMap) (va : UInt64) (ph : ProgramHeader) :
    Decidable (ZerosOk len m va ph) :=
  inferInstanceAs (Decidable (_ → _ → _ → ¬ _))

/-- A segment for a file of `len` bytes, when the user has the pages `m`: it has pages, none of them
is there already, its bytes go to pages, and its zeros to the direct map. -/
structure SegmentOk (len : Nat) (m : PageMap) (bias : UInt64) (ph : ProgramHeader) : Prop where
  pages : 0 < pageCount bias ph
  unmapped : Unmapped m (firstPage bias ph) (firstPage bias ph + pageCount bias ph)
  bytes : BytesOk len (withSegment m bias ph) (ph.vaddr + bias) ph
  zeros : ZerosOk len (withSegment m bias ph) (ph.vaddr + bias) ph

instance (len : Nat) (m : PageMap) (bias : UInt64) (ph : ProgramHeader) :
    Decidable (SegmentOk len m bias ph) :=
  decidable_of_iff (0 < pageCount bias ph ∧
      Unmapped m (firstPage bias ph) (firstPage bias ph + pageCount bias ph) ∧
      BytesOk len (withSegment m bias ph) (ph.vaddr + bias) ph ∧
      ZerosOk len (withSegment m bias ph) (ph.vaddr + bias) ph)
    ⟨fun ⟨h1, h2, h3, h4⟩ => ⟨h1, h2, h3, h4⟩, fun h => ⟨h.pages, h.unmapped, h.bytes, h.zeros⟩⟩

/-- The segment is filled: the file has its bytes, and the pages behind them may be written. -/
def Filled (len : Nat) (m : PageMap) (va : UInt64) (ph : ProgramHeader) : Prop :=
  HasBytes len ph ∧
    (ph.filesz < ph.memsz →
      ZeroPages m (va + ph.filesz).toNat (va + ph.filesz + (ph.memsz - ph.filesz)).toNat)

instance (len : Nat) (m : PageMap) (va : UInt64) (ph : ProgramHeader) :
    Decidable (Filled len m va ph) :=
  inferInstanceAs (Decidable (_ ∧ (_ → _)))

/-- The addresses to which pieces of some lengths are pushed. -/
def pushPlaces (sp : UInt64) : List Nat → List UInt64
  | [] => []
  | n :: ns => (sp - UInt64.ofNat n) :: pushPlaces (sp - UInt64.ofNat n) ns

/-- The addresses to which the setup of the user stack stores: the strings, the words, and the slot
of the return address. -/
def stackPlaces (args : List (List UInt8)) : List UInt64 :=
  pushPlaces USER_STACK_TOP (((args.take MAX_ARGV).map fun arg => arg.length + 1)
      ++ List.replicate ((args.take MAX_ARGV).length + 3) 8)
    ++ [((USER_STACK_TOP - UInt64.ofNat (argumentBytes args)) &&& ~~~0xF) - 8]

/-- The arguments are not stored behind the direct map. -/
def StackOk (m : PageMap) (args : List (List UInt8)) : Prop :=
  ∀ x ∈ stackPlaces args, ¬ Wild m x.toNat

-- Without the name, Lean goes through all numbers of 64 bits.
instance (m : PageMap) (args : List (List UInt8)) : Decidable (StackOk m args) :=
  List.decidableBAll (fun x : UInt64 => ¬ Wild m x.toNat) (stackPlaces args)

/-- The segments up to the first one that makes `proc_exec` reject the file, with `left` more
headers and the next one at `off`. The user has the pages `m` before. If no segment does, the
arguments `args` are pushed at the end. -/
def HeadersOk (vars : FsVars) (inode : InodePtr) (bias : UInt64) (args : List (List UInt8)) :
    Nat → UInt64 → PageMap → Prop
  | 0, _, m => StackOk m args
  | left + 1, off, m =>
    match readProgramHeader vars inode off with
    | none => True
    | some ph =>
      let next := off + UInt64.ofNat PROGRAM_HEADER_SIZE
      if ph.type ≠ ELF_PROG_LOAD then HeadersOk vars inode bias args left next m
      else if Refused bias ph then True
      else
        SegmentOk (fileContent vars inode).length m bias ph ∧
          (Filled (fileContent vars inode).length (withSegment m bias ph) (ph.vaddr + bias) ph →
            HeadersOk vars inode bias args left next (withSegment m bias ph))

instance HeadersOk.decidable (vars : FsVars) (inode : InodePtr) (bias : UInt64)
    (args : List (List UInt8)) : ∀ left off m, Decidable (HeadersOk vars inode bias args left off m)
  | 0, _, m => inferInstanceAs (Decidable (StackOk m args))
  | left + 1, off, m =>
    match hread : readProgramHeader vars inode off with
    | none => isTrue (by rw [HeadersOk, hread]; trivial)
    | some ph =>
      have hnext := HeadersOk.decidable vars inode bias args left
        (off + UInt64.ofNat PROGRAM_HEADER_SIZE)
      have hsame := hnext m
      have hmore := hnext (withSegment m bias ph)
      decidable_of_iff (if ph.type ≠ ELF_PROG_LOAD then
          HeadersOk vars inode bias args left (off + UInt64.ofNat PROGRAM_HEADER_SIZE) m
        else if Refused bias ph then True
        else
          SegmentOk (fileContent vars inode).length m bias ph ∧
            (Filled (fileContent vars inode).length (withSegment m bias ph) (ph.vaddr + bias) ph →
              HeadersOk vars inode bias args left (off + UInt64.ofNat PROGRAM_HEADER_SIZE)
                (withSegment m bias ph))) (by rw [HeadersOk, hread])

/-- The panics of the functions that load a segment, and the page fault of `vmm_memcpy`. -/
def loaderPanics : List String :=
  ["vmm_memcpy: page fault", "vmm_allocate: va not aligned", "vmm_allocate: size not aligned",
    "vmm_allocate: size", "vmm_allocate: remap", "load_segment: address should exist", "walk",
    "vmm_map_pages: pa not aligned", "vmm_map_pages: va not aligned",
    "vmm_map_pages: size not aligned", "vmm_map_pages: size", "vmm_map_pages: remap"]

/-! ### One segment -/

/-- The start and the size of a segment as pages. -/
theorem segment_pages (bias : UInt64) (ph : ProgramHeader) :
    (PAGE_ROUND_DOWN (ph.vaddr + bias)).toNat = firstPage bias ph * 4096 ∧
      (allocSize bias ph).toNat = pageCount bias ph * 4096 ∧
      (firstPage bias ph + pageCount bias ph) * 4096 ≤ 2 ^ 45 := by
  have hstart := toNat_PAGE_ROUND_DOWN (ph.vaddr + bias)
  have hsize := toNat_PAGE_ROUND_UP_mod
    (ph.vaddr + bias - PAGE_ROUND_DOWN (ph.vaddr + bias) + ph.memsz)
  unfold firstPage pageCount allocSize
  omega

/-- A segment starts on or behind its first page. -/
theorem segment_min (h : ¬ PAGE_ROUND_DOWN (ph.vaddr + bias) < USERSPACE_VA_MIN) :
    USERSPACE_VA_MIN ≤ ph.vaddr + bias := by
  have hstart := toNat_PAGE_ROUND_DOWN (ph.vaddr + bias)
  rw [UInt64.not_lt, UInt64.le_iff_toNat_le] at h
  rw [UInt64.le_iff_toNat_le]
  omega

/-- The part of the contents of a segment that comes from the file. -/
theorem fillBytes_outcome (mem : Bytes) (hfile : IsFile vars inode) (h : ProcessPages t m)
    (hmin : USERSPACE_VA_MIN ≤ va) :
    (BytesOk (fileContent vars inode).length m va ph ∧
        ∃ r mem', (if ph.filesz > 0 then
            loadSegment t mem vars inode va ph.off.toUInt32 ph.filesz.toUInt32 else .ok (0, mem))
          = .ok (r, mem') ∧ (0 ≤ r ↔ HasBytes (fileContent vars inode).length ph)) ∨
      (¬ BytesOk (fileContent vars inode).length m va ph ∧
        (if ph.filesz > 0 then
            loadSegment t mem vars inode va ph.off.toUInt32 ph.filesz.toUInt32 else .ok (0, mem))
          = .error "load_segment: address should exist") := by
  by_cases hsz : 0 < ph.filesz.toUInt32.toNat
  · have hpos : ph.filesz > 0 := by
      rw [UInt64.toNat_toUInt32] at hsz
      rw [gt_iff_lt, UInt64.lt_iff_toNat_lt, UInt64.toNat_zero]
      omega
    rw [if_pos hpos]
    rcases loadSegment_outcome ph.off.toUInt32 mem hfile h hmin hsz with
      ⟨hpages, r, mem', hrun, hr⟩ | ⟨⟨page, hin, hnone⟩, hrun⟩
    · refine Or.inl ⟨fun page _ hin => hpages page hin, r, mem', hrun, ?_⟩
      rw [hr, HasBytes, or_iff_right (Nat.ne_of_gt hsz)]
    · refine Or.inr ⟨fun hall => ?_, hrun⟩
      have hsome := hall page hsz hin
      rw [hnone] at hsome
      cases hsome
  · have hzero : ph.filesz.toUInt32.toNat = 0 := Nat.eq_zero_of_not_pos hsz
    refine Or.inl ⟨fun page hpos => absurd hpos hsz, 0, mem, ?_,
      iff_of_true (Int.le_refl 0) (Or.inl hzero)⟩
    split
    · unfold loadSegment
      rw [hzero]
      rfl
    · rfl

/-- The contents of a segment. -/
theorem fillSegment_outcome (mem : Bytes) (hfile : IsFile vars inode) (h : ProcessPages t m)
    (hmin : USERSPACE_VA_MIN ≤ va) :
    ((BytesOk (fileContent vars inode).length m va ph ∧
          ZerosOk (fileContent vars inode).length m va ph) ∧
        ∃ ok mem', fillSegment t mem vars inode ph va = .ok (ok, mem') ∧
          (ok = true ↔ Filled (fileContent vars inode).length m va ph)) ∨
      (¬ (BytesOk (fileContent vars inode).length m va ph ∧
          ZerosOk (fileContent vars inode).length m va ph) ∧
        ∃ e ∈ loaderPanics, fillSegment t mem vars inode ph va = .error e) := by
  unfold fillSegment
  rcases fillBytes_outcome mem hfile h hmin with ⟨hok, r, mem₁, hrun, hr⟩ | ⟨hbad, hrun⟩
  · rw [hrun]
    dsimp only
    by_cases hfail : r < 0
    · have hshort : ¬ HasBytes (fileContent vars inode).length ph :=
        fun hhas => absurd (hr.mpr hhas) (by omega)
      rw [if_pos hfail]
      exact Or.inl ⟨⟨hok, fun hhas => absurd hhas hshort⟩, _, _, rfl,
        iff_of_false Bool.false_ne_true fun hfilled => hshort hfilled.1⟩
    · rw [if_neg hfail]
      have hhas := hr.mp (by omega)
      by_cases hmore : ph.memsz > ph.filesz
      · rw [if_pos hmore]
        rcases vmmZero_outcome h mem₁ (va + ph.filesz) (ph.memsz - ph.filesz) with
          ⟨htame, r₂, mem₂, hzero, hr₂⟩ | ⟨⟨hlt, hwild⟩, hzero⟩
        · rw [hzero]
          refine Or.inl ⟨⟨hok, fun _ _ => htame⟩, _, _, rfl, ?_⟩
          rw [decide_eq_true_iff, hr₂, Filled, and_iff_right hhas]
          exact (imp_iff_right hmore).symm
        · rw [hzero]
          exact Or.inr ⟨fun hsegment => hsegment.2 hhas hmore hlt hwild, _,
            by simp [loaderPanics], rfl⟩
      · rw [if_neg hmore]
        exact Or.inl ⟨⟨hok, fun _ hlt => absurd hlt hmore⟩, _, _, rfl,
          iff_of_true rfl ⟨hhas, fun hlt => absurd hlt hmore⟩⟩
  · rw [hrun]
    exact Or.inr ⟨fun hsegment => hbad hsegment.1, _, by simp [loaderPanics], rfl⟩

/-- A state of the loader: the pages of the user, and frames in the supply. -/
structure LoadState (m : PageMap) (l : Loading) : Prop where
  pages : ProcessPages l.space.pagetable m
  frames : ∀ p ∈ l.space.pages, MappableFrame p

/-- A header that is refused. -/
theorem loadProgram_refused (h : Refused bias ph) :
    loadProgram vars inode bias ph l = .ok (false, l) := by
  unfold loadProgram
  by_cases hsizes : ph.memsz < ph.filesz
  · rw [if_pos hsizes]
  · rw [if_neg hsizes]
    refine if_pos ?_
    rw [Bool.or_eq_true, decide_eq_true_iff, decide_eq_true_iff]
    exact h.resolve_left hsizes

/-- A header that is not refused: its pages are allocated and filled. -/
theorem loadProgram_of_not_refused (h : ¬ Refused bias ph) :
    loadProgram vars inode bias ph l =
      match l.space.vmmAllocate (PAGE_ROUND_DOWN (ph.vaddr + bias)) (allocSize bias ph)
        (flags2perm ph.flags) false with
      | .error e => .error e
      | .ok (r, space) =>
        if r = -1 then .ok (false, { l with space := space })
        else
          match fillSegment space.pagetable space.mem vars inode ph
            (PAGE_ROUND_DOWN (ph.vaddr + bias)
              + (ph.vaddr + bias - PAGE_ROUND_DOWN (ph.vaddr + bias))) with
          | .error e => .error e
          | .ok (ok, mem) =>
            if !ok then .ok (false, { l with space := { space with mem := mem } })
            else
              .ok (true, {
                space := { space with mem := mem }
                initialDataSegment := max l.initialDataSegment
                  (PAGE_ROUND_DOWN (ph.vaddr + bias) + allocSize bias ph) }) := by
  unfold Refused at h
  rw [not_or, not_or] at h
  obtain ⟨hsizes, hlo, hhi⟩ := h
  have hrange : ¬ (decide (PAGE_ROUND_DOWN (ph.vaddr + bias) < USERSPACE_VA_MIN) ||
      decide (PAGE_ROUND_DOWN (ph.vaddr + bias) + allocSize bias ph > USERSPACE_VA_MAX)) =
        true := by
    simp [hlo, hhi]
  unfold loadProgram
  rw [if_neg hsizes]
  exact if_neg hrange

/-- One program header that is not refused, with enough memory. -/
theorem loadProgram_outcome (hfile : IsFile vars inode) (h : LoadState m l)
    (hrefused : ¬ Refused bias ph) (hmemory : 4 * pageCount bias ph ≤ l.space.pages.length) :
    (SegmentOk (fileContent vars inode).length m bias ph ∧
        ∃ ok l', loadProgram vars inode bias ph l = .ok (ok, l') ∧
          (ok = true ↔ Filled (fileContent vars inode).length (withSegment m bias ph)
            (ph.vaddr + bias) ph) ∧
          LoadState (withSegment m bias ph) l' ∧ l'.space.pages <:+ l.space.pages ∧
          l.space.pages.length ≤ l'.space.pages.length + 4 * pageCount bias ph) ∨
      (¬ SegmentOk (fileContent vars inode).length m bias ph ∧
        ∃ e ∈ loaderPanics, loadProgram vars inode bias ph l = .error e) := by
  have hlo : ¬ PAGE_ROUND_DOWN (ph.vaddr + bias) < USERSPACE_VA_MIN :=
    fun hlt => hrefused (Or.inr (Or.inl hlt))
  obtain ⟨hfirst, hcount, hmax⟩ := segment_pages bias ph
  have hdata : PAGE_ROUND_DOWN (ph.vaddr + bias)
      + (ph.vaddr + bias - PAGE_ROUND_DOWN (ph.vaddr + bias)) = ph.vaddr + bias :=
    add_sub_cancel _ _
  rw [loadProgram_of_not_refused hrefused, hdata]
  have halloc := vmmAllocate_processPages (flags2perm ph.flags) false h.pages rfl
    hfirst hcount (UInt64.not_lt.mp hlo) hmax h.frames hmemory
  rcases halloc with ⟨hpages, hunmapped, space, hrun, hadded⟩ | ⟨hbad, hrun⟩
  · rw [hrun]
    dsimp only
    rw [if_neg (by decide)]
    have hmapped : ProcessPages space.pagetable (withSegment m bias ph) := hadded.pages
    rcases fillSegment_outcome space.mem hfile hmapped (segment_min hlo) with
      ⟨⟨hbytes, hzeros⟩, ok, mem, hfill, hok⟩ | ⟨hcontents, e, he, hfill⟩
    · rw [hfill]
      refine Or.inl ⟨⟨hpages, hunmapped, hbytes, hzeros⟩, ok, ?_⟩
      have hstate : ∀ d,
          LoadState (withSegment m bias ph) ⟨{ space with mem := mem }, d⟩ := fun d =>
        ⟨hmapped, fun p hp => h.frames p (hadded.supply.subset hp)⟩
      cases ok with
      | true => exact ⟨_, rfl, hok, hstate _, hadded.supply, hadded.memory⟩
      | false => exact ⟨_, rfl, hok, hstate _, hadded.supply, hadded.memory⟩
    · rw [hfill]
      exact Or.inr ⟨fun hsegment => hcontents ⟨hsegment.bytes, hsegment.zeros⟩, e, he, rfl⟩
  · refine Or.inr ⟨fun hsegment => hbad ⟨hsegment.pages, hsegment.unmapped⟩, ?_⟩
    rcases hrun with hrun | hrun
    · rw [hrun]
      exact ⟨_, by simp [loaderPanics], rfl⟩
    · rw [hrun]
      exact ⟨_, by simp [loaderPanics], rfl⟩

/-! ### All segments -/

/-- The number of pages that the segments of some headers need, with their tables. -/
def pagesNeeded (bias : UInt64) (headers : List ProgramHeader) : Nat :=
  4 * (headers.map (pageCount bias)).sum

/-- The loop over the program headers, with enough memory. It rejects the file, or it goes on to the
arguments with the pages of all segments, or it panics. -/
theorem loadPrograms_outcome (args : List (List UInt8)) (left : Nat) (off : UInt64)
    (h : LoadState m l)
    (hmemory : pagesNeeded bias (loadHeaders vars inode left off) ≤ l.space.pages.length) :
    (HeadersOk vars inode bias args left off m ∧
        ∃ l', loadPrograms vars inode bias left off l = .ok (false, l')) ∨
      (∃ m' l', loadPrograms vars inode bias left off l = .ok (true, l') ∧ LoadState m' l' ∧
          (HeadersOk vars inode bias args left off m ↔ StackOk m' args) ∧
          l'.space.pages <:+ l.space.pages ∧
          l.space.pages.length
            ≤ l'.space.pages.length + pagesNeeded bias (loadHeaders vars inode left off)) ∨
      (¬ HeadersOk vars inode bias args left off m ∧
        ∃ e ∈ loaderPanics, loadPrograms vars inode bias left off l = .error e) := by
  induction left generalizing off m l with
  | zero =>
    exact Or.inr (Or.inl ⟨m, l, rfl, h, Iff.rfl, List.suffix_refl _, Nat.le_add_right _ _⟩)
  | succ left ih =>
    unfold HeadersOk loadPrograms
    have hheaders : loadHeaders vars inode (left + 1) off
        = ((readProgramHeader vars inode off).filter (·.type = ELF_PROG_LOAD)).toList
          ++ loadHeaders vars inode left (off + UInt64.ofNat PROGRAM_HEADER_SIZE) :=
      loadHeaders_succ left off
    cases hread : readProgramHeader vars inode off with
    | none => exact Or.inl ⟨trivial, _, rfl⟩
    | some ph =>
      have hfile : IsFile vars inode := by
        unfold readProgramHeader at hread
        dsimp only at hread
        split at hread
        · cases hread
        · rename_i hfull
          exact isFile_of_read (not_not.mp hfull)
      rw [hread] at hheaders
      dsimp only
      by_cases htype : ph.type = ELF_PROG_LOAD
      · rw [if_neg (not_not.mpr htype), if_neg (not_not.mpr htype)]
        rw [Option.filter_some, if_pos (by simpa using htype)] at hheaders
        have hsum : pagesNeeded bias (loadHeaders vars inode (left + 1) off)
            = 4 * pageCount bias ph + pagesNeeded bias (loadHeaders vars inode left
              (off + UInt64.ofNat PROGRAM_HEADER_SIZE)) := by
          rw [hheaders]
          simp [pagesNeeded, Nat.mul_add]
        rw [hsum] at hmemory ⊢
        by_cases hrefused : Refused bias ph
        · rw [if_pos hrefused, loadProgram_refused hrefused]
          exact Or.inl ⟨trivial, _, rfl⟩
        · rw [if_neg hrefused]
          rcases loadProgram_outcome hfile h hrefused (by omega) with
            ⟨hsegment, ok, l₁, hrun, hok, hstate, hsupply, hless⟩ | ⟨hbad, e, he, hrun⟩
          · rw [hrun]
            cases ok with
            | false =>
              refine Or.inl ⟨⟨hsegment, fun hfilled => ?_⟩, _, rfl⟩
              cases hok.mpr hfilled
            | true =>
              have hfilled := hok.mp rfl
              dsimp only
              rcases ih (off + UInt64.ofNat PROGRAM_HEADER_SIZE) hstate (by omega) with
                ⟨hrest, hrun'⟩ | ⟨m', l', hrun', hstate', hrest, hsupply', hless'⟩ |
                  ⟨hbad, hrun'⟩
              · exact Or.inl ⟨⟨hsegment, fun _ => hrest⟩, hrun'⟩
              · refine Or.inr (Or.inl ⟨m', l', hrun', hstate', ?_, hsupply'.trans hsupply,
                  by omega⟩)
                rw [and_iff_right hsegment, imp_iff_right hfilled]
                exact hrest
              · exact Or.inr (Or.inr ⟨fun hall => hbad (hall.2 hfilled), hrun'⟩)
          · rw [hrun]
            exact Or.inr (Or.inr ⟨fun hall => hbad hall.1, e, he, rfl⟩)
      · rw [if_pos htype, if_pos htype]
        rw [Option.filter_some, if_neg (by simpa using htype)] at hheaders
        have hsame : loadHeaders vars inode (left + 1) off
            = loadHeaders vars inode left (off + UInt64.ofNat PROGRAM_HEADER_SIZE) := hheaders
        rw [hsame] at hmemory ⊢
        exact ih _ h hmemory

/-! ### The rest of `proc_exec` -/

/-- One push faults exactly if its address is wild. -/
theorem push_outcome (h : ProcessPages t m) (b : StackBlock) {source : List UInt8}
    (hne : source ≠ []) :
    (¬ Wild m (b.sp - UInt64.ofNat source.length).toNat ∧ ∃ b', b.push t source = .ok b') ∨
      (Wild m (b.sp - UInt64.ofNat source.length).toNat ∧
        b.push t source = .error "vmm_memcpy: page fault") := by
  unfold StackBlock.push
  dsimp only
  rcases vmmMemcpy_faults_iff h b.mem (b.sp - UInt64.ofNat source.length) hne with
    ⟨htame, r, hrun⟩ | ⟨hwild, hrun⟩
  · rw [hrun]
    exact Or.inl ⟨htame, _, rfl⟩
  · rw [hrun]
    exact Or.inr ⟨hwild, rfl⟩

/-- The pushes of a list, and then those of another one. -/
theorem pushPlaces_append (sp : UInt64) (ns ns' : List Nat) :
    pushPlaces sp (ns ++ ns') = pushPlaces sp ns ++ pushPlaces (sp - UInt64.ofNat ns.sum) ns' := by
  induction ns generalizing sp with
  | nil =>
    have hzero : UInt64.ofNat ([] : List Nat).sum = 0 := rfl
    rw [hzero, sub_zero]
    rfl
  | cons n ns ih =>
    rw [List.cons_append, pushPlaces, pushPlaces, ih, List.cons_append, List.sum_cons,
      UInt64.ofNat_add, sub_sub]

/-- The strings. -/
theorem pushArgs_outcome (h : ProcessPages t m) (args : List (List UInt8)) (b : StackBlock) :
    ((∀ x ∈ pushPlaces b.sp (args.map fun arg => arg.length + 1), ¬ Wild m x.toNat) ∧
        ∃ r, pushArgs t args b = .ok r) ∨
      (¬ (∀ x ∈ pushPlaces b.sp (args.map fun arg => arg.length + 1), ¬ Wild m x.toNat) ∧
        pushArgs t args b = .error "vmm_memcpy: page fault") := by
  induction args generalizing b with
  | nil => exact Or.inl ⟨fun x hx => (List.not_mem_nil hx).elim, _, rfl⟩
  | cons arg args ih =>
    have hlen : (arg ++ [0]).length = arg.length + 1 := by simp
    have hpush := push_outcome h b
      (List.append_ne_nil_of_right_ne_nil arg (List.cons_ne_nil 0 []))
    rw [hlen] at hpush
    unfold pushArgs
    rw [List.map_cons, pushPlaces, List.forall_mem_cons]
    rcases hpush with ⟨htame, b', hb'⟩ | ⟨hwild, hrun⟩
    · have hsp := push_sp hb'
      rw [hlen] at hsp
      rw [hb', ← hsp]
      rw [← hsp] at htame
      dsimp only
      rcases ih b' with ⟨hrest, r, hr⟩ | ⟨hbad, hr⟩
      · rw [hr]
        exact Or.inl ⟨⟨htame, hrest⟩, _, rfl⟩
      · rw [hr]
        exact Or.inr ⟨fun hall => hbad hall.2, rfl⟩
    · rw [hrun]
      exact Or.inr ⟨fun hall => hall.1 hwild, rfl⟩

/-- The words. -/
theorem pushWords_outcome (h : ProcessPages t m) (ws : List UInt64) (b : StackBlock) :
    ((∀ x ∈ pushPlaces b.sp (List.replicate ws.length 8), ¬ Wild m x.toNat) ∧
        ∃ b', pushWords t ws b = .ok b') ∨
      (¬ (∀ x ∈ pushPlaces b.sp (List.replicate ws.length 8), ¬ Wild m x.toNat) ∧
        pushWords t ws b = .error "vmm_memcpy: page fault") := by
  induction ws generalizing b with
  | nil => exact Or.inl ⟨fun x hx => (List.not_mem_nil hx).elim, _, rfl⟩
  | cons w ws ih =>
    have hne : wordBytes w ≠ [] := List.length_pos_iff.mp (by rw [length_wordBytes]; decide)
    have hpush := push_outcome h b hne
    rw [length_wordBytes] at hpush
    unfold pushWords
    rw [List.length_cons, List.replicate_succ, pushPlaces, List.forall_mem_cons]
    rcases hpush with ⟨htame, b', hb'⟩ | ⟨hwild, hrun⟩
    · have hsp := push_sp hb'
      rw [length_wordBytes] at hsp
      rw [hb', ← hsp]
      rw [← hsp] at htame
      rcases ih b' with ⟨hrest, hr⟩ | ⟨hbad, hr⟩
      · exact Or.inl ⟨⟨htame, hrest⟩, hr⟩
      · exact Or.inr ⟨fun hall => hbad hall.2, hr⟩
    · rw [hrun]
      exact Or.inr ⟨fun hall => hall.1 hwild, rfl⟩

/-- The setup of the user stack faults exactly if one of its stores is wild. -/
theorem setupStack_outcome (h : ProcessPages t m) (mem : Bytes) (args : List (List UInt8)) :
    (StackOk m args ∧ ∃ b, setupStack t mem args = .ok b) ∨
      (¬ StackOk m args ∧ setupStack t mem args = .error "vmm_memcpy: page fault") := by
  have hplaces : StackOk m args ↔
      (∀ x ∈ pushPlaces USER_STACK_TOP ((args.take MAX_ARGV).map fun arg => arg.length + 1),
        ¬ Wild m x.toNat) ∧
      (∀ x ∈ pushPlaces
          (USER_STACK_TOP
            - UInt64.ofNat ((args.take MAX_ARGV).map fun arg => arg.length + 1).sum)
          (List.replicate ((args.take MAX_ARGV).length + 3) 8), ¬ Wild m x.toNat) ∧
      ¬ Wild m (((USER_STACK_TOP - UInt64.ofNat (argumentBytes args)) &&& ~~~0xF) - 8).toNat := by
    unfold StackOk stackPlaces
    rw [pushPlaces_append, List.forall_mem_append, List.forall_mem_append,
      List.forall_mem_singleton, and_assoc]
  rw [hplaces]
  unfold setupStack
  rcases pushArgs_outcome h (args.take MAX_ARGV) ⟨USER_STACK_TOP, mem⟩ with
    ⟨hstrings, ⟨ptrs, b₁⟩, hargs⟩ | ⟨hbad, hargs⟩
  · rw [hargs]
    dsimp only
    obtain ⟨hsp₁, hcount⟩ := pushArgs_sp hargs
    have hlen : (0 :: 0 :: ptrs.reverse ++ [UInt64.ofNat ptrs.length]).length
        = (args.take MAX_ARGV).length + 3 := by
      simp [hcount]
    have hpush := pushWords_outcome h (0 :: 0 :: ptrs.reverse ++ [UInt64.ofNat ptrs.length]) b₁
    rw [hlen, hsp₁] at hpush
    rcases hpush with ⟨hwords, b₂, hrun⟩ | ⟨hbad, hrun⟩
    · rw [hrun]
      dsimp only
      have hsp₂ : b₂.sp = USER_STACK_TOP - UInt64.ofNat (argumentBytes args) := by
        rw [pushWords_sp hrun, hlen, hsp₁, sub_sub, ← UInt64.ofNat_add, argumentBytes]
      have hne : wordBytes 0 ≠ [] := List.length_pos_iff.mp (by rw [length_wordBytes]; decide)
      have hlast := push_outcome h { b₂ with sp := b₂.sp &&& ~~~0xF } hne
      rw [length_wordBytes, hsp₂] at hlast
      rw [hsp₂]
      rcases hlast with ⟨htame, hok⟩ | ⟨hwild, hfault⟩
      · exact Or.inl ⟨⟨hstrings, hwords, htame⟩, hok⟩
      · exact Or.inr ⟨fun hall => hall.2.2 hwild, hfault⟩
    · rw [hrun]
      exact Or.inr ⟨fun hall => hbad hall.2.1, rfl⟩
  · rw [hargs]
    exact Or.inr ⟨fun hall => hbad hall.1, rfl⟩

/-- The panics of a kernel walk are others. -/
theorem walkKernel_error (h : walkKernel t va pages = .error e) : e ∉ loaderPanics := by
  unfold walkKernel at h
  split at h
  · cases h
    decide
  · cases h

/-- So are those of a kernel mapping. -/
theorem mapKernelPagesFrom_error {pa : UInt64} {perm : PtePermissions}
    (h : mapKernelPagesFrom va pa perm k i t pages = .error e) : e ∉ loaderPanics := by
  induction k generalizing i t pages with
  | zero => cases h
  | succ k ih =>
    unfold mapKernelPagesFrom at h
    dsimp only at h
    split at h
    · rename_i hwalk
      cases h
      exact walkKernel_error hwalk
    · cases h
    · split at h
      · cases h
        decide
      · exact ih h

/-- The pages of a kernel stack. -/
theorem mapStackPages_error {left : Nat} (h : mapStackPages i left k t pages = .error e) :
    e ∉ loaderPanics := by
  induction left generalizing k t pages with
  | zero => cases h
  | succ left ih =>
    unfold mapStackPages at h
    split at h
    · cases h
      decide
    split at h
    · rename_i hmap
      cases h
      unfold vmmMapKernelPages at hmap
      split at hmap
      · cases hmap
        decide
      · exact mapKernelPagesFrom_error hmap
    · split at h
      · cases h
        decide
      · exact ih h

/-- The panics of a kernel stack. -/
theorem vmmAllocateProcKernelStack_error (h : vmmAllocateProcKernelStack t i pages = .error e) :
    e ∉ loaderPanics := by
  unfold vmmAllocateProcKernelStack at h
  split at h
  · rename_i hwalk
    cases h
    exact walkKernel_error hwalk
  · cases h
    decide
  · cases h
    decide
  · dsimp only at h
    split at h
    · rename_i hmap
      cases h
      exact mapStackPages_error hmap
    · cases h

/-- The panics of `fs_open` are others too. -/
theorem fsOpen_not_loader {path : List UInt8} {relativeTo : Option InodePtr} {flags : UInt32}
    {date : UInt64} (h : fsOpen vars path relativeTo flags date = .error e) : e ∉ loaderPanics := by
  rcases fsOpen_error h with rfl | rfl
  · decide
  · decide

/-- The panics of the last part of `proc_exec`, behind the user stack. -/
theorem execStart_error {b : StackBlock} {rip : UInt64}
    (hstack : setupStack l.space.pagetable l.space.mem c.args = .ok b)
    (h : execStart s c inode rip l = .error e) : e ∉ loaderPanics := by
  unfold execStart at h
  rw [hstack] at h
  dsimp only at h
  split at h
  · cases h
    decide
  split at h
  · rename_i hkernel
    cases h
    exact vmmAllocateProcKernelStack_error hkernel
  split at h
  · rename_i hwd
    cases h
    unfold execWorkingDirectory at hwd
    split at hwd
    · cases hwd
    split at hwd
    · rename_i hopen
      cases hwd
      exact fsOpen_not_loader hopen
    · cases hwd
      decide
    · cases hwd
  · cases h

/-! ### The law -/

/-- The pages that the segments of the executable need. -/
def segmentMemory (s : ExecState) (c : ExecCall) : Nat :=
  ((executable s c).map fun e => pagesNeeded e.bias e.segments).getD 0

/-- The process table has a free slot, and the memory is enough: for the new process, for the
segments of the file, and for a kernel stack. The kernel maps nothing in the user half. -/
structure ExecReady (s : ExecState) (c : ExecCall) : Prop where
  kernelHalf : UserHalfEmpty s.procs.kernel.kernelPagetable
  frames : ∀ p ∈ c.pages, BlockFrame p
  slot : ∃ procs pages, procAllocate s.procs c.p c.pages = .ok (some (procs, pages)) ∧
    segmentMemory s c + 20 ≤ pages.length

/-- The parts of the call that do not depend on the file do not panic: the two opens, the serial
port, and the kernel stack, since its slot has no pages. -/
structure KernelReady (s : ExecState) (c : ExecCall) : Prop where
  opens : ∃ r, fsOpen s.vars c.path c.workingDirectory 0 c.date = .ok r
  serial : c.serial.isSome
  workingDirectory : ∀ i vars,
    fsOpen s.vars c.path c.workingDirectory 0 c.date = .ok (some i, vars) →
      ∃ r, execWorkingDirectory (fsClose vars i) c.workingDirectory c.date = .ok r
  stackSlot : ∀ i, findSlot s.procs.sched = some i → ∀ k < STACK_PAGES,
    ¬ Present s.procs.kernel.kernelPagetable (stackPageVa i k)

/-- The headers of the executable stop nothing. A new process has the pages of its user stack. -/
def FileOk (s : ExecState) (c : ExecCall) : Prop :=
  match fsOpen s.vars c.path c.workingDirectory 0 c.date with
  | .ok (some i, vars) =>
    ∀ elf ∈ readElfHeader vars i, elf.magic = ELF_MAGIC → ∀ bias ∈ loadBias elf,
      HeadersOk vars i bias c.args elf.phnum.toNat elf.phoff newPageMap
  | _ => True

instance (s : ExecState) (c : ExecCall) : Decidable (FileOk s c) :=
  match hopen : fsOpen s.vars c.path c.workingDirectory 0 c.date with
  | .ok (some i, vars) =>
    -- There are too many numbers to go through for the bias.
    have hbias : ∀ elf, Decidable (∀ bias ∈ loadBias elf,
        HeadersOk vars i bias c.args elf.phnum.toNat elf.phoff newPageMap) := fun elf =>
      match loadBias elf with
      | none => isTrue (by simp)
      | some bias => decidable_of_iff
          (HeadersOk vars i bias c.args elf.phnum.toNat elf.phoff newPageMap) (by simp)
    decidable_of_iff (∀ elf ∈ readElfHeader vars i, elf.magic = ELF_MAGIC →
      ∀ bias ∈ loadBias elf, HeadersOk vars i bias c.args elf.phnum.toNat elf.phoff newPageMap)
      (by rw [FileOk, hopen])
  | .ok (none, _) => isTrue (by rw [FileOk, hopen]; trivial)
  | .error _ => isTrue (by rw [FileOk, hopen]; trivial)

/-- How a part of `proc_exec` ends that depends on the condition `P`: it panics in the loader, or it
does not and returns if `K` holds. -/
def Survives {α : Type} (P K : Prop) (r : Except String α) : Prop :=
  (P ∧ (∀ e ∈ loaderPanics, r ≠ .error e) ∧ (K → ∃ o, r = .ok o)) ∨
    (¬ P ∧ ∃ e ∈ loaderPanics, r = .error e)

/-- A part that returns. -/
theorem survives_ok (h : P) (o : α) : Survives P K (.ok o) :=
  Or.inl ⟨h, fun _ _ hcontra => (nomatch hcontra), fun _ => ⟨o, rfl⟩⟩

/-- A part with another panic. -/
theorem survives_error (h : P) (hK : ¬ K) (he : e ∉ loaderPanics) :
    Survives P K (.error e : Except String α) := by
  refine Or.inl ⟨h, fun e' he' hcontra => ?_, fun hk => absurd hk hK⟩
  cases hcontra
  exact he he'

/-- The last part of `proc_exec`, with the pages `m` of the user. -/
theorem execStart_survives (inode : InodePtr) (rip : UInt64) (hstate : LoadState m l) (hi : i < 64)
    (hslot : (s.procs.sched.procs c.p).i = i) (hal : ∀ p ∈ l.space.pages, p.toNat % 4096 = 0)
    (hmemory : 20 ≤ l.space.pages.length) :
    Survives (StackOk m c.args) (c.serial.isSome ∧
        (∃ r, execWorkingDirectory (fsClose s.vars inode) c.workingDirectory c.date = .ok r) ∧
        ∀ k < STACK_PAGES, ¬ Present s.procs.kernel.kernelPagetable (stackPageVa i k))
      (execStart s c inode rip l) := by
  rcases setupStack_outcome hstate.pages l.space.mem c.args with ⟨hstack, b, hb⟩ | ⟨hbad, hb⟩
  case inr =>
    refine Or.inr ⟨hbad, "vmm_memcpy: page fault", by simp [loaderPanics], ?_⟩
    unfold execStart
    rw [hb]
  refine Or.inl ⟨hstack, fun e he hcontra => execStart_error hb hcontra he, ?_⟩
  rintro ⟨hserial, ⟨⟨wd, vars⟩, hwd⟩, habsent⟩
  obtain ⟨serial, hserial⟩ := Option.isSome_iff_exists.mp hserial
  obtain ⟨top, t, rest, hkernel⟩ := vmmAllocateProcKernelStack_succeeds hi hal habsent hmemory
  unfold execStart
  rw [hb, hserial, hslot]
  dsimp only
  rw [hkernel]
  dsimp only
  rw [hwd]
  exact ⟨_, rfl⟩

theorem Survives.imp {K' : Prop} {r : Except String α} (h : Survives P K r) (hK : K' → K) :
    Survives P K' r :=
  h.imp_left fun ⟨hP, hother, hok⟩ => ⟨hP, hother, fun hk => hok (hK hk)⟩

/-- `proc_exec` panics in the loader exactly if the headers do not let it. -/
theorem procExec_survives (h : ExecReady s c) :
    Survives (FileOk s c) (KernelReady s c) (procExec s c) := by
  unfold procExec
  rcases hopen : fsOpen s.vars c.path c.workingDirectory 0 c.date with e | ⟨_ | i, vars⟩
  · refine survives_error ?_ ?_ (fsOpen_not_loader hopen)
    · rw [FileOk, hopen]
      trivial
    · rintro ⟨⟨r, hr⟩, -⟩
      rw [hopen] at hr
      cases hr
  · refine survives_ok ?_ _
    rw [FileOk, hopen]
    trivial
  dsimp only
  have hfileOk : FileOk s c ↔ ∀ elf ∈ readElfHeader vars i, elf.magic = ELF_MAGIC →
      ∀ bias ∈ loadBias elf, HeadersOk vars i bias c.args elf.phnum.toNat elf.phoff newPageMap := by
    rw [FileOk, hopen]
  rw [hfileOk]
  cases helf : readElfHeader vars i with
  | none => exact survives_ok (fun elf hsome => by cases hsome) _
  | some elf =>
    dsimp only
    by_cases hmagic : elf.magic = ELF_MAGIC
    · obtain ⟨procs, pages, hproc, hmemory⟩ := h.slot
      obtain ⟨j, hj, hslot, hindex⟩ := procAllocate_slot hproc
      have hallocated := procAllocate_allocated hproc
      rw [if_neg (not_not.mpr hmagic), hproc]
      dsimp only
      unfold execLoad
      cases hbias : loadBias elf with
      | none =>
        refine survives_ok ?_ _
        intro elf' helf' _ bias hsome
        cases helf'
        rw [hbias] at hsome
        cases hsome
      | some bias =>
        have hsame : (∀ elf' ∈ some elf, elf'.magic = ELF_MAGIC → ∀ bias ∈ loadBias elf',
            HeadersOk vars i bias c.args elf'.phnum.toNat elf'.phoff newPageMap) ↔
              HeadersOk vars i bias c.args elf.phnum.toNat elf.phoff newPageMap := by
          simp [hmagic, hbias]
        rw [hsame]
        dsimp only
        have hneeded : segmentMemory s c
            = pagesNeeded bias (loadHeaders vars i elf.phnum.toNat elf.phoff) := by
          rw [segmentMemory, executable_eq hopen helf hbias]
          rfl
        rw [hneeded] at hmemory
        have hrest : pages ≠ [] := by
          rintro rfl
          rw [List.length_nil] at hmemory
          omega
        have hsuffix := (vmmUserPagetableNew_entries hallocated.table).2
        -- The pages of a new address space are those of its user stack.
        have hstate : LoadState newPageMap
            ⟨⟨procs.pagetable c.p, s.mem, pages, [], c.recycled⟩, 0⟩ := {
          pages := vmmUserPagetableNew_processPages h.kernelHalf h.frames hallocated.table hrest
          frames := fun p hp => (h.frames p (hsuffix.mem hp)).mappable }
        have hsegments : pagesNeeded bias (loadHeaders vars i elf.phnum.toNat elf.phoff)
            ≤ pages.length := by omega
        rcases loadPrograms_outcome c.args elf.phnum.toNat elf.phoff hstate hsegments with
          ⟨hok, l, hrun⟩ | ⟨m, l, hrun, hloaded, hstack, hsupply, hless⟩ | ⟨hbad, e, he, hrun⟩
        · rw [hrun]
          exact survives_ok hok _
        · rw [hrun, hstack]
          have hpages : 20 ≤ l.space.pages.length := by
            change pages.length ≤ _ at hless
            omega
          have hstart := execStart_survives i (bias + elf.entry) (c := c) (l := l)
            (s := { s with vars := vars, procs := procs }) hloaded hj hindex
            (fun p hp => (hstate.frames p (hsupply.mem hp)).aligned) hpages
          refine hstart.imp ?_
          intro hkernel
          refine ⟨hkernel.serial, hkernel.workingDirectory i vars hopen, ?_⟩
          show ∀ k < STACK_PAGES, ¬ Present procs.kernel.kernelPagetable _
          rw [hallocated.kernel]
          exact hkernel.stackSlot j hslot
        · rw [hrun]
          exact Or.inr ⟨hbad, e, he, rfl⟩
    · rw [if_pos hmagic]
      refine survives_ok ?_ _
      intro elf' helf' hmagic'
      cases helf'
      exact absurd hmagic' hmagic

/-- The memory of the machine is enough for segments of two pages. -/
theorem execReady_machineWith {program : List UInt8} {args : List (List UInt8)}
    (h : segmentMemory (machineWith program) (execF args) ≤ 8) :
    ExecReady (machineWith program) (execF args) where
  kernelHalf i _ := by
    show pteIsPresent 0 = false
    decide
  frames p hp := by
    obtain ⟨n, hn, hp⟩ : ∃ n < 0x200, p.toNat = (n + 0x100) * 4096 := by
      change p ∈ execPages at hp
      rw [execPages] at hp
      simp only [List.mem_cons, List.mem_map, List.mem_range] at hp
      rcases hp with rfl | rfl | rfl | rfl | ⟨i, hi, rfl⟩
      · exact ⟨0, by decide, by decide⟩
      · exact ⟨1, by decide, by decide⟩
      · exact ⟨9, by decide, by decide⟩
      · exact ⟨17, by decide, by decide⟩
      · refine ⟨25 + i, by omega, ?_⟩
        rw [UInt64.toNat_ofNat']
        omega
    refine ⟨by omega, by omega, ?_⟩
    rintro rfl
    rw [UInt64.toNat_zero] at hp
    omega
  slot := by
    have hrun : ((procAllocate Sched.StackSlots.emptyMachine 1 execPages).toOption.map fun r =>
        r.map fun r => r.2.length) = some (some 29) := by
      decide +kernel
    obtain ⟨r, hr, hlen⟩ := Option.map_eq_some_iff.mp hrun
    obtain ⟨⟨procs, pages⟩, rfl, hpages⟩ := Option.map_eq_some_iff.mp hlen
    refine ⟨procs, pages, eq_ok_of_toOption hr, ?_⟩
    change pages.length = 29 at hpages
    omega

/-- The header of a segment for two pages. -/
def twoPageSegment : ProgramHeader :=
  { type := ELF_PROG_LOAD, flags := 6, off := 120, vaddr := 0x400FF8, filesz := 16, memsz := 32 }

/-- A segment without bytes at the start of a page. -/
def emptySegment : ProgramHeader :=
  { type := ELF_PROG_LOAD, flags := 6, off := 120, vaddr := 0x401000, filesz := 0, memsz := 0 }

/-- The kernel is ready for them. -/
theorem kernelReady_oneSegment {rest : List UInt8}
    (h : ((fsOpen (machineWith (oneSegment ph rest)).vars [SLASH, 102] none 0 0).toOption.map
      fun r => r.1.all fun i =>
        (execWorkingDirectory (fsClose r.2 i) none 0).toOption.isSome) = some true) :
    KernelReady (machineWith (oneSegment ph rest)) (execF [[97]]) where
  opens := by
    obtain ⟨r, hr, -⟩ := Option.map_eq_some_iff.mp h
    exact ⟨r, eq_ok_of_toOption hr⟩
  serial := rfl
  workingDirectory i vars hopen := by
    obtain ⟨r, hr, hall⟩ := Option.map_eq_some_iff.mp h
    have hsame : r = (some i, vars) := Except.ok.inj ((eq_ok_of_toOption hr).symm.trans hopen)
    subst hsame
    obtain ⟨wd, hwd⟩ := Option.isSome_iff_exists.mp hall
    exact ⟨wd, eq_ok_of_toOption hwd⟩
  stackSlot i hslot k hk := by
    have hzero : findSlot Sched.StackSlots.emptyMachine.sched = some 0 := rfl
    have hsome := hzero.symm.trans hslot
    cases hsome
    exact Sched.StackSlots.emptyMachine_boot.stackArea 0 (by decide) k hk

end DzOS.Proofs.Userspace
