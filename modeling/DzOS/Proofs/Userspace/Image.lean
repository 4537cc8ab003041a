import DzOS.Proofs.Userspace.Segments

/-!
# `DzOS.Proofs.Userspace.Image`: the image of an accepted program

`ImageLoaded` compares the new address space with the file: through the page table, every segment
has its bytes, zeros behind them, and the permissions of its header. `image_loaded` says that an
accepted program is loaded so if its segments are in reach (`ImageInReach`).

The arguments come to the stack after that. `vmm_memcpy` cuts the addresses of the stack to 32 bits,
so it looks up pages that can belong to the image. But the rest of the address is added to the
frame, and the bytes end up above all frames (`setupStack_sameLow`).
-/

set_option autoImplicit false

namespace DzOS.Proofs.Userspace

open DzOS.Lib DzOS.Lib.PagedView DzOS.Mem DzOS.Fs DzOS.Userspace DzOS.Proofs.Mem

variable {args : List (List UInt8)} {bias sp : UInt64} {n : Nat} {s : ExecState} {c : ExecCall}
  {o : ExecOutcome} {t : PageTree 3} {S : Set Nat} {b b' : StackBlock} {mem : Bytes}

/-! ### The arguments miss the image -/

/-- The stack pointer is in the user half, with room for `n` bytes above 4 GiB. -/
def HasRoom (sp : UInt64) (n : Nat) : Prop := 2 ^ 32 + n ≤ sp.toNat ∧ sp.toNat ≤ 2 ^ 46

/-- The stack pointer below `n` bytes. -/
theorem HasRoom.toNat_sub (h : HasRoom sp n) : (sp - UInt64.ofNat n).toNat = sp.toNat - n := by
  obtain ⟨hlo, hhi⟩ := h
  rw [UInt64.toNat_sub, UInt64.toNat_ofNat']
  omega

/-- Room for two pieces. -/
theorem HasRoom.sub {m : Nat} (h : HasRoom sp (n + m)) :
    HasRoom sp n ∧ HasRoom (sp - UInt64.ofNat n) m := by
  obtain ⟨hlo, hhi⟩ := h
  have hfirst : HasRoom sp n := ⟨by omega, hhi⟩
  refine ⟨hfirst, ?_⟩
  unfold HasRoom
  rw [hfirst.toNat_sub]
  omega

/-- One push. -/
theorem push_sameLow {source : List UInt8} (h : b.push t source = .ok b')
    (hroom : HasRoom b.sp source.length) : SameLow b.mem b'.mem := by
  have hsub := hroom.toNat_sub
  obtain ⟨hlo, hhi⟩ := hroom
  unfold StackBlock.push at h
  dsimp only at h
  split at h
  · cases h
  · rename_i r mem' hcopy
    cases h
    exact vmmMemcpy_high (by omega) (by omega) hcopy

/-- The strings. -/
theorem pushArgs_sameLow {ptrs : List UInt64} (h : pushArgs t args b = .ok (ptrs, b'))
    (hroom : HasRoom b.sp (args.map fun arg => arg.length + 1).sum) : SameLow b.mem b'.mem := by
  induction args generalizing b ptrs with
  | nil =>
    cases h
    exact SameLow.refl _
  | cons arg args ih =>
    unfold pushArgs at h
    split at h
    · cases h
    rename_i b₁ hpush
    split at h
    · cases h
    rename_i ptrs₁ b₂ hrest
    cases h
    rw [List.map_cons, List.sum_cons] at hroom
    obtain ⟨hfirst, hothers⟩ := hroom.sub
    have hlen : (arg ++ [0]).length = arg.length + 1 := by simp
    rw [← hlen] at hfirst hothers
    rw [← push_sp hpush] at hothers
    exact (push_sameLow hpush hfirst).trans (ih hrest hothers)

/-- The words. -/
theorem pushWords_sameLow {ws : List UInt64} (h : pushWords t ws b = .ok b')
    (hroom : HasRoom b.sp (8 * ws.length)) : SameLow b.mem b'.mem := by
  induction ws generalizing b with
  | nil =>
    cases h
    exact SameLow.refl _
  | cons w ws ih =>
    unfold pushWords at h
    split at h
    · cases h
    rename_i b₁ hpush
    rw [List.length_cons, Nat.mul_succ, Nat.add_comm] at hroom
    obtain ⟨hfirst, hothers⟩ := hroom.sub
    rw [← length_wordBytes w] at hfirst hothers
    rw [← push_sp hpush] at hothers
    exact (push_sameLow hpush hfirst).trans (ih h hothers)

/-- The setup of the user stack does not change the lowest 4 GiB of the memory. -/
theorem setupStack_sameLow (h : setupStack t mem args = .ok b)
    (hargs : argumentBlock args ≤ 2 ^ 46 - 2 ^ 32) : SameLow mem b.mem := by
  unfold setupStack at h
  split at h
  · cases h
  rename_i ptrs b₁ hstrings
  split at h
  · cases h
  rename_i b₂ hwords
  obtain ⟨hsp₁, hlen⟩ := pushArgs_sp hstrings
  have hcount : (0 :: 0 :: ptrs.reverse ++ [UInt64.ofNat ptrs.length]).length
      = (args.take MAX_ARGV).length + 3 := by
    rw [← hlen]
    simp
  have hblock : argumentBlock args = (argumentBytes args + 15) / 16 * 16 + 8 := rfl
  have htop : HasRoom USER_STACK_TOP (argumentBytes args) := by
    have htop : USER_STACK_TOP.toNat = 2 ^ 46 := by decide
    unfold HasRoom
    omega
  have hsp₂ : b₂.sp = USER_STACK_TOP - UInt64.ofNat (argumentBytes args) := by
    rw [pushWords_sp hwords, hsp₁, sub_sub, ← UInt64.ofNat_add, hcount, argumentBytes]
  obtain ⟨hroom₁, hroom₂⟩ := htop.sub
  rw [← hcount] at hroom₂
  rw [← hsp₁] at hroom₂
  -- The slot of the return address is below the next address that ends in 0.
  have hmask : (b₂.sp &&& ~~~0xF).toNat = b₂.sp.toNat / 16 * 16 := by
    have hlt := b₂.sp.toNat_lt
    rw [toNat_and_shifted_mask _ (~~~0xF) 60 4 (by decide)]
    omega
  have hlastRoom : HasRoom (b₂.sp &&& ~~~0xF) (wordBytes 0).length := by
    have hnat := htop.toNat_sub
    rw [← hsp₂] at hnat
    have htopNat : USER_STACK_TOP.toNat = 2 ^ 46 := by decide
    rw [length_wordBytes]
    unfold HasRoom
    omega
  have hstrings' := pushArgs_sameLow hstrings hroom₁
  have hwords' := pushWords_sameLow hwords hroom₂
  have hslot := push_sameLow h hlastRoom
  exact (hstrings'.trans hwords').trans hslot

/-! ### The image -/

/-- A segment as the program sees it: the byte at each address is that of the file, or 0 behind
those, and its page has the permissions of the header. -/
def SegmentLoaded (t : PageTree 3) (mem : Bytes) (file : List UInt8) (bias : UInt64)
    (ph : ProgramHeader) : Prop :=
  ∀ k, k < ph.filesz.toNat ∨ k < ph.memsz.toNat → ∃ pte,
    readLeaf t (ph.vaddr + bias + UInt64.ofNat k) = some pte ∧
    pteIsPresent pte = true ∧ pteIsUser pte = true ∧
    (pteIsWritable pte = true ↔ ph.flags &&& 2 ≠ 0) ∧
    (pteIsExecutable pte = true ↔ ph.flags &&& 1 ≠ 0) ∧
    some (mem ((pteFollow pte).toNat
        + (pageOffset (ph.vaddr + bias + UInt64.ofNat k)).toNat))
      = if k < ph.filesz.toNat then file[ph.off.toNat + k]? else some 0

/-- The contents of an executable, with its load bias and the headers of its segments. -/
structure Executable where
  file : List UInt8
  bias : UInt64
  segments : List ProgramHeader

/-- The executable of a call. -/
def executable (s : ExecState) (c : ExecCall) : Option Executable :=
  match fsOpen s.vars c.path c.workingDirectory 0 c.date with
  | .ok (some i, vars) =>
    match readElfHeader vars i with
    | none => none
    | some elf => (loadBias elf).map fun bias =>
        ⟨fileContent vars i, bias, loadHeaders vars i elf.phnum.toNat elf.phoff⟩
  | _ => none

/-- The executable of a call whose header is read. -/
theorem executable_eq {vars : FsVars} {i : InodePtr} {elf : ElfHeader}
    (hopen : fsOpen s.vars c.path c.workingDirectory 0 c.date = .ok (some i, vars))
    (helf : readElfHeader vars i = some elf) (hbias : loadBias elf = some bias) :
    executable s c = some
      ⟨fileContent vars i, bias, loadHeaders vars i elf.phnum.toNat elf.phoff⟩ := by
  rw [executable, hopen]
  show (match readElfHeader vars i with | none => none | some elf => _) = _
  rw [helf]
  show (loadBias elf).map _ = _
  rw [hbias]
  rfl

/-- The new address space has the image of the file. -/
def ImageLoaded (s : ExecState) (c : ExecCall) (o : ExecOutcome) : Prop :=
  ∀ e ∈ executable s c, ∀ ph ∈ e.segments,
    SegmentLoaded (o.state.procs.pagetable c.p) o.state.mem e.file e.bias ph

/-- The segments are in reach of the loader, and the arguments end above 4 GiB. -/
def ImageInReach (s : ExecState) (c : ExecCall) : Prop :=
  argumentBlock c.args ≤ 2 ^ 46 - 2 ^ 32 ∧
    ∀ e ∈ executable s c, ∀ ph ∈ e.segments, InReach e.bias ph

instance (s : ExecState) (c : ExecCall) : Decidable (ImageInReach s c) :=
  inferInstanceAs (Decidable (_ ∧ ∀ e ∈ executable s c, ∀ ph ∈ e.segments, InReach e.bias ph))

/-- A segment that was loaded is there for the program too. -/
theorem SegmentIn.loaded {space : UserSpace} {file : List UInt8} {ph : ProgramHeader}
    (h : SegmentIn space S file bias ph) (hreach : InReach bias ph) (hlow : SameLow space.mem mem) :
    SegmentLoaded space.pagetable mem file bias ph := by
  intro k hk
  have hsize := UInt64.le_iff_toNat_le.mp h.size
  have hk' : k < ph.memsz.toNat := by omega
  have hstart := hreach.start
  have hpages := hreach.size
  have hva : (ph.vaddr + bias + UInt64.ofNat k).toNat = segmentStart bias ph + k := by
    rw [UInt64.toNat_add, UInt64.toNat_ofNat', ← segmentStart]
    omega
  have hlo : segmentStart bias ph ≤ segmentStart bias ph + k := Nat.le_add_right _ _
  have hhi : segmentStart bias ph + k < segmentStart bias ph + ph.memsz.toNat := by omega
  obtain ⟨f, hf, hentry⟩ := h.entry _ hlo hhi
  have hbyte := h.byte _ hlo hhi
  obtain ⟨hpresent, huser, hwritable, hexecutable⟩ := buildPte_flags f (flags2perm ph.flags)
  obtain ⟨hal, hlt⟩ := hf
  have hfollow : (pteFollow (buildPte f (flags2perm ph.flags))).toNat = f.toNat := by
    rw [pteFollow_buildPte _ hal (by omega)]
  refine ⟨buildPte f (flags2perm ph.flags), ?_, hpresent, huser, ?_, ?_, ?_⟩
  · rw [← hva, pageEntry_pageVa] at hentry
    exact (pageEntry_eq_some.mp hentry).1
  · rw [hwritable]
    exact decide_eq_true_iff
  · rw [hexecutable]
    exact decide_eq_true_iff
  · rw [hfollow, toNat_pageOffset, hva, hlow _ (by omega)]
    rw [view, frameOf_buildPte ⟨hal, hlt⟩ hentry, segmentByte, Nat.add_sub_cancel_left] at hbyte
    rw [hbyte]
    split
    · rename_i hfile
      have hin := h.inFile (by omega)
      rw [List.getD_eq_getElem _ _ (by omega), List.getElem?_eq_getElem (by omega)]
    · rfl

/-- The image of an accepted program is that of its file, if the segments are in reach. The pages
are those of the page allocator. -/
theorem image_loaded (hpages : HandedOut c.pages) (h : procExec s c = .ok o)
    (hpid : o.pid.isSome) (hreach : ImageInReach s c) : ImageLoaded s c o := by
  cases procExec_cases h with
  | notOpened => cases hpid
  | notElf => cases hpid
  | noSlot => cases hpid
  | rejected => cases hpid
  | @started vars i elf procs pages bias l _ hopen helf hmagic hproc hbias hload hstart =>
    have hexecutable := executable_eq hopen helf hbias
    obtain ⟨hargs, hsegments⟩ := hreach
    -- The new table takes its pages from the front of the supply, and no segment is there yet.
    have hsupply : Supply pages := hpages.supply.suffix
      (vmmUserPagetableNew_entries (procAllocate_allocated hproc).table).2
    have hstarted : Loaded (fileContent vars i) bias ∅
        (⟨procs.pagetable c.p, s.mem, pages, [], c.recycled⟩ : UserSpace) ∅ := {
      frames := ⟨hsupply, fun _ h => absurd h (Set.notMem_empty _),
        fun _ h => absurd h (Set.notMem_empty _)⟩
      segment := fun _ h => absurd h (Set.notMem_empty _) }
    obtain ⟨S, hall⟩ := hstarted.loadPrograms (hsegments _ hexecutable) hload
    have hlow : SameLow l.space.mem o.state.mem := setupStack_sameLow hstart.stack hargs
    intro e he ph hph
    rw [hexecutable] at he
    cases he
    rw [hstart.pagetable]
    exact (hall.segment ph (Or.inr hph)).loaded (hsegments _ hexecutable ph hph) hlow

/-! ### Two programs with one segment -/

/-- An executable with one program header, and `rest` behind it. -/
def oneSegment (ph : ProgramHeader) (rest : List UInt8) : List UInt8 :=
  elfBytes { magic := ELF_MAGIC, type := ELF_ET_EXEC, entry := 0x400000, phoff := 64, phnum := 1 }
    ++ (programHeaderBytes ph ++ rest)

/-- The outcome of the call that starts it with one argument. -/
def oneSegmentOutcome (ph : ProgramHeader) (rest : List UInt8) : Option ExecOutcome :=
  (procExec (machineWith (oneSegment ph rest)) (execF [[97]])).toOption

/-- The ledger after some calls of the allocator. -/
def ledgerAfter (l : Ledger) : List PageOp → Option Ledger
  | [] => some l
  | op :: ops =>
    match l.step op with
    | .error _ => none
    | .ok l => ledgerAfter l ops

/-- Single pages and the blocks of the stacks are allowed requests. -/
theorem reachable_ledgerAfter {s₀ : MemState} {l l' : Ledger} {ops : List PageOp}
    (hl : Ledger.Reachable s₀ l) (hops : ∀ op ∈ ops, op = .kalloc ∨ op = .kallocPages 8)
    (h : ledgerAfter l ops = some l') : Ledger.Reachable s₀ l' := by
  induction ops generalizing l with
  | nil =>
    cases h
    exact hl
  | cons op ops ih =>
    unfold ledgerAfter at h
    split at h
    · cases h
    rename_i l₁ hstep
    have hallowed : l.Allowed op := by
      rcases hops op List.mem_cons_self with rfl | rfl
      · trivial
      · show (8 : UInt64).toNat ≤ 2 ^ 20
        decide
    exact ih (hl.step hallowed hstep) (fun op' hop' => hops op' (List.mem_cons_of_mem op hop')) h

/-- The allocator of a new machine with 57 pages at 1 MiB. -/
def execMemory : MemState :=
  { MemState.boot Bytes.zero with
    hhdmOffset := 0xFFFF800000000000
    regions := [{ physCur := 0x100000, physEnd := 0x139000 }] }

/-- It hands out the pages of the call. -/
theorem execPages_handedOut : HandedOut execPages := by
  have hregions : RegionsOk execMemory.regions :=
    { aligned := fun r hr => by
        rw [List.mem_singleton.mp hr]
        exact ⟨by decide, by decide, by decide⟩
      disjoint := List.pairwise_singleton _ _ }
  have hrun : (ledgerAfter ⟨execMemory, []⟩ (.kalloc :: .kallocPages 8 :: .kallocPages 8 ::
      .kallocPages 8 :: List.replicate 32 .kalloc)).map (fun l => decide
        (l.out.reverse.map (fun b => l.state.V2P b.1) = execPages ∧ ∀ b ∈ l.out, 0 < b.2))
      = some true := by
    decide +kernel
  obtain ⟨l, hl, hout⟩ := Option.map_eq_some_iff.mp hrun
  obtain ⟨hpages, hpos⟩ := of_decide_eq_true hout
  have hreach := reachable_ledgerAfter .init (fun op hop => by
    simp only [List.mem_cons, List.mem_replicate] at hop
    rcases hop with rfl | rfl | rfl | rfl | ⟨-, rfl⟩ <;> simp) hl
  rw [← hpages]
  exact .intro rfl hregions (fun r hr => by rw [List.mem_singleton.mp hr]; decide) hreach
    (List.reverse_perm l.out).subperm fun b hb => hpos b (List.mem_reverse.mp hb)

/-- The law for a segment that starts and ends inside a page, with zeros on the next one. -/
theorem image_loaded_twoPages :
    let ph : ProgramHeader :=
      { type := ELF_PROG_LOAD, flags := 6, off := 120, vaddr := 0x400FF8, filesz := 16,
        memsz := 32 }
    ∃ o, procExec (machineWith (oneSegment ph (List.replicate 16 7))) (execF [[97]]) = .ok o ∧
      ImageLoaded (machineWith (oneSegment ph (List.replicate 16 7))) (execF [[97]]) o := by
  intro ph
  have hrun : (oneSegmentOutcome ph (List.replicate 16 7)).map (fun o => o.pid.isSome)
      = some true := by
    decide +kernel
  obtain ⟨o, ho, hpid⟩ := Option.map_eq_some_iff.mp hrun
  have hcall := eq_ok_of_toOption ho
  exact ⟨o, hcall, image_loaded execPages_handedOut hcall hpid (by decide +kernel)⟩

/-- The header of a segment for the top page of the user stack, that may only be read. -/
def stackSegment : ProgramHeader :=
  { type := ELF_PROG_LOAD, flags := 4, off := 0, vaddr := 0x3FFFFFFFF000, filesz := 16,
    memsz := 16 }

/-- The segment is accepted: its page is made at the low 32 bits of the address, and its bytes go to
the stack, where the program can write them. -/
theorem stackSegment_writable :
    ∃ o, procExec (machineWith (oneSegment stackSegment [])) (execF [[97]]) = .ok o ∧
      o.pid.isSome ∧ HandedOut (execF [[97]]).pages ∧
      (readLeaf (o.state.procs.pagetable 1) stackSegment.vaddr).map pteIsWritable = some true ∧
      ¬ ImageLoaded (machineWith (oneSegment stackSegment [])) (execF [[97]]) o := by
  have hrun : (oneSegmentOutcome stackSegment []).map (fun o => decide (o.pid.isSome ∧
      (readLeaf (o.state.procs.pagetable 1) stackSegment.vaddr).map pteIsWritable = some true))
      = some true := by
    decide +kernel
  have hexecutable : (executable (machineWith (oneSegment stackSegment [])) (execF [[97]])).map
      (fun e => (e.bias, e.segments)) = some (0, [stackSegment]) := by
    decide +kernel
  obtain ⟨o, ho, hbad⟩ := Option.map_eq_some_iff.mp hrun
  obtain ⟨e, he, hparts⟩ := Option.map_eq_some_iff.mp hexecutable
  obtain ⟨hpid, hwritable⟩ := of_decide_eq_true hbad
  obtain ⟨hbias, hsegments⟩ := Prod.mk.inj hparts
  refine ⟨o, eq_ok_of_toOption ho, hpid, execPages_handedOut, hwritable, fun himage => ?_⟩
  have hsegment := himage e he stackSegment (by rw [hsegments]; exact List.mem_singleton_self _)
  rw [hbias] at hsegment
  obtain ⟨pte, hleaf, -, -, hflag, -⟩ := hsegment 0 (Or.inl (by decide))
  have hva : stackSegment.vaddr + 0 + UInt64.ofNat 0 = stackSegment.vaddr := by decide
  rw [hva] at hleaf
  have hpte : pteIsWritable pte = true := by
    have hsome := hwritable
    rw [show (execF [[97]]).p = 1 from rfl] at hleaf
    rw [hleaf] at hsome
    exact Option.some.inj hsome
  exact absurd (hflag.mp hpte) (by decide)

end DzOS.Proofs.Userspace
