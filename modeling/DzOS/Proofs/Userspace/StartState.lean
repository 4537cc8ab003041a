import DzOS.Proofs.Mem.UserSpace
import DzOS.Proofs.Userspace.Exec

/-!
# `DzOS.Proofs.Userspace.StartState`: where an accepted program starts

`context_switch_to_user` loads `ctx.rip` and `ctx.rsp` as they are. They should be an address of
the user half and an address in the user stack (`StartsInUserSpace`). `proc_exec` adds a load bias
to the entry of the file and checks neither, and it does not compare the size of the arguments
with the size of the stack.

`starts_in_userspace_iff` is the exact condition: the entry leads to the user half (`EntryOk`), and
the block that the arguments make fits into the stack (`argumentBlock`).
-/

set_option autoImplicit false

namespace DzOS.Proofs.Userspace

open DzOS.Lib DzOS.Mem DzOS.Fs DzOS.Userspace DzOS.Proofs.Mem
open DzOS.Sched (ProcState ProcPtr procAllocate isValidProcessInit)

variable {bias : UInt64} {mem : Bytes} {i : InodePtr} {l l' : Loading} {ok : Bool} {vars : FsVars}
  {args : List (List UInt8)} {s : ExecState} {c : ExecCall} {o : ExecOutcome} {t : PageTree 3}
  {b b' : StackBlock}

/-! ### The loading keeps the stack -/

/-- Loading a segment only adds pages. -/
theorem loadProgram_grown {ph : ProgramHeader} (h : loadProgram vars i bias ph l = .ok (ok, l')) :
    Grown l.space.pagetable l'.space.pagetable l.space.pages l'.space.pages := by
  unfold loadProgram at h
  split at h
  · cases h
    exact Grown.refl _ _
  dsimp only at h
  split at h
  · cases h
    exact Grown.refl _ _
  split at h
  · cases h
  rename_i r space halloc
  have hgrown := vmmAllocate_grown halloc
  split at h
  · cases h
    exact hgrown
  split at h
  · cases h
  split at h
  · cases h
    exact hgrown
  · cases h
    exact hgrown

/-- So does loading all segments. -/
theorem loadPrograms_grown {left : Nat} {off : UInt64}
    (h : loadPrograms vars i bias left off l = .ok (ok, l')) :
    Grown l.space.pagetable l'.space.pagetable l.space.pages l'.space.pages := by
  induction left generalizing off l with
  | zero =>
    cases h
    exact Grown.refl _ _
  | succ left ih =>
    unfold loadPrograms at h
    split at h
    · cases h
      exact Grown.refl _ _
    dsimp only at h
    split at h
    · exact ih h
    split at h
    · cases h
    · rename_i hload
      cases h
      exact loadProgram_grown hload
    · rename_i hload
      exact (loadProgram_grown hload).trans (ih h)

/-! ### The arguments -/

/-- The bytes that the arguments take: the strings with their ends, the pointers with the ends of
the two lists, and the number of arguments. -/
def argumentBytes (args : List (List UInt8)) : Nat :=
  ((args.take MAX_ARGV).map fun arg => arg.length + 1).sum + 8 * ((args.take MAX_ARGV).length + 3)

/-- The bytes between `rsp` and the top of the user stack. -/
def argumentBlock (args : List (List UInt8)) : Nat := (argumentBytes args + 15) / 16 * 16 + 8

/-- A push moves the stack pointer by the length of the data. -/
theorem push_sp {source : List UInt8} (h : b.push t source = .ok b') :
    b'.sp = b.sp - UInt64.ofNat source.length := by
  unfold StackBlock.push at h
  dsimp only at h
  split at h
  · cases h
  · cases h
    rfl

@[simp] theorem length_wordBytes (w : UInt64) : (wordBytes w).length = 8 :=
  Bytes.length_slice _ 0 8

/-- The strings. -/
theorem pushArgs_sp {ptrs : List UInt64} (h : pushArgs t args b = .ok (ptrs, b')) :
    b'.sp = b.sp - UInt64.ofNat (args.map fun arg => arg.length + 1).sum ∧
      ptrs.length = args.length := by
  induction args generalizing b ptrs with
  | nil =>
    cases h
    exact ⟨(sub_zero _).symm, rfl⟩
  | cons arg args ih =>
    unfold pushArgs at h
    split at h
    · cases h
    rename_i b₁ hpush
    split at h
    · cases h
    rename_i ptrs₁ b₂ hrest
    cases h
    obtain ⟨hsp, hlen⟩ := ih hrest
    have hfirst := push_sp hpush
    constructor
    · rw [hsp, hfirst, sub_sub, ← UInt64.ofNat_add]
      simp
    · simp [hlen]

/-- The words. -/
theorem pushWords_sp {ws : List UInt64} (h : pushWords t ws b = .ok b') :
    b'.sp = b.sp - UInt64.ofNat (8 * ws.length) := by
  induction ws generalizing b with
  | nil =>
    cases h
    exact (sub_zero _).symm
  | cons w ws ih =>
    unfold pushWords at h
    split at h
    · cases h
    rename_i b₁ hpush
    rw [ih h, push_sp hpush, length_wordBytes, sub_sub, ← UInt64.ofNat_add, List.length_cons]
    congr 2
    omega

/-- The stack pointer after the setup. -/
theorem setupStack_sp (h : setupStack t mem args = .ok b) :
    b.sp = ((USER_STACK_TOP - UInt64.ofNat (argumentBytes args)) &&& ~~~0xF) - 8 := by
  unfold setupStack at h
  split at h
  · cases h
  rename_i ptrs b₁ hargs
  split at h
  · cases h
  rename_i b₂ hwords
  obtain ⟨hsp, hlen⟩ := pushArgs_sp hargs
  have hcount : (0 :: 0 :: ptrs.reverse ++ [UInt64.ofNat ptrs.length]).length
      = (args.take MAX_ARGV).length + 3 := by
    rw [← hlen]
    simp
  have hbytes : b₂.sp = USER_STACK_TOP - UInt64.ofNat (argumentBytes args) := by
    rw [pushWords_sp hwords, hsp, sub_sub, ← UInt64.ofNat_add, hcount, argumentBytes]
  rw [push_sp h, length_wordBytes, hbytes]
  rfl

/-- The strings are shorter than the address space, so the size of the arguments is no problem for
64 bits. -/
theorem argumentBytes_lt (h : ∀ arg ∈ args, arg.length < 2 ^ 47) : argumentBytes args < 2 ^ 60 := by
  have hlen : (args.take MAX_ARGV).length ≤ 32 := List.length_take_le _ _
  have hsum : ((args.take MAX_ARGV).map fun arg => arg.length + 1).sum
      ≤ (args.take MAX_ARGV).length * 2 ^ 47 := by
    have hcard := List.sum_le_card_nsmul ((args.take MAX_ARGV).map fun arg => arg.length + 1)
      (2 ^ 47) fun n hn => by
        obtain ⟨arg, harg, rfl⟩ := List.mem_map.mp hn
        exact h arg (List.mem_of_mem_take harg)
    simpa using hcard
  unfold argumentBytes
  have hmul : (args.take MAX_ARGV).length * 2 ^ 47 ≤ 32 * 2 ^ 47 := Nat.mul_le_mul_right _ hlen
  omega

/-- The stack pointer as a number, when the arguments fit into the address space. -/
theorem toNat_setupStack_sp (h : setupStack t mem args = .ok b)
    (hargs : argumentBytes args < 2 ^ 60) :
    b.sp.toNat = ((2 ^ 46 + (2 ^ 64 - argumentBytes args)) % 2 ^ 64 / 16 * 16 + (2 ^ 64 - 8))
      % 2 ^ 64 := by
  have htop : USER_STACK_TOP.toNat = 2 ^ 46 := by decide
  have hsize : (UInt64.ofNat (argumentBytes args)).toNat = argumentBytes args :=
    UInt64.toNat_ofNat_of_lt' (by show argumentBytes args < 2 ^ 64; omega)
  have height : (8 : UInt64).toNat = 8 := rfl
  rw [setupStack_sp h, UInt64.toNat_sub, toNat_and_shifted_mask _ (~~~0xF) 60 4 (by decide),
    UInt64.toNat_sub, htop, hsize, height]
  omega

/-- The stack pointer is in the user stack exactly if the arguments fit. -/
theorem rsp_in_stack_iff (h : setupStack t mem args = .ok b) (hargs : argumentBytes args < 2 ^ 60) :
    (USER_STACK_BOTTOM ≤ b.sp ∧ b.sp < USER_STACK_TOP) ↔
      argumentBlock args ≤ USER_STACK_SIZE.toNat := by
  have htop : USER_STACK_TOP.toNat = 2 ^ 46 := by decide
  have hbottom : USER_STACK_BOTTOM.toNat = 2 ^ 46 - 0x8000 := by decide
  have hsize : USER_STACK_SIZE.toNat = 0x8000 := by decide
  rw [UInt64.le_iff_toNat_le, UInt64.lt_iff_toNat_lt, htop, hbottom, hsize,
    toNat_setupStack_sp h hargs, argumentBlock]
  omega

/-! ### The start -/

/-- The program starts at an address of the user half, on a page of its stack that it may read and
write. -/
structure StartsInUserSpace (o : ExecOutcome) (p : ProcPtr) : Prop where
  rip : USERSPACE_VA_MIN ≤ (o.state.programs p).rip ∧ (o.state.programs p).rip < USERSPACE_VA_MAX
  rsp : USER_STACK_BOTTOM ≤ (o.state.programs p).rsp ∧ (o.state.programs p).rsp < USER_STACK_TOP
  mapped : ∃ pte, readLeaf (o.state.procs.pagetable p) (o.state.programs p).rsp = some pte ∧
    pteIsPresent pte = true ∧ pteIsUser pte = true ∧ pteIsWritable pte = true

/-- The file header of the executable. -/
def execHeader (s : ExecState) (c : ExecCall) : Option ElfHeader :=
  match fsOpen s.vars c.path c.workingDirectory 0 c.date with
  | .ok (some i, vars) => readElfHeader vars i
  | _ => none

/-- The entry leads to the user half. A position independent executable has
`USER_DEFAULT_LOAD_BASE` added to it. -/
def EntryOk (elf : ElfHeader) : Prop :=
  elf.entry < USERSPACE_VA_MAX - (if elf.type = ELF_ET_DYN then USER_DEFAULT_LOAD_BASE else 0)

instance (elf : ElfHeader) : Decidable (EntryOk elf) := inferInstanceAs (Decidable (_ < _))

/-- The entry leads to the user half, and the arguments fit into the user stack. -/
def StartOk (s : ExecState) (c : ExecCall) : Prop :=
  (∀ elf ∈ execHeader s c, EntryOk elf) ∧ argumentBlock c.args ≤ USER_STACK_SIZE.toNat

instance (s : ExecState) (c : ExecCall) : Decidable (StartOk s c) :=
  inferInstanceAs (Decidable (_ ∧ _))

/-- The entry with its load bias is in the user half exactly if the entry is good. -/
theorem rip_in_userspace_iff {elf : ElfHeader} (h : loadBias elf = some bias) :
    (USERSPACE_VA_MIN ≤ bias + elf.entry ∧ bias + elf.entry < USERSPACE_VA_MAX) ↔ EntryOk elf := by
  have hmin : USERSPACE_VA_MIN.toNat = 2 ^ 22 := toNat_USERSPACE_VA_MIN
  have hmax : USERSPACE_VA_MAX.toNat = 2 ^ 46 := toNat_USERSPACE_VA_MAX
  have hbase : USER_DEFAULT_LOAD_BASE.toNat = 2 ^ 22 := by decide
  have hentry := elf.entry.toNat_lt
  unfold EntryOk
  unfold loadBias at h
  split at h
  · rename_i hdyn
    cases h
    have hlimit : (USERSPACE_VA_MAX - USER_DEFAULT_LOAD_BASE).toNat = 2 ^ 46 - 2 ^ 22 := by decide
    rw [if_pos hdyn, UInt64.le_iff_toNat_le, UInt64.lt_iff_toNat_lt, UInt64.lt_iff_toNat_lt,
      UInt64.toNat_add, hmin, hmax, hbase, hlimit]
    omega
  rename_i hdyn
  rw [if_neg hdyn, sub_zero]
  split at h
  · split at h
    · rename_i hout
      cases h
      rw [UInt64.le_iff_toNat_le, UInt64.lt_iff_toNat_lt, UInt64.lt_iff_toNat_lt,
        UInt64.toNat_add, hmin, hmax, hbase]
      have hcases : elf.entry.toNat < 2 ^ 22 ∨ 2 ^ 46 ≤ elf.entry.toNat := by
        rcases hout with hzero | hlow | hhigh
        · rw [hzero]
          exact Or.inl (by decide)
        · rw [UInt64.lt_iff_toNat_lt, hmin] at hlow
          exact Or.inl hlow
        · rw [ge_iff_le, UInt64.le_iff_toNat_le, hmax] at hhigh
          exact Or.inr hhigh
      omega
    · rename_i hin
      cases h
      rw [not_or, not_or, UInt64.not_lt] at hin
      rw [zero_add]
      exact and_iff_right hin.2.1
  · cases h

/-- An accepted program starts in user space exactly if its entry leads to the user half and its
arguments fit into the stack. The arguments are strings in memory. -/
theorem starts_in_userspace_iff (h : procExec s c = .ok o) (hpid : o.pid.isSome)
    (hargs : ∀ arg ∈ c.args, arg.length < 2 ^ 47) :
    StartsInUserSpace o c.p ↔ StartOk s c := by
  cases procExec_cases h with
  | notOpened => cases hpid
  | notElf => cases hpid
  | noSlot => cases hpid
  | rejected => cases hpid
  | @started vars i elf procs pages bias l _ hopen helf hmagic hproc hbias hload hstart =>
    have hsize := argumentBytes_lt hargs
    have hrip : USERSPACE_VA_MIN ≤ (o.state.programs c.p).rip ∧
        (o.state.programs c.p).rip < USERSPACE_VA_MAX ↔ EntryOk elf := by
      rw [hstart.rip]
      exact rip_in_userspace_iff hbias
    have hrsp := rsp_in_stack_iff hstart.stack hsize
    have hheader : execHeader s c = some elf := by
      rw [execHeader, hopen]
      exact helf
    -- The kernel stack was mapped, so the memory was enough for the user stack before.
    have hgrown := loadPrograms_grown hload
    have hstack : HasUserStack (o.state.procs.pagetable c.p) := by
      rw [hstart.pagetable]
      rcases (vmmUserPagetableNew_entries (procAllocate_allocated hproc).table).1 with hout | hstack
      · obtain ⟨top, t, rest, hkernel⟩ := hstart.kernelStack
        have hsuffix := hgrown.supply
        rw [show (⟨⟨procs.pagetable c.p, s.mem, pages, [], c.recycled⟩, 0⟩ : Loading).space.pages
          = [] from hout] at hsuffix
        rw [List.suffix_nil.mp hsuffix] at hkernel
        exact absurd hkernel vmmAllocateProcKernelStack_nil
      · exact hstack.keeps hgrown.keeps
    constructor
    · intro hstarts
      refine ⟨fun elf' helf' => ?_, hrsp.mp hstarts.rsp⟩
      rw [hheader] at helf'
      cases helf'
      exact hrip.mp hstarts.rip
    · rintro ⟨hentry, hblock⟩
      have hin := hrsp.mpr hblock
      obtain ⟨frame, hframe⟩ := hstack.entry hin.1 hin.2
      obtain ⟨hleaf, hpresent⟩ := pageEntry_eq_some.mp hframe
      obtain ⟨-, huser, hwritable, -⟩ := buildPte_flags frame userStackPermissions
      exact {
        rip := hrip.mpr (hentry elf hheader)
        rsp := hin
        mapped := ⟨_, hleaf, hpresent, huser, hwritable⟩ }

/-! ### Two programs without segments -/

/-- A program that starts at the address `entry`. -/
def startAt (entry : UInt64) : List UInt8 :=
  elfBytes { magic := ELF_MAGIC, type := ELF_ET_EXEC, entry := entry, phoff := 0, phnum := 0 }

/-- The outcome of the call that starts this program with one argument. -/
def startAtOutcome (entry : UInt64) : Option ExecOutcome :=
  (procExec (machineWith (startAt entry)) (execF [[97]])).toOption

/-- The law for a program that starts at the bottom of the user half. -/
theorem starts_in_userspace_iff_bottom :
    ∃ o, procExec (machineWith (startAt 0x400000)) (execF [[97]]) = .ok o ∧
      (StartsInUserSpace o 1 ↔ StartOk (machineWith (startAt 0x400000)) (execF [[97]])) := by
  have hrun : (startAtOutcome 0x400000).map (fun o => o.pid.isSome) = some true := by
    decide +kernel
  obtain ⟨o, ho, hpid⟩ := Option.map_eq_some_iff.mp hrun
  have hcall := eq_ok_of_toOption ho
  exact ⟨o, hcall, starts_in_userspace_iff hcall hpid (by decide)⟩

/-- A program whose entry is no canonical address is accepted, and it starts there. -/
theorem noncanonical_entry_accepted :
    ∃ o, procExec (machineWith (startAt 0x8000000000000000)) (execF [[97]]) = .ok o ∧
      o.pid.isSome ∧ (o.state.programs 1).rip = 0x8000000000400000 ∧
      canonical (o.state.programs 1).rip = false ∧ ¬ StartsInUserSpace o 1 := by
  have hrun : (startAtOutcome 0x8000000000000000).map (fun o =>
      decide (o.pid.isSome ∧ (o.state.programs 1).rip = 0x8000000000400000)) = some true := by
    decide +kernel
  obtain ⟨o, ho, hbad⟩ := Option.map_eq_some_iff.mp hrun
  obtain ⟨hpid, hrip⟩ := of_decide_eq_true hbad
  refine ⟨o, eq_ok_of_toOption ho, hpid, hrip, by rw [hrip]; decide, fun hstarts => ?_⟩
  have hmax := hstarts.rip.2
  rw [hrip] at hmax
  revert hmax
  decide

end DzOS.Proofs.Userspace
