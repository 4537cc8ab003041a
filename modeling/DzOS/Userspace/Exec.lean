import DzOS.Fs.File
import DzOS.Mem.UserSpace
import DzOS.Sched.Process

/-!
# `DzOS.Userspace.Exec`: loading a program, `exec.c`

`proc_exec` opens the executable, takes a slot of the process table, loads the segments into the
new address space, puts the arguments on the user stack and maps the kernel stack. A failure on
the way goes to the label `bad`, which closes the file and frees the address space.

`pages` are the addresses that the page allocator returns in the call, in their order, `recycled`
are those of them that were freed before, and the page of the new `struct process` is the argument
`p`. The outcome has the rest of the supply and the pages that the call gives back. The first
scheduling of the new process does not appear, and neither do its stack canary and the bytes that
the allocator fills the pages of its stacks with. `envp` of the source is the empty list.

The machine has no memory from 4 GiB on (`memoryEnd`): `init_mem` cuts the bounds of the regions to
32 bits, so the allocator hands out no page there anyway. A store of `vmm_memcpy` that goes 4 GiB
and more behind its frame is then a page fault of the kernel. The image of the kernel and its
stacks, far behind the direct map, count as not mapped for such a store.
-/

set_option autoImplicit false

namespace DzOS.Userspace

open DzOS.Lib DzOS.Mem DzOS.Fs
open DzOS.Sched (ProcState ProcPtr procAllocate)

/-! ### The executable -/

/-- `ELF_MAGIC`. -/
def ELF_MAGIC : UInt32 := 0x464C457F

/-- `ELF_ET_EXEC`: an executable file. -/
def ELF_ET_EXEC : UInt16 := 2

/-- `ELF_ET_DYN`: a position independent executable. -/
def ELF_ET_DYN : UInt16 := 3

/-- `ELF_PROG_LOAD`. -/
def ELF_PROG_LOAD : UInt32 := 1

/-- `sizeof(struct ElfHeader)`. -/
def ELF_HEADER_SIZE : Nat := 64

/-- `sizeof(struct ProgramHeader)`. -/
def PROGRAM_HEADER_SIZE : Nat := 56

/-- `USER_DEFAULT_LOAD_BASE`. -/
def USER_DEFAULT_LOAD_BASE : UInt64 := 0x00400000

/-- `MAX_ARGV`. -/
def MAX_ARGV : Nat := 32

/-- The fields of `struct ElfHeader` that `proc_exec` reads. -/
structure ElfHeader where
  magic : UInt32
  type : UInt16
  entry : UInt64
  phoff : UInt64
  phnum : UInt16
  deriving DecidableEq, Repr

/-- The fields of `struct ProgramHeader` that `proc_exec` reads. -/
structure ProgramHeader where
  type : UInt32
  flags : UInt32
  off : UInt64
  vaddr : UInt64
  filesz : UInt64
  memsz : UInt64
  deriving DecidableEq, Repr

/-- The structure that a buffer of bytes holds. -/
def ElfHeader.ofBytes (buffer : List UInt8) : ElfHeader :=
  let b := Bytes.zero.blit 0 buffer
  { magic := UInt32.ofNat (b.getLE 4 0)
    type := UInt16.ofNat (b.getLE 2 16)
    entry := UInt64.ofNat (b.getLE 8 24)
    phoff := UInt64.ofNat (b.getLE 8 32)
    phnum := UInt16.ofNat (b.getLE 2 56) }

/-- The structure that a buffer of bytes holds. -/
def ProgramHeader.ofBytes (buffer : List UInt8) : ProgramHeader :=
  let b := Bytes.zero.blit 0 buffer
  { type := UInt32.ofNat (b.getLE 4 0)
    flags := UInt32.ofNat (b.getLE 4 4)
    off := UInt64.ofNat (b.getLE 8 8)
    vaddr := UInt64.ofNat (b.getLE 8 16)
    filesz := UInt64.ofNat (b.getLE 8 32)
    memsz := UInt64.ofNat (b.getLE 8 40) }

/-- The read of the file header, with `none` for a short read. -/
def readElfHeader (vars : FsVars) (inode : InodePtr) : Option ElfHeader :=
  let (result, buffer) := fsRead vars inode ELF_HEADER_SIZE 0
  if result ≠ ELF_HEADER_SIZE then none else some (.ofBytes buffer)

/-- The read of the program header at `off`, with `none` for a short read. -/
def readProgramHeader (vars : FsVars) (inode : InodePtr) (off : UInt64) : Option ProgramHeader :=
  let (result, buffer) := fsRead vars inode PROGRAM_HEADER_SIZE off.toNat
  if result ≠ PROGRAM_HEADER_SIZE then none else some (.ofBytes buffer)

/-- `flags2perm`. -/
def flags2perm (flags : UInt32) : PtePermissions where
  executable := flags &&& 0x1 ≠ 0
  userspace := true
  writable := flags &&& 0x2 ≠ 0

/-- `load_bias`, and `none` for a type that is not supported. -/
def loadBias (elf : ElfHeader) : Option UInt64 :=
  if elf.type = ELF_ET_DYN then some USER_DEFAULT_LOAD_BASE
  else if elf.type = ELF_ET_EXEC then
    if elf.entry = 0 ∨ elf.entry < USERSPACE_VA_MIN ∨ elf.entry ≥ USERSPACE_VA_MAX then
      some USER_DEFAULT_LOAD_BASE
    else some 0
  else none

/-! ### Segments -/

/-- The end of the direct map. -/
def memoryEnd : Nat := 0x100000000

/-- The loop of `load_segment`, from the byte `i` on. The address of the data and its place in
the file have 64 and 32 bits. -/
def loadSegmentFrom (t : PageTree 3) (vars : FsVars) (inode : InodePtr) (va : UInt64)
    (offset sz : UInt32) : Nat → UInt32 → Bytes → Except String (Int × Bytes)
  | 0, _, mem => .ok (0, mem)
  | fuel + 1, i, mem =>
    if i < sz then
      let currentVa := va + i.toUInt64
      match walkAddr t currentVa true with
      | .error e => .error e
      | .ok physicalAddress =>
        if physicalAddress = 0 then .error "load_segment: address should exist"
        else
          let pageOff := pageOffset currentVa
          let nPage := PAGE_SIZE.toUInt64 - pageOff
          let remaining := (sz - i).toUInt64
          let n := if remaining < nPage then remaining else nPage
          let (result, buffer) := fsRead vars inode n.toNat (offset + i).toNat
          let mem := mem.blit (physicalAddress + pageOff).toNat buffer
          if result ≠ n.toNat then .ok (-1, mem)
          else loadSegmentFrom t vars inode va offset sz fuel (i + n.toUInt32) mem
    else .ok (0, mem)

/-- `load_segment`: the return value and the memory. -/
def loadSegment (t : PageTree 3) (mem : Bytes) (vars : FsVars) (inode : InodePtr) (va : UInt64)
    (offset sz : UInt32) : Except String (Int × Bytes) :=
  loadSegmentFrom t vars inode va offset sz sz.toNat 0 mem

/-- The contents of the segment `ph` at the address `va`: the bytes of the file, and zeros behind
them. The result is `false` where the source goes to `bad`. -/
def fillSegment (t : PageTree 3) (mem : Bytes) (vars : FsVars) (inode : InodePtr)
    (ph : ProgramHeader) (va : UInt64) : Except String (Bool × Bytes) :=
  match (if ph.filesz > 0 then
      loadSegment t mem vars inode va ph.off.toUInt32 ph.filesz.toUInt32 else .ok (0, mem)) with
  | .error e => .error e
  | .ok (r, mem) =>
    if r < 0 then .ok (false, mem)
    else if ph.memsz > ph.filesz then
      match vmmZero memoryEnd t mem (va + ph.filesz) (ph.memsz - ph.filesz) with
      | .error e => .error e
      | .ok (r, mem) => .ok (decide (0 ≤ r), mem)
    else .ok (true, mem)

/-- The address space during the loading, with `initial_data_segment`. -/
structure Loading where
  space : UserSpace
  initialDataSegment : UInt64

/-- The body of the loop over the program headers, for a header of the type `ELF_PROG_LOAD`. The
result is `false` where the source goes to `bad`. -/
def loadProgram (vars : FsVars) (inode : InodePtr) (bias : UInt64) (ph : ProgramHeader)
    (l : Loading) : Except String (Bool × Loading) :=
  if ph.memsz < ph.filesz then .ok (false, l)
  else
    let mappedVa := ph.vaddr + bias
    let mapStart := mappedVa &&& pageMask
    let mapOffset := mappedVa - mapStart
    let allocSize := PAGE_ROUND_UP (mapOffset + ph.memsz)
    if mapStart < USERSPACE_VA_MIN || mapStart + allocSize > USERSPACE_VA_MAX then .ok (false, l)
    else
      match l.space.vmmAllocate mapStart allocSize (flags2perm ph.flags) false with
      | .error e => .error e
      | .ok (r, space) =>
        if r = -1 then .ok (false, { l with space := space })
        else
          match fillSegment space.pagetable space.mem vars inode ph (mapStart + mapOffset) with
          | .error e => .error e
          | .ok (ok, mem) =>
            let l := { l with space := { space with mem := mem } }
            if !ok then .ok (false, l)
            else
              .ok (true, { l with
                initialDataSegment := max l.initialDataSegment (mapStart + allocSize) })

/-- The loop over the program headers: `left` more of them, the next one at `off`. -/
def loadPrograms (vars : FsVars) (inode : InodePtr) (bias : UInt64) :
    Nat → UInt64 → Loading → Except String (Bool × Loading)
  | 0, _, l => .ok (true, l)
  | left + 1, off, l =>
    match readProgramHeader vars inode off with
    | none => .ok (false, l)
    | some ph =>
      let next := off + UInt64.ofNat PROGRAM_HEADER_SIZE
      if ph.type ≠ ELF_PROG_LOAD then loadPrograms vars inode bias left next l
      else
        match loadProgram vars inode bias ph l with
        | .error e => .error e
        | .ok (false, l) => .ok (false, l)
        | .ok (true, l) => loadPrograms vars inode bias left next l

/-! ### The arguments -/

/-- The user stack during the setup: `sp` with the memory. -/
structure StackBlock where
  sp : UInt64
  mem : Bytes

/-- The eight bytes of a word. -/
def wordBytes (w : UInt64) : List UInt8 := (Bytes.zero.setLE 8 0 w.toNat).slice 0 8

/-- `sp -= len; vmm_memcpy(pagetable, sp, source, len, true)`. The return value is ignored. -/
def StackBlock.push (t : PageTree 3) (b : StackBlock) (source : List UInt8) :
    Except String StackBlock :=
  let sp := b.sp - UInt64.ofNat source.length
  match vmmMemcpy memoryEnd t b.mem sp source true with
  | .error e => .error e
  | .ok (_, mem) => .ok ⟨sp, mem⟩

/-- The loop that copies the argument strings. The first component is `argv_ptrs`. -/
def pushArgs (t : PageTree 3) :
    List (List UInt8) → StackBlock → Except String (List UInt64 × StackBlock)
  | [], b => .ok ([], b)
  | arg :: args, b =>
    match b.push t (arg ++ [0]) with
    | .error e => .error e
    | .ok b' =>
      match pushArgs t args b' with
      | .error e => .error e
      | .ok (ptrs, b) => .ok (b'.sp :: ptrs, b)

/-- Words are pushed one after the other. -/
def pushWords (t : PageTree 3) : List UInt64 → StackBlock → Except String StackBlock
  | [], b => .ok b
  | w :: ws, b =>
    match b.push t (wordBytes w) with
    | .error e => .error e
    | .ok b => pushWords t ws b

/-- The setup of the user stack: the strings, `envp`, `argv`, `argc`, and the slot of a return
address at an address that ends in 8. -/
def setupStack (t : PageTree 3) (mem : Bytes) (args : List (List UInt8)) :
    Except String StackBlock :=
  match pushArgs t (args.take MAX_ARGV) ⟨USER_STACK_TOP, mem⟩ with
  | .error e => .error e
  | .ok (argvPtrs, b) =>
    match pushWords t (0 :: 0 :: argvPtrs.reverse ++ [UInt64.ofNat argvPtrs.length]) b with
    | .error e => .error e
    | .ok b => StackBlock.push t { b with sp := b.sp &&& ~~~0xF } (wordBytes 0)

/-! ### `proc_exec` -/

/-- The fields of `struct process` that `proc_exec` sets, apart from those of `ProcState`. The
other fields of `ctx` are 0. -/
structure Program where
  rip : UInt64
  rsp : UInt64
  rflags : UInt64
  initialDataSegment : UInt64
  currentSbrk : UInt64
  kernelStackBase : UInt64
  files : FileProc

/-- The state of the kernel: the processes, the open files and the physical memory. -/
structure ExecState where
  procs : ProcState
  programs : ProcPtr → Program
  vars : FsVars
  mem : Bytes
  physMaxEnd : UInt64

/-- A call of `proc_exec`, with `current_date` and the index of the serial port. -/
structure ExecCall where
  path : List UInt8
  args : List (List UInt8)
  workingDirectory : Option InodePtr
  date : UInt64
  serial : Option Nat
  p : ProcPtr
  pages : List UInt64
  recycled : UInt64 → Bool

/-- What a call leaves: the process identifier, or `none` for -1, with the new state, the rest of
the supply and the pages that the call gave back. -/
structure ExecOutcome where
  pid : Option UInt64
  state : ExecState
  pages : List UInt64
  freed : List UInt64

/-- The label `bad` without a process: the file is closed. -/
def execBad (s : ExecState) (c : ExecCall) (procInode : InodePtr) : ExecOutcome :=
  ⟨none, { s with vars := fsClose s.vars procInode }, c.pages, []⟩

/-- The label `bad` with the process at `p`: its address space is freed too. The table itself is
the first page that the call took. -/
def execBadProc (s : ExecState) (c : ExecCall) (procInode : InodePtr) (space : UserSpace) :
    ExecOutcome where
  pid := none
  state := { s with
    procs := { s.procs with
      sched := s.procs.sched.setProc c.p fun proc => { proc with state := .UNUSED, pid := 0 }
      pagetable := Function.update s.procs.pagetable c.p space.pagetable }
    vars := fsClose s.vars procInode
    mem := space.mem }
  pages := space.pages
  freed := vmmUserPagetableFree s.physMaxEnd space.pagetable (c.pages.headD 0) ++ space.freed

/-- The working directory of the new process. -/
def execWorkingDirectory (vars : FsVars) (workingDirectory : Option InodePtr) (date : UInt64) :
    Except String (InodePtr × FsVars) :=
  match workingDirectory with
  | some i => .ok (i, fsDup vars i)
  | none =>
    match fsOpen vars [SLASH] none DZFS_O_DIR date with
    | .error e => .error e
    | .ok (none, _) => .error "exec: NULL working directory"
    | .ok (some i, vars) => .ok (i, vars)

/-- `proc_exec` from the setup of the user stack on. -/
def execStart (s : ExecState) (c : ExecCall) (procInode : InodePtr) (entryVirtual : UInt64)
    (l : Loading) : Except String ExecOutcome :=
  match setupStack l.space.pagetable l.space.mem c.args with
  | .error e => .error e
  | .ok b =>
    match c.serial with
    | none => .error "exec: no serial"
    | some serial =>
      match vmmAllocateProcKernelStack s.procs.kernel.kernelPagetable (s.procs.sched.procs c.p).i
          l.space.pages with
      | .error e => .error e
      | .ok (top, kernelPagetable, pages) =>
        match execWorkingDirectory (fsClose s.vars procInode) c.workingDirectory c.date with
        | .error e => .error e
        | .ok (workingDirectory, vars) =>
          .ok {
            pid := some (s.procs.sched.procs c.p).pid
            state := { s with
              procs := { s.procs with
                pagetable := Function.update s.procs.pagetable c.p l.space.pagetable
                kernelStackTop := Function.update s.procs.kernelStackTop c.p top
                kernel := { s.procs.kernel with kernelPagetable := kernelPagetable } }
              programs := Function.update s.programs c.p {
                rip := entryVirtual
                rsp := b.sp
                rflags := 0x202
                initialDataSegment := PAGE_ROUND_UP l.initialDataSegment
                currentSbrk := PAGE_ROUND_UP l.initialDataSegment
                kernelStackBase := top - KERNEL_STACK_SIZE
                files := ⟨standardFiles serial, workingDirectory⟩ }
              vars := vars
              mem := b.mem }
            pages := pages
            freed := l.space.freed }

/-- `proc_exec` from the load bias on, with the process at `p` and the pages that are left. -/
def execLoad (s : ExecState) (c : ExecCall) (procInode : InodePtr) (elf : ElfHeader)
    (pages : List UInt64) : Except String ExecOutcome :=
  let space : UserSpace := ⟨s.procs.pagetable c.p, s.mem, pages, [], c.recycled⟩
  match loadBias elf with
  | none => .ok (execBadProc s c procInode space)
  | some bias =>
    match loadPrograms s.vars procInode bias elf.phnum.toNat elf.phoff ⟨space, 0⟩ with
    | .error e => .error e
    | .ok (false, l) => .ok (execBadProc s c procInode l.space)
    | .ok (true, l) => execStart s c procInode (bias + elf.entry) l

/-- `proc_exec`. An error is a panic. -/
def procExec (s : ExecState) (c : ExecCall) : Except String ExecOutcome :=
  match fsOpen s.vars c.path c.workingDirectory 0 c.date with
  | .error e => .error e
  | .ok (none, vars) => .ok ⟨none, { s with vars := vars }, c.pages, []⟩
  | .ok (some procInode, vars) =>
    let s := { s with vars := vars }
    match readElfHeader vars procInode with
    | none => .ok (execBad s c procInode)
    | some elf =>
      if elf.magic ≠ ELF_MAGIC then .ok (execBad s c procInode)
      else
        match procAllocate s.procs c.p c.pages with
        | .error e => .error e
        | .ok none => .ok (execBad s c procInode)
        | .ok (some (procs, pages)) => execLoad { s with procs := procs } c procInode elf pages

end DzOS.Userspace
