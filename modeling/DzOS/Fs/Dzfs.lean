import DzOS.Lib.Bytes
import DzOS.Lib.Scan

/-!
# `DzOS.Fs.Dzfs`: the file system of `dzfs.c`

A disk is an array of blocks of 4096 bytes. Block 0 is the boot loader, block 1 the
superblock, and the free bitmap follows: bit `i` of it is 1 when block `i` is free. The root
folder comes after the bitmap. A file or folder is known by the number of its block, its
dnode.

`union dzFSBlock` overlays several structures on the bytes of a block, and the source reads
one block as different structures, so the model keeps the bytes (`Bytes`). The accessors
below read and write the fields at their offsets in the packed structures.

The functions that reach the disk (`read_block`, `write_block`) do not fail in this kernel,
and neither does the allocation of a block in memory, which returns a page of zeros. A path
or a name is the list of bytes before its `NUL`. `current_date` is an argument where the
source calls it.
-/

set_option autoImplicit false

namespace DzOS.Fs

open DzOS.Lib

/-- `DZFS_BLOCK_SIZE`. -/
def DZFS_BLOCK_SIZE : Nat := 4096

/-- `DZFS_INDIRECT_BLOCK_COUNT`. -/
def DZFS_INDIRECT_BLOCK_COUNT : Nat := 1024

/-- `DZFS_MAX_FILENAME`. -/
def DZFS_MAX_FILENAME : Nat := 254

/-- `DZFS_DIRECT_BLOCKS`. -/
def DZFS_DIRECT_BLOCKS : Nat := 956

/-- `DZFS_MAX_DIR_CONTENTS`. -/
def DZFS_MAX_DIR_CONTENTS : Nat := 957

/-- `DZFS_MAX_FILESIZE`. -/
def DZFS_MAX_FILESIZE : Nat := DZFS_BLOCK_SIZE * (1024 + DZFS_DIRECT_BLOCKS)

/-- `DZFS_BITSET_COVERED_BLOCKS`. -/
def DZFS_BITSET_COVERED_BLOCKS : Nat := DZFS_BLOCK_SIZE * 8

/-- `DZFS_ENTITY_FILE`. -/
def DZFS_ENTITY_FILE : UInt8 := 1

/-- `DZFS_ENTITY_FOLDER`. -/
def DZFS_ENTITY_FOLDER : UInt8 := 2

/-- `DZFS_O_CREATE`. -/
def DZFS_O_CREATE : UInt32 := 1

/-- `DZFS_O_DIR`. -/
def DZFS_O_DIR : UInt32 := 2

/-- The results `DZFS_OK` and `DZFS_ERR_*`. -/
inductive DzfsResult where
  | OK
  | ERR_ARGUMENT
  | ERR_LIMIT
  | ERR_NOT_FOUND
  | ERR_FULL
  | ERR_NOT_EMPTY
  | ERR_TOO_SMALL
  deriving DecidableEq, Repr

/-- The value that the source returns for a result. -/
def DzfsResult.code : DzfsResult → Int
  | .OK => 0
  | .ERR_ARGUMENT => -1
  | .ERR_LIMIT => -3
  | .ERR_NOT_FOUND => -4
  | .ERR_FULL => -5
  | .ERR_NOT_EMPTY => -6
  | .ERR_TOO_SMALL => -7

/-- The disk with the variables of `struct dzFS`. -/
structure Dzfs where
  disk : Nat → Bytes
  freeBitmapBlocks : Nat
  rootDnode : Nat

/-- `fs->read_block(n, block)`. -/
@[reducible] def Dzfs.readBlock (fs : Dzfs) (n : Nat) : Bytes := fs.disk n

/-- `fs->write_block(n, block)`. -/
def Dzfs.writeBlock (fs : Dzfs) (n : Nat) (b : Bytes) : Dzfs :=
  { fs with disk := Function.update fs.disk n b }

/-! ### The fields of a block -/

/-- `header.type`. -/
def entityType (b : Bytes) : UInt8 := b 0

/-- The offset of `file.size` and of `folder.parent`. -/
def SIZE_OFFSET : Nat := 264

/-- The offset of `file.indirect_block`. -/
def INDIRECT_OFFSET : Nat := 268

/-- The offset of `file.direct_blocks[i]`. -/
def directOffset (i : Nat) : Nat := 272 + 4 * i

/-- The offset of `folder.content_dnodes[i]`. -/
def contentOffset (i : Nat) : Nat := 268 + 4 * i

/-- `file.size`. -/
def fileSize (b : Bytes) : Nat := b.getLE 4 SIZE_OFFSET

/-- `folder.parent`. -/
def folderParent (b : Bytes) : Nat := b.getLE 4 SIZE_OFFSET

/-- `file.indirect_block`. -/
def fileIndirect (b : Bytes) : Nat := b.getLE 4 INDIRECT_OFFSET

/-- `file.direct_blocks[i]`. -/
def fileDirect (b : Bytes) (i : Nat) : Nat := b.getLE 4 (directOffset i)

/-- `folder.content_dnodes[i]`. -/
def contentDnode (b : Bytes) (i : Nat) : Nat := b.getLE 4 (contentOffset i)

/-- `indirect_block[i]`. -/
def indirectEntry (b : Bytes) (i : Nat) : Nat := b.getLE 4 (4 * i)

/-- `header.name` of a block as a C string, from the byte `i` of the block on. -/
def cstring (b : Bytes) : Nat → Nat → List UInt8
  | 0, _ => []
  | left + 1, i => if b i = 0 then [] else b i :: cstring b left (i + 1)

/-- `header.name`. A name has its `NUL` inside the block. -/
def headerName (b : Bytes) : List UInt8 := cstring b (DZFS_BLOCK_SIZE - 1) 1

/-- The comparison of `header.name` with `name`: `memcmp` over the length of `name`, and a
`NUL` behind it. -/
def nameMatches (b : Bytes) (name : List UInt8) : Bool :=
  b.slice 1 name.length = name ∧ b (1 + name.length) = 0

/-! ### Paths -/

/-- `'/'`. -/
def SLASH : UInt8 := 47

/-- `'.'`. -/
def DOT : UInt8 := 46

/-- `path_next_part_len`. -/
def pathNextPartLen (str : List UInt8) : Nat := (str.takeWhile (· ≠ SLASH)).length

/-- `path_last_part`. -/
def pathLastPart (str : List UInt8) : Bool :=
  str.length = pathNextPartLen str ∨ str.length = pathNextPartLen str + 1

/-! ### The free bitmap -/

/-- `bitmap_set`. -/
def bitmapSet (b : Bytes) (index : Nat) : Bytes :=
  if index / 8 ≥ DZFS_BLOCK_SIZE then b
  else b.set (index / 8) (b (index / 8) ||| (1 <<< UInt8.ofNat (index % 8)))

/-- `bitmap_clear`. -/
def bitmapClear (b : Bytes) (index : Nat) : Bytes :=
  if index / 8 ≥ DZFS_BLOCK_SIZE then b
  else b.set (index / 8) (b (index / 8) &&& ~~~(1 <<< UInt8.ofNat (index % 8)))

/-- `__builtin_ctz` of a byte that is not 0: the number of its lowest 1 bit. -/
def ctz (x : UInt8) : Nat := (scan (fun k => x.toNat.testBit k) 8 0).getD 8

/-- The first byte of a bitmap block that is not 0. -/
def firstNonzero (block : Bytes) : Option Nat :=
  scan (fun i => block i ≠ 0) DZFS_BLOCK_SIZE 0

/-- The search of `block_alloc` through the bitmap blocks from `freeBlock` on. -/
def searchFree (fs : Dzfs) : Nat → Nat → Nat
  | 0, _ => 0
  | left + 1, freeBlock =>
    let block := fs.readBlock (freeBlock + 2)
    match firstNonzero block with
    | none => searchFree fs left (freeBlock + 1)
    | some i =>
      let dnode := DZFS_BITSET_COVERED_BLOCKS * freeBlock + 8 * i + ctz (block i)
      if dnode ≠ 0 then dnode else searchFree fs left (freeBlock + 1)

/-- The bitmap block of a block number. -/
def bitmapBlock (dnode : Nat) : Nat := dnode / 8 / DZFS_BLOCK_SIZE + 2

/-- `block_alloc`: the number of the allocated block, or 0 when the disk is full. -/
def blockAlloc (fs : Dzfs) : Nat × Dzfs :=
  let dnode := searchFree fs fs.freeBitmapBlocks 0
  if dnode = 0 then (0, fs)
  else
    let block := fs.readBlock (bitmapBlock dnode)
    (dnode, fs.writeBlock (bitmapBlock dnode)
      (bitmapClear block (dnode % DZFS_BITSET_COVERED_BLOCKS)))

/-- `get_or_allocate_block` for the pointer at the offset `off` of the block `b` in memory.
The result is the block number, or 0 when the disk is full, and the pointer's block. -/
def getOrAllocateBlock (fs : Dzfs) (b : Bytes) (off : Nat) : Nat × Dzfs × Bytes :=
  if b.getLE 4 off = 0 then
    match blockAlloc fs with
    | (0, fs) => (0, fs, b)
    | (n + 1, fs) => (n + 1, fs, b.setLE 4 off (n + 1))
  else (b.getLE 4 off, fs, b)

/-- `block_free`. -/
def blockFree (fs : Dzfs) (dnode : Nat) : Dzfs :=
  let block := fs.readBlock (bitmapBlock dnode)
  fs.writeBlock (bitmapBlock dnode) (bitmapSet block (dnode % DZFS_BITSET_COVERED_BLOCKS))

/-! ### Folders -/

/-- The loop of `folder_lookup_name` from the entry `i` on. -/
def lookupFrom (fs : Dzfs) (dir : Bytes) (name : List UInt8) : Nat → Nat → Nat
  | 0, _ => 0
  | left + 1, i =>
    if contentDnode dir i = 0 then 0
    else if nameMatches (fs.readBlock (contentDnode dir i)) name then contentDnode dir i
    else lookupFrom fs dir name left (i + 1)

/-- `folder_lookup_name`: the dnode of the entry with the given name, or 0. -/
def folderLookupName (fs : Dzfs) (dir : Bytes) (name : List UInt8) : Nat :=
  lookupFrom fs dir name DZFS_MAX_DIR_CONTENTS 0

/-- `folder_content_count`. -/
def folderContentCount (dir : Bytes) : Nat :=
  (scan (fun i => contentDnode dir i = 0) DZFS_MAX_DIR_CONTENTS 0).getD DZFS_MAX_DIR_CONTENTS

/-- `folder_remove_content`, or `none` when the target is not found. The last entry takes the
place of the target. -/
def folderRemoveContent (dir : Bytes) (targetDnode : Nat) : Option Bytes :=
  (scan (fun i => contentDnode dir i = targetDnode) DZFS_MAX_DIR_CONTENTS 0).map
    fun dnodeIndex =>
      let count := folderContentCount dir
      -- The offset of the entry `count - 1`. For the count 0 the C index is -1.
      let lastOffset := contentOffset count - 4
      if count = 1 then dir.setLE 4 (contentOffset 0) 0
      else if count = dnodeIndex + 1 then dir.setLE 4 lastOffset 0
      else
        (dir.setLE 4 (contentOffset dnodeIndex) (dir.getLE 4 lastOffset)).setLE 4 lastOffset 0

/-! ### Formatting -/

/-- The superblock of a disk with `blocks` blocks. -/
def superblock (blocks : Nat) : Bytes :=
  ((Bytes.zero.blit 0 [100, 122, 70, 83]).setLE 4 4 1).setLE 4 8 blocks

/-- The root folder. -/
def rootFolder (rootDnode : Nat) (date : UInt64) : Bytes :=
  (((Bytes.zero.set 0 DZFS_ENTITY_FOLDER).blit 1 [SLASH]).setLE 8 256 date.toNat).setLE 4
    SIZE_OFFSET rootDnode

/-- `bitmap_clear` for each index of a list. -/
def bitmapClearAll (b : Bytes) (indices : List Nat) : Bytes := indices.foldl bitmapClear b

/-- The bitmap blocks between the first and the last one, as `dzfs_new` writes them. -/
def writeMiddleBitmaps (fs : Dzfs) (ones : Bytes) : Dzfs :=
  let lastBitmap := (fs.freeBitmapBlocks + 2 ^ 32 - 1) % 2 ^ 32
  (List.range (lastBitmap - 1)).foldl
    (fun (fs : Dzfs) i => fs.writeBlock ((2 + (i + 1)) % 2 ^ 32) ones) fs

/-- The indices that `dzfs_new` clears in the last bitmap block: from the last one down to
`blocks`. -/
def indicesPastEnd (freeBitmapBlocks blocks : Nat) : List Nat :=
  let lastBlockId := (DZFS_BITSET_COVERED_BLOCKS * freeBitmapBlocks + 2 ^ 32 - 1) % 2 ^ 32
  (List.range (lastBlockId + 1 - blocks)).map fun k => lastBlockId - k

/-- The bitmap and the root folder, as `dzfs_new` writes them. -/
def formatBlocks (fs : Dzfs) (blocks : Nat) (date : UInt64) : Dzfs :=
  let ones : Bytes := fun _ => 0xFF
  let fs := writeMiddleBitmaps fs ones
  let block := bitmapClearAll ones (List.range (fs.freeBitmapBlocks + 3))
  let fs := fs.writeBlock 2 block
  let block := if fs.freeBitmapBlocks ≠ 1 then ones else block
  let block := bitmapClearAll block (indicesPastEnd fs.freeBitmapBlocks blocks)
  let fs := fs.writeBlock (2 + fs.freeBitmapBlocks - 1) block
  fs.writeBlock fs.rootDnode (rootFolder fs.rootDnode date)

/-- `dzfs_new` on a disk of `blocks` blocks. The arithmetic is that of `uint32_t`. -/
def dzfsNew (disk : Nat → Bytes) (blocks : Nat) (date : UInt64) : DzfsResult × Dzfs :=
  if blocks ≤ 4 then (.ERR_TOO_SMALL, ⟨disk, 0, 0⟩)
  else
    let fs : Dzfs := ⟨Function.update disk 1 (superblock blocks),
      (blocks + DZFS_BITSET_COVERED_BLOCKS - 1) % 2 ^ 32 / DZFS_BITSET_COVERED_BLOCKS, 0⟩
    if blocks ≤ 3 + fs.freeBitmapBlocks then (.ERR_TOO_SMALL, fs)
    else (.OK, formatBlocks { fs with rootDnode := 2 + fs.freeBitmapBlocks } blocks date)

/-! ### Opening -/

/-- What `dzfs_open_relative` returns. An output that it did not write is `none`. -/
structure OpenOut where
  result : DzfsResult
  dnode : Option Nat
  parentDnode : Option Nat
  deriving DecidableEq, Repr

/-- The block of a new entity in the folder `parentDnode`. -/
def newDnode (name : List UInt8) (parentDnode : Nat) (flags : UInt32) (date : UInt64) : Bytes :=
  let b := Bytes.zero.setLE 8 256 date.toNat
  let b := (b.blit 1 name).set (1 + name.length) 0
  if flags &&& DZFS_O_DIR ≠ 0 then
    (b.set 0 DZFS_ENTITY_FOLDER).setLE 4 SIZE_OFFSET parentDnode
  else b.set 0 DZFS_ENTITY_FILE

/-- The creation of an entity in the folder `current`, whose block is in memory. -/
def createEntity (fs : Dzfs) (currentIndex : Nat) (current : Bytes) (name : List UInt8)
    (flags : UInt32) (date : UInt64) (parentDnode : Nat) : OpenOut × Dzfs :=
  let folderSize := folderContentCount current
  if folderSize = DZFS_MAX_DIR_CONTENTS then (⟨.ERR_LIMIT, none, some parentDnode⟩, fs)
  else
    match blockAlloc fs with
    | (0, fs) => (⟨.ERR_FULL, some 0, some parentDnode⟩, fs)
    | (n + 1, fs) =>
      let fs := fs.writeBlock currentIndex (current.setLE 4 (contentOffset folderSize) (n + 1))
      let fs := fs.writeBlock (n + 1) (newDnode name currentIndex flags date)
      (⟨.OK, some (n + 1), some currentIndex⟩, fs)

/-- The loop of `dzfs_open_relative` down the path. Each turn drops a part of the path, so
the length of the path bounds the turns. -/
def traverse (flags : UInt32) (date : UInt64) (fs : Dzfs) (parentDnode : Nat) :
    Nat → Nat → List UInt8 → OpenOut × Dzfs
  | 0, _, _ => (⟨.ERR_NOT_FOUND, none, some parentDnode⟩, fs)
  | fuel + 1, currentIndex, path =>
    let current := fs.readBlock currentIndex
    let nextPathSize := pathNextPartLen path
    let name := path.take nextPathSize
    let found := folderLookupName fs current name
    if found = 0 then
      if flags &&& DZFS_O_CREATE ≠ 0 ∧ pathLastPart path then
        createEntity fs currentIndex current name flags date parentDnode
      else (⟨.ERR_NOT_FOUND, none, some parentDnode⟩, fs)
    else if pathLastPart path then (⟨.OK, some found, some currentIndex⟩, fs)
    else if entityType (fs.readBlock found) ≠ DZFS_ENTITY_FOLDER then
      (⟨.ERR_NOT_FOUND, none, some parentDnode⟩, fs)
    else traverse flags date fs parentDnode fuel found (path.drop (nextPathSize + 1))

/-- One directory up from the folder `relativeTo`. -/
def goUp (fs : Dzfs) (relativeTo : Nat) : Nat :=
  if folderParent (fs.readBlock relativeTo) ≠ 0 then folderParent (fs.readBlock relativeTo)
  else relativeTo

/-- The loop of `dzfs_open_relative` over the leading `.` and `..`. Each turn drops a part of
the path, so the length of the path bounds the turns. -/
def skipDots (fs : Dzfs) : Nat → Nat → List UInt8 → Nat × List UInt8
  | 0, relativeTo, path => (relativeTo, path)
  | fuel + 1, relativeTo, path =>
    if [DOT, SLASH].isPrefixOf path then skipDots fs fuel relativeTo (path.drop 2)
    else if [DOT, DOT, SLASH].isPrefixOf path then
      skipDots fs fuel (goUp fs relativeTo) (path.drop 3)
    else if path = [DOT, DOT] then (goUp fs relativeTo, [])
    else (relativeTo, path)

/-- `dzfs_open_relative` for a path that does not start with a slash. -/
def openFrom (fs : Dzfs) (path : List UInt8) (relativeTo : Nat) (flags : UInt32)
    (date : UInt64) : OpenOut × Dzfs :=
  if relativeTo = 0 then (⟨.ERR_ARGUMENT, none, none⟩, fs)
  else
    let (folder, rest) := skipDots fs (path.length + 1) relativeTo path
    if rest = [] ∨ rest = [DOT] then
      (⟨.OK, some folder, some (folderParent (fs.readBlock folder))⟩, fs)
    else traverse flags date fs relativeTo (rest.length + 1) folder rest

/-- `dzfs_open_relative`. A path that starts with a slash goes to `dzfs_open_absolute`, which
comes back for the rest of the path. -/
def dzfsOpenRelative (fs : Dzfs) (flags : UInt32) (date : UInt64) :
    List UInt8 → Nat → OpenOut × Dzfs
  | [], relativeTo => openFrom fs [] relativeTo flags date
  | c :: path, relativeTo =>
    if c = SLASH then
      if path = [] then (⟨.OK, some fs.rootDnode, some fs.rootDnode⟩, fs)
      else dzfsOpenRelative fs flags date path fs.rootDnode
    else openFrom fs (c :: path) relativeTo flags date

/-- `dzfs_open_absolute`. -/
def dzfsOpenAbsolute (fs : Dzfs) (flags : UInt32) (date : UInt64) (path : List UInt8) :
    OpenOut × Dzfs :=
  if path.head? ≠ some SLASH then (⟨.ERR_ARGUMENT, none, none⟩, fs)
  else if path = [SLASH] then (⟨.OK, some fs.rootDnode, some fs.rootDnode⟩, fs)
  else dzfsOpenRelative fs flags date path.tail fs.rootDnode

/-! ### Writing and reading -/

/-- The variables of the loop of `dzfs_write`: the disk, the three blocks in memory, and the
rest of the data with its offset. -/
structure WriteState where
  fs : Dzfs
  dnodeBlock : Bytes
  indirectBlock : Bytes
  dataBlock : Bytes
  data : List UInt8
  offset : Nat

/-- The choice of the content block in a turn of the loop. It allocates what is missing. The
result is the block number, or 0 when the disk is full. -/
def contentBlock (st : WriteState) : Nat × WriteState :=
  let index := st.offset / DZFS_BLOCK_SIZE
  if index ≥ DZFS_DIRECT_BLOCKS then
    let (indirect, fs, dnodeBlock) := getOrAllocateBlock st.fs st.dnodeBlock INDIRECT_OFFSET
    if indirect = 0 then (0, { st with fs := fs, dnodeBlock := dnodeBlock })
    else
      let (n, fs, indirectBlock) :=
        getOrAllocateBlock fs st.indirectBlock (4 * (index - DZFS_DIRECT_BLOCKS))
      (n, { st with fs := fs, dnodeBlock := dnodeBlock, indirectBlock := indirectBlock })
  else
    let (n, fs, dnodeBlock) := getOrAllocateBlock st.fs st.dnodeBlock (directOffset index)
    (n, { st with fs := fs, dnodeBlock := dnodeBlock })

/-- The copy in a turn of the loop, to the content block `n`. The block is read first, except
at the offset 0. -/
def copyToBlock (st : WriteState) (n : Nat) : WriteState :=
  let rawDataIndex := st.offset % DZFS_BLOCK_SIZE
  let dataBlock := if st.offset > 0 then st.fs.readBlock n else st.dataBlock
  let toCopy := min (DZFS_BLOCK_SIZE - rawDataIndex) st.data.length
  let dataBlock := dataBlock.blit rawDataIndex (st.data.take toCopy)
  { st with
    fs := st.fs.writeBlock n dataBlock
    dataBlock := dataBlock
    data := st.data.drop toCopy
    offset := st.offset + toCopy }

/-- The loop of `dzfs_write`. Each turn writes a byte at least, so the length of the data
bounds the turns. -/
def writeLoop : Nat → WriteState → DzfsResult × WriteState
  | 0, st => (.OK, st)
  | fuel + 1, st =>
    if st.data = [] then (.OK, st)
    else
      let (n, st) := contentBlock st
      if n = 0 then (.ERR_FULL, st) else writeLoop fuel (copyToBlock st n)

/-- The end of `dzfs_write`: the indirect block and the dnode go to the disk. -/
def finishWrite (st : WriteState) (dnode size : Nat) : Dzfs :=
  let fs := if fileIndirect st.dnodeBlock ≠ 0 then
      st.fs.writeBlock (fileIndirect st.dnodeBlock) st.indirectBlock
    else st.fs
  fs.writeBlock dnode
    (st.dnodeBlock.setLE 4 SIZE_OFFSET ((fileSize st.dnodeBlock + size) % 2 ^ 32))

/-- `dzfs_write`. -/
def dzfsWrite (fs : Dzfs) (dnode : Nat) (data : List UInt8) (offset : Nat) :
    DzfsResult × Dzfs :=
  let dnodeBlock := fs.readBlock dnode
  if entityType dnodeBlock ≠ DZFS_ENTITY_FILE then (.ERR_ARGUMENT, fs)
  else if (data.length + offset) % 2 ^ 64 > DZFS_MAX_FILESIZE then (.ERR_LIMIT, fs)
  else if offset > fileSize dnodeBlock then (.ERR_ARGUMENT, fs)
  else
    let indirectBlock :=
      if fileIndirect dnodeBlock ≠ 0 then fs.readBlock (fileIndirect dnodeBlock) else Bytes.zero
    match writeLoop data.length ⟨fs, dnodeBlock, indirectBlock, Bytes.zero, data, offset⟩ with
    | (.OK, st) => (.OK, finishWrite st dnode data.length)
    | (r, st) => (r, st.fs)

/-- The block number of the content block `index` of a file, for a read. -/
def readContentBlock (dnodeBlock indirectBlock : Bytes) (index : Nat) : Nat :=
  if index ≥ DZFS_DIRECT_BLOCKS then indirectEntry indirectBlock (index - DZFS_DIRECT_BLOCKS)
  else fileDirect dnodeBlock index

/-- The loop of `dzfs_read`, with the number of bytes to read. Each turn reads a byte at
least, so that number bounds the turns. -/
def readLoop (fs : Dzfs) (dnodeBlock indirectBlock : Bytes) : Nat → Nat → Nat → List UInt8
  | 0, _, _ => []
  | fuel + 1, toRead, offset =>
    if toRead = 0 then []
    else
      let dataBlock :=
        fs.readBlock (readContentBlock dnodeBlock indirectBlock (offset / DZFS_BLOCK_SIZE))
      let rawDataIndex := offset % DZFS_BLOCK_SIZE
      let toCopy := min (DZFS_BLOCK_SIZE - rawDataIndex) toRead
      dataBlock.slice rawDataIndex toCopy ++
        readLoop fs dnodeBlock indirectBlock fuel (toRead - toCopy) (offset + toCopy)

/-- `dzfs_read`: the result and the bytes it put in the buffer. The number of bytes to read
is an `int`, and a negative one reads nothing. -/
def dzfsRead (fs : Dzfs) (dnode size offset : Nat) : Int × List UInt8 :=
  let dnodeBlock := fs.readBlock dnode
  if entityType dnodeBlock ≠ DZFS_ENTITY_FILE then (DzfsResult.ERR_ARGUMENT.code, [])
  else
    let indirectBlock :=
      if fileIndirect dnodeBlock ≠ 0 then fs.readBlock (fileIndirect dnodeBlock) else Bytes.zero
    if offset ≥ fileSize dnodeBlock then (0, [])
    else
      let toRead := min (fileSize dnodeBlock - offset) size % 2 ^ 32
      if toRead < 2 ^ 31 then
        let buf := readLoop fs dnodeBlock indirectBlock toRead toRead offset
        (buf.length, buf)
      else (0, [])

/-- `struct dzFSStat`. -/
structure DzfsStat where
  type : UInt8
  name : List UInt8
  creationDate : Nat
  size : Nat
  parent : Nat
  dnode : Nat
  deriving DecidableEq, Repr

/-- `dzfs_stat`: the result and the record that it fills. -/
def dzfsStat (fs : Dzfs) (dnode : Nat) : DzfsResult × DzfsStat :=
  let dnodeBlock := fs.readBlock dnode
  let stat : DzfsStat := ⟨entityType dnodeBlock, dnodeBlock.slice 1 (DZFS_MAX_FILENAME + 1),
    dnodeBlock.getLE 8 256, 0, 0, dnode⟩
  if entityType dnodeBlock = DZFS_ENTITY_FILE then (.OK, { stat with size := fileSize dnodeBlock })
  else if entityType dnodeBlock = DZFS_ENTITY_FOLDER then
    (.OK, { stat with
      parent := folderParent dnodeBlock
      size := folderContentCount dnodeBlock })
  else (.ERR_ARGUMENT, stat)

/-- `dzfs_read_dir`: the result and the record that it fills, if it fills one. -/
def dzfsReadDir (fs : Dzfs) (dnode offset : Nat) : DzfsResult × Option DzfsStat :=
  let dnodeBlock := fs.readBlock dnode
  if entityType dnodeBlock ≠ DZFS_ENTITY_FOLDER then (.ERR_ARGUMENT, none)
  else if offset ≥ DZFS_MAX_DIR_CONTENTS then (.ERR_LIMIT, none)
  else
    let requestedDnode := contentDnode dnodeBlock offset
    if requestedDnode = 0 then (.ERR_LIMIT, none)
    else
      let (result, stat) := dzfsStat fs requestedDnode
      (result, some stat)

/-! ### Deleting and moving -/

/-- `block_free` for each entry of a block pointer array, up to the first 0. -/
def freeUntilZero (fs : Dzfs) (ptr : Nat → Nat) : Nat → Nat → Dzfs
  | 0, _ => fs
  | left + 1, i =>
    if ptr i = 0 then fs else freeUntilZero (blockFree fs (ptr i)) ptr left (i + 1)

/-- The blocks of a file that `dzfs_delete` frees. The indirect block itself is not one of
them. -/
def freeFileBlocks (fs : Dzfs) (dnodeBlock : Bytes) : Dzfs :=
  let fs := if fileIndirect dnodeBlock ≠ 0 then
      let indirectBlock := fs.readBlock (fileIndirect dnodeBlock)
      freeUntilZero fs (indirectEntry indirectBlock) DZFS_INDIRECT_BLOCK_COUNT 0
    else fs
  freeUntilZero fs (fileDirect dnodeBlock) DZFS_DIRECT_BLOCKS 0

/-- The end of `dzfs_delete`: the entity leaves its folder, and its dnode is free. -/
def unlinkDnode (fs : Dzfs) (dnode parentDnode : Nat) : DzfsResult × Dzfs :=
  let parentBlock := fs.readBlock parentDnode
  if entityType parentBlock ≠ DZFS_ENTITY_FOLDER then (.ERR_ARGUMENT, fs)
  else
    match folderRemoveContent parentBlock dnode with
    | none => (.ERR_ARGUMENT, fs)
    | some block => (.OK, blockFree (fs.writeBlock parentDnode block) dnode)

/-- `dzfs_delete`. -/
def dzfsDelete (fs : Dzfs) (dnode parentDnode : Nat) : DzfsResult × Dzfs :=
  if dnode = fs.rootDnode then (.ERR_ARGUMENT, fs)
  else
    let dnodeBlock := fs.readBlock dnode
    if entityType dnodeBlock = DZFS_ENTITY_FILE then
      unlinkDnode (freeFileBlocks fs dnodeBlock) dnode parentDnode
    else if entityType dnodeBlock = DZFS_ENTITY_FOLDER then
      if (scan (fun i => contentDnode dnodeBlock i ≠ 0) DZFS_MAX_DIR_CONTENTS 0).isSome then
        (.ERR_NOT_EMPTY, fs)
      else unlinkDnode fs dnode parentDnode
    else (.ERR_ARGUMENT, fs)

/-- The block of the moved entity in memory, with its new name if it gets one. -/
def renamed (fileDnode : Bytes) (newName : Option (List UInt8)) : Bytes :=
  match newName with
  | none => fileDnode
  | some name => (fileDnode.blit 1 name).set (1 + name.length) 0

/-- The end of `dzfs_move`: the entity leaves the old folder, and a new name is written with
the rest of its block `fileDnode` in memory. -/
def leaveOldParent (fs : Dzfs) (dnode oldParent : Nat) (newName : Option (List UInt8))
    (fileDnode : Bytes) : DzfsResult × Dzfs :=
  let oldBlock := fs.readBlock oldParent
  if entityType oldBlock ≠ DZFS_ENTITY_FOLDER then (.ERR_ARGUMENT, fs)
  else
    match folderRemoveContent oldBlock dnode with
    | none => (.ERR_ARGUMENT, fs)
    | some block =>
      let fs := fs.writeBlock oldParent block
      (.OK, if newName.isSome then fs.writeBlock dnode fileDnode else fs)

/-- The entity enters the new folder. -/
def enterNewParent (fs : Dzfs) (dnode oldParent newParent : Nat)
    (newName : Option (List UInt8)) (fileDnode : Bytes) : DzfsResult × Dzfs :=
  let newBlock := fs.readBlock newParent
  let newIndex := folderContentCount newBlock
  if newIndex = DZFS_MAX_DIR_CONTENTS then (.ERR_LIMIT, fs)
  else
    leaveOldParent (fs.writeBlock newParent (newBlock.setLE 4 (contentOffset newIndex) dnode))
      dnode oldParent newName fileDnode

/-- `dzfs_move`. `newName` is `none` for `NULL`. -/
def dzfsMove (fs : Dzfs) (dnode oldParent newParent : Nat) (newName : Option (List UInt8)) :
    DzfsResult × Dzfs :=
  let fileDnode := fs.readBlock dnode
  if oldParent = newParent ∧ (newName = none ∨ newName = some (headerName fileDnode)) then
    (.OK, fs)
  else
    let newBlock := fs.readBlock newParent
    if entityType newBlock ≠ DZFS_ENTITY_FOLDER then (.ERR_ARGUMENT, fs)
    else if (newName.map List.length).getD 0 > DZFS_MAX_FILENAME then (.ERR_LIMIT, fs)
    else
      let fileDnode := renamed fileDnode newName
      let toDelete := folderLookupName fs newBlock (headerName fileDnode)
      if toDelete ≠ 0 then
        match dzfsDelete fs toDelete newParent with
        | (.OK, fs) => enterNewParent fs dnode oldParent newParent newName fileDnode
        | (r, fs) => (r, fs)
      else enterNewParent fs dnode oldParent newParent newName fileDnode

/-! ### Counting the free blocks -/

/-- The loop of `popcount`. Each turn clears the lowest 1 bit of a `uint32_t`, so 32 bounds
the turns. -/
def popcountLoop : Nat → Nat → Nat → Nat
  | 0, _, c => c
  | fuel + 1, a, c => if a = 0 then c else popcountLoop fuel (a &&& (a - 1)) (c + 1)

/-- `popcount`. -/
def popcount (a : Nat) : Nat := popcountLoop 32 a 0

/-- `dzfs_free_blocks`. The sum is a `uint32_t`. -/
def dzfsFreeBlocks (fs : Dzfs) : Nat :=
  (List.range fs.freeBitmapBlocks).foldl
    (fun freeBlocks block =>
      let bitmap := fs.readBlock (block + 2)
      (List.range DZFS_BLOCK_SIZE).foldl
        (fun freeBlocks i => (freeBlocks + popcount (bitmap i).toNat) % 2 ^ 32) freeBlocks) 0

end DzOS.Fs
