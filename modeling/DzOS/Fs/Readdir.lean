import DzOS.Fs.Fs

/-!
# `DzOS.Fs.Readdir`: reading a directory, `fs.c`

`fs_readdir` fills a buffer with records of the type `struct dirent`, one behind the other. A
record has `sizeof(struct dirent)` bytes and as many as its name is long: the name starts at the
last member of the struct, in front of its padding.

The name comes from a `struct dzFSStat` on the stack of the kernel. Its array has 255 bytes, and
`strlen` and `strcpy` go on behind it when the entity has a longer name: they take the creation
date, the size and the numbers behind them as further characters.

`mem` is the memory that the buffer lies in, and `buffer` its address.
-/

set_option autoImplicit false

namespace DzOS.Fs

open DzOS.Lib

/-- `DT_DIR`. -/
def DT_DIR : UInt8 := 1

/-- `DT_FILE`. -/
def DT_FILE : UInt8 := 2

/-- `sizeof(struct dirent)`. -/
def sizeofDirent : Nat := 16

/-- `offsetof(struct dirent, size)`. -/
def DIRENT_SIZE : Nat := 8

/-- `offsetof(struct dirent, type)`. -/
def DIRENT_TYPE : Nat := 12

/-- `offsetof(struct dirent, name)`. -/
def DIRENT_NAME : Nat := 13

/-- `sizeof(struct dzFSStat)`. -/
def sizeofDzfsStat : Nat := 280

/-- The bytes of a `struct dzFSStat`. `dzfs_stat` clears all of them first, so those behind the last
member are 0. -/
def statBytes (stat : DzfsStat) : Bytes :=
  let b := (Bytes.zero.set 0 stat.type).blit 1 stat.name
  let b := b.setLE 8 256 stat.creationDate
  let b := b.setLE 4 264 stat.size
  let b := b.setLE 4 268 stat.parent
  b.setLE 4 272 stat.dnode

/-- `stat.name` as a C string. -/
def nameOfStat (stat : DzfsStat) : List UInt8 := cstring (statBytes stat) (sizeofDzfsStat - 1) 1

/-- The type of a record for the type of an entity. -/
def direntType (type : UInt8) : Option UInt8 :=
  if type = DZFS_ENTITY_FILE then some DT_FILE
  else if type = DZFS_ENTITY_FOLDER then some DT_DIR
  else none

/-- The writes of `fs_readdir` for one entry. -/
def writeDirent (mem : Bytes) (buffer : Nat) (type : UInt8) (stat : DzfsStat) : Bytes :=
  let mem := mem.set (buffer + DIRENT_TYPE) type
  let mem := mem.setLE 8 buffer stat.creationDate
  let mem := mem.setLE 4 (buffer + DIRENT_SIZE) stat.size
  mem.blit (buffer + DIRENT_NAME) (nameOfStat stat ++ [0])

/-- The loop of `fs_readdir`. A folder has no entry from `DZFS_MAX_DIR_CONTENTS` on, so the loop
has ended when nothing is left. -/
def readdirLoop (fs : Dzfs) (dnode : Nat) :
    Nat → Bytes → Nat → Nat → Nat → Nat → Except String (Int × Bytes)
  | 0, mem, _, _, _, readDirectories => .ok (readDirectories, mem)
  | left + 1, mem, buffer, len, offset, readDirectories =>
    match dzfsReadDir fs dnode offset with
    | (.ERR_LIMIT, _) => .ok (readDirectories, mem)
    | (.OK, some stat) =>
      let directoryNameLength := (nameOfStat stat).length
      if sizeofDirent + directoryNameLength ≥ len then .ok (readDirectories, mem)
      else
        match direntType stat.type with
        | none => .error "fs_readdir: invalid type"
        | some type =>
          readdirLoop fs dnode left (writeDirent mem buffer type stat)
            (buffer + (sizeofDirent + directoryNameLength))
            (len - (sizeofDirent + directoryNameLength)) (offset + 1) (readDirectories + 1)
    | _ => .ok (-2, mem)

/-- `fs_readdir`. The offset is converted to a `size_t`. -/
def fsReaddir (s : FsVars) (i : InodePtr) (mem : Bytes) (buffer len : Nat) (offset : Int) :
    Except String (Int × Bytes) :=
  if (s.inodes i).type ≠ .DIRECTORY then .ok (-1, mem)
  else
    readdirLoop s.fs (s.inodes i).dnode (DZFS_MAX_DIR_CONTENTS + 1) mem buffer len
      (offset % 2 ^ 64).toNat 0

end DzOS.Fs
