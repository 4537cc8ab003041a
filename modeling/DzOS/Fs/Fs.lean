import DzOS.Fs.Dzfs

/-!
# `DzOS.Fs.Fs`: the open files of the kernel, `fs.c`

An open file or folder has an inode in `fs_inode_list`, which counts its users. A pointer to an
inode is its index in the list (`InodePtr`). The locks do not appear, and `main_filesystem` is
the file system of `Dzfs.lean`. `date` is what `current_date` returns where the source calls it.

`fs_rename` panics, so it does not appear, and `fs_readdir` is in `Readdir.lean`.

`fs_init` runs at every boot. It mounts the disk if block 1 has the magic number, and formats it
otherwise. Then it opens `/init`, creating it if need be, and writes the program of the kernel
image to it. It looks at neither result. The block size of the NVMe device and the bytes of the
program are arguments, and so are the dates. An error is a panic.
-/

set_option autoImplicit false

namespace DzOS.Fs

open DzOS.Lib

/-- `MAX_INODES`. -/
def MAX_INODES : Nat := 64

/-- A `struct fs_inode *`. -/
abbrev InodePtr := Fin MAX_INODES

theorem maxInodes_pos : 0 < MAX_INODES := by decide

/-- The field `type` of an inode. -/
inductive InodeType where
  | EMPTY
  | FILE
  | DIRECTORY
  deriving DecidableEq, Repr

/-- `struct fs_inode`. -/
structure FsInode where
  type : InodeType
  dnode : Nat
  parentDnode : Nat
  size : Nat
  referenceCount : UInt32
  deriving DecidableEq, Repr

/-- An inode of the static list at the start. -/
def FsInode.zero : FsInode where
  type := .EMPTY
  dnode := 0
  parentDnode := 0
  size := 0
  referenceCount := 0

/-- `main_filesystem` with `fs_inode_list`. -/
structure FsVars where
  fs : Dzfs
  inodes : InodePtr → FsInode

/-- A write to one inode. -/
def FsVars.setInode (s : FsVars) (i : InodePtr) (inode : FsInode) : FsVars :=
  { s with inodes := Function.update s.inodes i inode }

/-- The loop of `fs_open` over the inodes: the inode of `dnode`, if there is one, and the last
empty one before the loop ended. -/
def findInode (inodes : InodePtr → FsInode) (dnode : Nat) :
    List InodePtr → Option InodePtr → Option InodePtr × Option InodePtr
  | [], freeInode => (none, freeInode)
  | i :: rest, freeInode =>
    if (inodes i).type = .EMPTY then findInode inodes dnode rest (some i)
    else if (inodes i).dnode = dnode then (some i, freeInode)
    else findInode inodes dnode rest freeInode

/-- The type of an inode for the type of its entity. -/
def inodeType (type : UInt8) : Option InodeType :=
  if type = DZFS_ENTITY_FILE then some .FILE
  else if type = DZFS_ENTITY_FOLDER then some .DIRECTORY
  else none

/-- The dnode that a path is relative to. -/
def relativeDnode (s : FsVars) (relativeTo : Option InodePtr) : Nat :=
  match relativeTo with
  | none => s.fs.rootDnode
  | some i => (s.inodes i).dnode

/-- `fs_open` after `dzfs_open_relative` found the entity `dnode`. -/
def openInode (s : FsVars) (dnode parent : Nat) : Except String (Option InodePtr × FsVars) :=
  match findInode s.inodes dnode (List.finRange MAX_INODES) none with
  | (some i, _) =>
    let inode := s.inodes i
    .ok (some i, s.setInode i { inode with referenceCount := inode.referenceCount + 1 })
  | (none, none) => .ok (none, s)
  | (none, some i) =>
    let (result, stat) := dzfsStat s.fs dnode
    if result ≠ .OK then .error "fs_open stat failed"
    else
      match inodeType stat.type with
      | none => .error "open: invalid dnode type"
      | some type =>
        .ok (some i, s.setInode i {
          type := type
          dnode := dnode
          parentDnode := parent
          size := stat.size
          referenceCount := 1 })

/-- `fs_open`. The inode is `none` for `NULL`, and an error is a panic. -/
def fsOpen (s : FsVars) (path : List UInt8) (relativeTo : Option InodePtr) (flags : UInt32)
    (date : UInt64) : Except String (Option InodePtr × FsVars) :=
  let (out, fs) := dzfsOpenRelative s.fs flags date path (relativeDnode s relativeTo)
  let s := { s with fs := fs }
  match out.result, out.dnode, out.parentDnode with
  | .OK, some dnode, some parent => openInode s dnode parent
  | _, _, _ => .ok (none, s)

/-- `fs_dup`. -/
def fsDup (s : FsVars) (i : InodePtr) : FsVars :=
  let inode := s.inodes i
  s.setInode i { inode with referenceCount := inode.referenceCount + 1 }

/-- `fs_close`. -/
def fsClose (s : FsVars) (i : InodePtr) : FsVars :=
  let inode := s.inodes i
  let referenceCount := inode.referenceCount - 1
  if referenceCount = 0 then s.setInode i FsInode.zero
  else s.setInode i { inode with referenceCount := referenceCount }

/-- `fs_write`. The result is the number of bytes as an `int`, or -1. -/
def fsWrite (s : FsVars) (i : InodePtr) (buffer : List UInt8) (offset : Nat) : Int × FsVars :=
  let inode := s.inodes i
  match dzfsWrite s.fs inode.dnode buffer offset with
  | (.OK, fs) =>
    let s := { s with fs := fs }
    let size := if (offset + buffer.length) % 2 ^ 64 > inode.size then
        (offset + buffer.length) % 2 ^ 32
      else inode.size
    (Int.bmod buffer.length (2 ^ 32), s.setInode i { inode with size := size })
  | (_, fs) => (-1, { s with fs := fs })

/-- `fs_read`: the result and the bytes in the buffer. -/
def fsRead (s : FsVars) (i : InodePtr) (len offset : Nat) : Int × List UInt8 :=
  let (result, buffer) := dzfsRead s.fs (s.inodes i).dnode len offset
  if result < 0 then (-1, buffer) else (result, buffer)

/-- `fs_delete`. -/
def fsDelete (s : FsVars) (path : List UInt8) (relativeTo : InodePtr) (date : UInt64) :
    Int × FsVars :=
  let (out, fs) := dzfsOpenRelative s.fs 0 date path (s.inodes relativeTo).dnode
  let s := { s with fs := fs }
  match out.result, out.dnode, out.parentDnode with
  | .OK, some dnode, some parentDnode =>
    let (result, fs) := dzfsDelete s.fs dnode parentDnode
    (if result = .OK then 0 else -1, { s with fs := fs })
  | _, _, _ => (-1, s)

/-- `fs_mkdir`. -/
def fsMkdir (s : FsVars) (directory : List UInt8) (relativeTo : InodePtr) (date : UInt64) :
    Int × FsVars :=
  let (out, fs) := dzfsOpenRelative s.fs (DZFS_O_CREATE ||| DZFS_O_DIR) date directory
    (s.inodes relativeTo).dnode
  (if out.result = .OK then 0 else -1, { s with fs := fs })

/-! ### The system -/

/-- The calls for the open files. -/
inductive FsCall where
  | open (path : List UInt8) (relativeTo : Option InodePtr) (flags : UInt32) (date : UInt64)
  | dup (i : InodePtr)
  | close (i : InodePtr)
  | write (i : InodePtr) (buffer : List UInt8) (offset : Nat)
  | read (i : InodePtr) (len offset : Nat)

/-- One call, or `none` when it panics. -/
def fsStep (s : FsVars) : FsCall → Option FsVars
  | .open path relativeTo flags date =>
    match fsOpen s path relativeTo flags date with
    | .error _ => none
    | .ok (_, s) => some s
  | .dup i => some (fsDup s i)
  | .close i => some (fsClose s i)
  | .write i buffer offset => some (fsWrite s i buffer offset).2
  | .read _ _ _ => some s

/-- The state before the first open. -/
def FsVars.boot (fs : Dzfs) : FsVars := ⟨fs, fun _ => FsInode.zero⟩

/-! ### Mounting the disk -/

/-- `PARTITION_OFFSET`, in blocks of the device. -/
def PARTITION_OFFSET : Nat := 133120

/-- `PARTITION_SIZE`. -/
def PARTITION_SIZE : Nat := 204766 - PARTITION_OFFSET

/-- `total_blocks`. -/
def totalBlocks : Nat := PARTITION_SIZE / DZFS_BLOCK_SIZE

/-- `DZFS_MAGIC`. -/
def DZFS_MAGIC : List UInt8 := [100, 122, 70, 83]

/-- `dzfs_init`, or `none` for `DZFS_ERR_INIT_INVALID_FS`. -/
def dzfsInit (disk : Nat → Bytes) : Option Dzfs :=
  let block := disk 1
  if block.slice 0 4 ≠ DZFS_MAGIC then none
  else
    let freeBitmapBlocks :=
      (block.getLE 4 8 + DZFS_BITSET_COVERED_BLOCKS - 1) % 2 ^ 32 / DZFS_BITSET_COVERED_BLOCKS
    some ⟨disk, freeBitmapBlocks, 1 + 1 + freeBitmapBlocks⟩

/-- `fs_ensure_userspace_prog`. The dnode is 0 if the open does not write it. -/
def fsEnsureUserspaceProg (fs : Dzfs) (prog path : List UInt8) (date : UInt64) : Dzfs :=
  let (out, fs) := dzfsOpenAbsolute fs DZFS_O_CREATE date path
  (dzfsWrite fs (out.dnode.getD 0) prog 0).2

/-- `fs_path_init`: `/init`. -/
def fsPathInit : List UInt8 := [47, 105, 110, 105, 116]

/-- `fs_init` on a disk, with the two dates that it may ask for. -/
def fsInit (nvmeBlockSize : Nat) (prog : List UInt8) (formatDate createDate : UInt64)
    (disk : Nat → Bytes) : Except String Dzfs :=
  if DZFS_BLOCK_SIZE % nvmeBlockSize ≠ 0 then .error "fs/nvme indivisible block size"
  else
    match dzfsInit disk with
    | some fs => .ok (fsEnsureUserspaceProg fs prog fsPathInit createDate)
    | none =>
      let (result, fs) := dzfsNew disk totalBlocks formatDate
      if result ≠ .OK then .error "fs: unable to create filesystem"
      else
        match dzfsInit fs.disk with
        | none => .error "fs: bad filesystem"
        | some fs => .ok (fsEnsureUserspaceProg fs prog fsPathInit createDate)

end DzOS.Fs
