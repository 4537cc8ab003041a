import DzOS.Drivers.Nvme
import DzOS.Fs.Fs

/-!
# `DzOS.Drivers.NvmeBlock`: reads and writes of the NVMe driver

`nvme_write` and `nvme_read` copy the data through a page of their own. They put a command with
the address of the page into the submission queue, and `nvme_do_one_cmd_synchronous` waits for the
completion. `write_block` and `read_block` of `fs.c` call them for the blocks of the file system.

The indices, the doorbells and the completions are those of `Drivers/Nvme.lean`. Here the entries of
the submission queue have what is in a command, and the controller carries it out on the bytes of
the namespace. A completion with an error status stands for a command that was not carried out.
There is one caller at a time. The page comes from `kalloc`, and it is an argument.
-/

set_option autoImplicit false

namespace DzOS.Drivers

open DzOS.Lib DzOS.Fs

/-- `nvme_sq_entry_t`, up to the words that every command has at zero. -/
structure NvmeSqEntry where
  opc : UInt8
  cid : UInt16
  nsid : UInt32
  prp0 : ℕ
  cdw10 : UInt32
  cdw11 : UInt32
  cdw12 : UInt32

/-- `NVME_NAMESPACE_INDEX`. -/
def NVME_NAMESPACE_INDEX : UInt32 := 1

/-- `PAGE_SIZE`. -/
def NVME_BUFFER_SIZE : UInt32 := 4096

/-- A call of `nvme_write` or `nvme_read`. -/
inductive NvmeRequest where
  | write (lba : UInt64) (blockCount : UInt32) (buffer : List UInt8)
  | read (lba : UInt64) (blockCount : UInt32)

def NvmeRequest.lba : NvmeRequest → UInt64
  | .write lba _ _ => lba
  | .read lba _ => lba

def NvmeRequest.blockCount : NvmeRequest → UInt32
  | .write _ blockCount _ => blockCount
  | .read _ blockCount => blockCount

/-- What a call leaves behind: nothing if it is too long for the page, or else the bytes that a read
copies to its buffer. -/
inductive NvmeReturn where
  | refused (request : NvmeRequest)
  | done (request : NvmeRequest) (data : List UInt8)

/-- The driver and the controller, with the entries of the submission queue, the pages of the
memory by their address, and the bytes of the namespace. `call` is the call that is under way with
its page, and the calls that returned are logged. -/
structure NvmeSystem where
  pair : NvmePair
  submissionQueue : ℕ → NvmeSqEntry
  nextCommandId : UInt16
  memory : ℕ → Bytes
  media : Bytes
  call : Option (NvmeRequest × ℕ)
  returned : List NvmeReturn

/-- The system after `nvme_init`. -/
def NvmeSystem.init (queueSize : UInt32) (memory : ℕ → Bytes) (media : Bytes) : NvmeSystem :=
  { pair := .init queueSize
    submissionQueue := fun _ => ⟨0, 0, 0, 0, 0, 0, 0⟩
    nextCommandId := 0
    memory
    media
    call := none
    returned := [] }

/-! ### The driver -/

/-- The command of a call. -/
def sqEntry (cid : UInt16) (page : ℕ) : NvmeRequest → NvmeSqEntry
  | .write lba blockCount _ =>
    ⟨1, cid, NVME_NAMESPACE_INDEX, page, lba.toUInt32, (lba >>> 32).toUInt32,
      (blockCount - 1) &&& 0xFFFF⟩
  | .read lba blockCount =>
    ⟨2, cid, NVME_NAMESPACE_INDEX, page, lba.toUInt32, (lba >>> 32).toUInt32, blockCount - 1⟩

/-- The bytes of a call, in the arithmetic of `uint32_t`. -/
def byteCount (blockSize : UInt32) (request : NvmeRequest) : UInt32 :=
  request.blockCount * blockSize

/-- The page in front of the command: a write copies its data there. -/
def fillPage (blockSize : UInt32) (b : Bytes) : NvmeRequest → Bytes
  | .write lba blockCount buffer =>
    b.blit 0 (buffer.take (byteCount blockSize (.write lba blockCount buffer)).toNat)
  | .read _ _ => b

/-- `nvme_write` and `nvme_read`, up to the doorbell. -/
def nvmeCall (blockSize : UInt32) (s : NvmeSystem) (request : NvmeRequest) (page : ℕ) :
    NvmeSystem :=
  if byteCount blockSize request > NVME_BUFFER_SIZE then
    { s with returned := s.returned ++ [.refused request] }
  else
    { s with
      pair := submit s.pair
      submissionQueue := Function.update s.submissionQueue
        s.pair.queue.submissionQueueTail.toNat (sqEntry s.nextCommandId page request)
      nextCommandId := s.nextCommandId + 1
      memory := Function.update s.memory page (fillPage blockSize (s.memory page) request)
      call := some (request, page) }

/-- What a call returns: a read copies the page to its buffer. -/
def nvmeResult (blockSize : UInt32) (b : Bytes) : NvmeRequest → NvmeReturn
  | .write lba blockCount buffer => .done (.write lba blockCount buffer) []
  | .read lba blockCount =>
    .done (.read lba blockCount) (b.slice 0 (byteCount blockSize (.read lba blockCount)).toNat)

/-- A turn of the driver in a call: a look at the completion, or the return. -/
def nvmeDriverTurn (blockSize : UInt32) (s : NvmeSystem) : NvmeSystem :=
  match s.call, s.pair.driver with
  | some (request, page), .polling left =>
    let s := { s with pair := driverTurn s.pair }
    if left = 0 then
      { s with
        call := none
        returned := s.returned ++ [nvmeResult blockSize (s.memory page) request] }
    else s
  | _, _ => s

/-! ### The controller -/

/-- The status of a completion reports success. -/
def statusOk (status : UInt16) : Bool := status >>> 1 = 0

/-- The controller carries out a command on the bytes of the namespace. The number of blocks counts
from 0. -/
def execute (blockSize : UInt32) (entry : NvmeSqEntry) (s : NvmeSystem) : NvmeSystem :=
  let start := (entry.cdw10.toNat + 2 ^ 32 * entry.cdw11.toNat) * blockSize.toNat
  let length := ((entry.cdw12 &&& 0xFFFF).toNat + 1) * blockSize.toNat
  if entry.opc = 1 then
    { s with media := s.media.blit start ((s.memory entry.prp0).slice 0 length) }
  else if entry.opc = 2 then
    { s with
      memory := Function.update s.memory entry.prp0
        ((s.memory entry.prp0).blit 0 (s.media.slice start length)) }
  else s

/-- A turn of the controller: it carries out the next command and writes its completion. -/
def nvmeControllerTurn (blockSize : UInt32) (s : NvmeSystem) (status : UInt16) : NvmeSystem :=
  let controller := s.pair.controller
  if controller.submissionHead = controller.tailDoorbell then s
  else
    let entry := s.submissionQueue controller.submissionHead.toNat
    let s := if statusOk status then execute blockSize entry s else s
    { s with pair := controllerTurn s.pair status }

/-! ### Runs -/

/-- A turn: a call starts, the driver or the controller goes on, or someone else writes to a page. -/
inductive NvmeSystemTurn where
  | call (request : NvmeRequest) (page : ℕ)
  | driver
  | controller (status : UInt16)
  | other (page : ℕ) (b : Bytes)

/-- The system after a turn. A call starts when none is under way. -/
def nvmeSystemTurn (blockSize : UInt32) (s : NvmeSystem) : NvmeSystemTurn → NvmeSystem
  | .call request page => if s.call.isNone then nvmeCall blockSize s request page else s
  | .driver => nvmeDriverTurn blockSize s
  | .controller status => nvmeControllerTurn blockSize s status
  | .other page b => { s with memory := Function.update s.memory page b }

/-- The system after the turns of a list. -/
def nvmeSystemRun (blockSize : UInt32) (s : NvmeSystem) (turns : List NvmeSystemTurn) :
    NvmeSystem :=
  turns.foldl (nvmeSystemTurn blockSize) s

/-! ### The blocks of the file system -/

/-- The first logical block of a block of the file system. -/
def blockLba (blockSize index : UInt32) : UInt64 :=
  133120 + index.toUInt64 * (4096 / blockSize).toUInt64

/-- `write_block`. -/
def writeBlock (blockSize index : UInt32) (block : Bytes) : NvmeRequest :=
  .write (blockLba blockSize index) (4096 / blockSize) (block.slice 0 DZFS_BLOCK_SIZE)

/-- `read_block`. -/
def readBlock (blockSize index : UInt32) : NvmeRequest :=
  .read (blockLba blockSize index) (4096 / blockSize)

end DzOS.Drivers
