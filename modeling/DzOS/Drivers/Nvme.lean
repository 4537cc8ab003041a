import Mathlib.Logic.Function.Basic
import Mathlib.Data.List.Basic

/-!
# `DzOS.Drivers.Nvme`: a queue pair of `drv_nvme.c` and its controller

The driver issues a command with `nvme_do_one_cmd_synchronous`. It moves the tail of the
submission queue, rings the doorbell, and polls the completion queue. The controller works at
the same time. It takes the commands up to the doorbell in order and writes their completions,
with the phase bit in `flags`.

A run is a list of turns of the two parties. A turn of the driver is the work up to its next
access to the shared memory: the submission, one look at a completion, or the return. A turn of
the controller is one completion.

A command is its number here, and a completion has the number of its command. The driver looks
only at the phase bit. The completions it takes are logged.
-/

set_option autoImplicit false

namespace DzOS.Drivers

/-- `nvme_cq_entry_t`: the flags, and the number of the completed command. An entry that was
never written has none. -/
structure NvmeCqEntry where
  flags : UInt16
  command : Option ℕ
  deriving DecidableEq

/-- `nvme_queue_t`. -/
structure NvmeQueue where
  submissionQueue : ℕ → ℕ
  completionQueue : ℕ → NvmeCqEntry
  submissionQueueTail : UInt32
  completionQueueHead : UInt32
  queueSize : UInt32
  completionQueueCurrentPhase : UInt8

/-- Where the driver stands: no command is under way, or it is before the test of
`while (left_commands--)`. -/
inductive NvmeDriver where
  | idle
  | polling (leftCommands : UInt32)
  deriving DecidableEq

/-- The controller: the tail from the doorbell, its own indices, and the phase of its pass over
the completion queue. -/
structure NvmeController where
  tailDoorbell : UInt32
  submissionHead : UInt32
  completionTail : UInt32
  phase : Bool

/-- The two parties, with the counts of the commands issued and completed and the numbers of the
completions that the driver has taken. -/
structure NvmePair where
  queue : NvmeQueue
  driver : NvmeDriver
  controller : NvmeController
  issued : ℕ
  completed : ℕ
  taken : List (Option ℕ)

/-- The queue after `nvme_init`, on zeroed memory. -/
def NvmeQueue.init (queueSize : UInt32) : NvmeQueue :=
  { submissionQueue := fun _ => 0, completionQueue := fun _ => ⟨0, none⟩,
    submissionQueueTail := 0, completionQueueHead := 0, queueSize,
    completionQueueCurrentPhase := 0 }

/-- The pair after `nvme_init`. The phase of the first pass is 1. -/
def NvmePair.init (queueSize : UInt32) : NvmePair :=
  { queue := .init queueSize
    driver := .idle
    controller :=
      { tailDoorbell := 0, submissionHead := 0, completionTail := 0, phase := true }
    issued := 0
    completed := 0
    taken := [] }

/-! ### The driver -/

/-- An index is moved on: `index++`, and 0 behind the last entry. -/
def nextEntry (queueSize index : UInt32) : UInt32 :=
  if index + 1 > queueSize - 1 then 0 else index + 1

/-- `left_commands` at the start of the polling. -/
def leftCommands (queue : NvmeQueue) : UInt32 :=
  if queue.completionQueueHead < queue.submissionQueueTail then
    queue.submissionQueueTail - queue.completionQueueHead
  else queue.queueSize - queue.completionQueueHead + queue.submissionQueueTail

/-- The driver writes a command at the tail and calls `nvme_do_one_cmd_synchronous`, which rings
the doorbell. -/
def submit (pair : NvmePair) : NvmePair :=
  let tail := nextEntry pair.queue.queueSize pair.queue.submissionQueueTail
  let queue := { pair.queue with
    submissionQueue :=
      Function.update pair.queue.submissionQueue pair.queue.submissionQueueTail.toNat pair.issued
    submissionQueueTail := tail }
  { pair with
    queue
    driver := .polling (leftCommands queue)
    controller := { pair.controller with tailDoorbell := tail }
    issued := pair.issued + 1 }

/-- The head of the completion queue is moved on. The phase changes with the wrap. -/
def advanceHead (queue : NvmeQueue) : NvmeQueue :=
  { queue with
    completionQueueHead := nextEntry queue.queueSize queue.completionQueueHead
    completionQueueCurrentPhase :=
      if queue.completionQueueHead + 1 > queue.queueSize - 1 then
        queue.completionQueueCurrentPhase ^^^ 1
      else queue.completionQueueCurrentPhase }

/-- One look at the completion at the head: the driver goes on spinning while its phase bit is
the current phase, and else takes it. -/
def poll (pair : NvmePair) (left : UInt32) : NvmePair :=
  let cq := pair.queue.completionQueue pair.queue.completionQueueHead.toNat
  if cq.flags &&& 0x1 = pair.queue.completionQueueCurrentPhase.toUInt16 then pair
  else
    { pair with
      queue := advanceHead pair.queue
      driver := .polling (left - 1)
      taken := pair.taken ++ [cq.command] }

/-- A turn of the driver. -/
def driverTurn (pair : NvmePair) : NvmePair :=
  match pair.driver with
  | .idle => submit pair
  | .polling left => if left = 0 then { pair with driver := .idle } else poll pair left

/-! ### The controller -/

/-- The flags of a completion: the status, and the phase in the lowest bit. -/
def completionFlags (status : UInt16) (phase : Bool) : UInt16 :=
  if phase then status ||| 0x1 else status &&& 0xFFFE

/-- A turn of the controller: it completes the next command before the doorbell, if there is
one, with any status. -/
def controllerTurn (pair : NvmePair) (status : UInt16) : NvmePair :=
  let controller := pair.controller
  let queueSize := pair.queue.queueSize
  if controller.submissionHead = controller.tailDoorbell then pair
  else
    { pair with
      queue := { pair.queue with
        completionQueue :=
          Function.update pair.queue.completionQueue controller.completionTail.toNat
            { flags := completionFlags status controller.phase
              command := some (pair.queue.submissionQueue controller.submissionHead.toNat) } }
      controller := { controller with
        submissionHead := nextEntry queueSize controller.submissionHead
        completionTail := nextEntry queueSize controller.completionTail
        phase :=
          if nextEntry queueSize controller.completionTail = 0 then !controller.phase
          else controller.phase }
      completed := pair.completed + 1 }

/-- A turn of one of the parties. -/
inductive NvmeTurn where
  | driver
  | controller (status : UInt16)

/-- The pair after a turn. -/
def nvmeTurn (pair : NvmePair) : NvmeTurn → NvmePair
  | .driver => driverTurn pair
  | .controller status => controllerTurn pair status

/-- The pair after the turns of a list. -/
def nvmeRun (pair : NvmePair) (turns : List NvmeTurn) : NvmePair :=
  turns.foldl nvmeTurn pair

end DzOS.Drivers
