import DzOS.Drivers.Nvme
import DzOS.Lib.PhaseRing

/-!
# `DzOS.Proofs.Drivers.Nvme`: the driver stays in step with the controller

`InStep` is the invariant of every interleaving of the two parties. Each index is the count of
its party modulo the queue size, and each phase is that of the pass. The driver is at most one
completion behind the controller, and the controller at most one behind the driver. The
completion queue is a ring with pass bits (`DzOS.Lib.PhaseRing`), so the phase test of the driver
succeeds exactly on the completion of its command.

`nvme_in_step` is the result: the driver takes each completion once and in order, returns only
after the completion of its command, and its indices are then those of the number of commands.
`InStep.returns` is its other half: whatever the controller has done, one completion is enough
for the driver to return.
-/

set_option autoImplicit false

namespace DzOS.Proofs.Drivers

open DzOS.Drivers DzOS.Lib

variable {i : ℕ} {left queueSize index : UInt32}

/-- The phase bit of a completion. -/
def phaseBit (entry : NvmeCqEntry) : Bool :=
  decide (entry.flags &&& 0x1 ≠ 0)

/-- The current phase of the driver while it waits for the entry with number `i`. -/
def waitPhase (size i : ℕ) : UInt8 :=
  if PhaseRing.pass size i then 0 else 1

/-- Where the driver stands, by the counts. -/
def Pending (issued taken : ℕ) : NvmeDriver → Prop
  | .idle => taken = issued
  | .polling left => issued = taken + left.toNat ∧ left.toNat ≤ 1

/-- What every interleaving keeps, with `size` the size of the queues. -/
structure InStep (size : ℕ) (pair : NvmePair) : Prop where
  two_le : 2 ≤ size
  queueSize : pair.queue.queueSize.toNat = size
  tail : pair.queue.submissionQueueTail.toNat = pair.issued % size
  head : pair.queue.completionQueueHead.toNat = pair.taken.length % size
  phase : pair.queue.completionQueueCurrentPhase = waitPhase size pair.taken.length
  doorbell : pair.controller.tailDoorbell = pair.queue.submissionQueueTail
  submissionHead : pair.controller.submissionHead.toNat = pair.completed % size
  completionTail : pair.controller.completionTail.toNat = pair.completed % size
  controllerPhase : pair.controller.phase = PhaseRing.pass size pair.completed
  entries : PhaseRing.Written phaseBit NvmeCqEntry.command size pair.queue.completionQueue
    pair.completed
  command : pair.completed < pair.issued →
    pair.queue.submissionQueue (pair.completed % size) = pair.completed
  taken_le : pair.taken.length ≤ pair.completed
  completed_le : pair.completed ≤ pair.issued
  taken : pair.taken = (List.range pair.taken.length).map some
  driver : Pending pair.issued pair.taken.length pair.driver

/-! ### Indices and phases -/

/-- An index inside the queue does not overflow. -/
theorem succ_toNat (h : index.toNat < queueSize.toNat) : (index + 1).toNat = index.toNat + 1 := by
  have hbound := queueSize.toNat_lt
  rw [UInt32.toNat_add]
  exact Nat.mod_eq_of_lt (by show index.toNat + 1 < 2 ^ 32; omega)

/-- The index is behind the last entry exactly at the end of a pass. -/
theorem wraps_iff (hsize : 2 ≤ queueSize.toNat) (h : index.toNat = i % queueSize.toNat) :
    index + 1 > queueSize - 1 ↔ (i + 1) % queueSize.toNat = 0 := by
  have hlt : index.toNat < queueSize.toNat := by
    rw [h]
    exact Nat.mod_lt _ (by omega)
  have hlast : (queueSize - 1).toNat = queueSize.toNat - 1 :=
    UInt32.toNat_sub_of_le _ _ (UInt32.le_iff_toNat_le.mpr (by show 1 ≤ queueSize.toNat; omega))
  rw [gt_iff_lt, UInt32.lt_iff_toNat_lt, succ_toNat hlt, hlast, ← Nat.mod_add_mod, ← h]
  constructor
  · intro hwrap
    rw [show index.toNat + 1 = queueSize.toNat by omega, Nat.mod_self]
  · intro hzero
    by_contra hle
    rw [Nat.mod_eq_of_lt (by omega)] at hzero
    omega

/-- An index follows its count. -/
theorem nextEntry_toNat (hsize : 2 ≤ queueSize.toNat) (h : index.toNat = i % queueSize.toNat) :
    (nextEntry queueSize index).toNat = (i + 1) % queueSize.toNat := by
  have hlt : index.toNat < queueSize.toNat := by
    rw [h]
    exact Nat.mod_lt _ (by omega)
  rw [nextEntry]
  split_ifs with hwrap
  · exact ((wraps_iff hsize h).mp hwrap).symm
  · have hne := mt (wraps_iff hsize h).mpr hwrap
    rw [← Nat.mod_add_mod, ← h] at hne ⊢
    have hsmall : index.toNat + 1 < queueSize.toNat := by
      by_contra hge
      rw [show index.toNat + 1 = queueSize.toNat by omega] at hne
      exact hne (Nat.mod_self _)
    rw [succ_toNat hlt, Nat.mod_eq_of_lt hsmall]

/-- Two indices of the same count are equal. -/
theorem index_eq_iff {x y : UInt32} {j size : ℕ} (hx : x.toNat = i % size) (hy : y.toNat = j % size)
    (hle : i ≤ j) (hnear : j ≤ i + 1) (hsize : 2 ≤ size) : x = y ↔ i = j := by
  rw [← UInt32.toNat_inj, hx, hy]
  constructor
  · intro heq
    have hdvd : size ∣ j - i := (Nat.modEq_iff_dvd' hle).mp heq
    rcases Nat.eq_or_lt_of_le hle with h | h
    · exact h
    · have := Nat.le_of_dvd (Nat.sub_pos_of_lt h) hdvd
      omega
  · rintro rfl
    rfl

/-- With the head one behind the tail, one command is left. -/
theorem leftCommands_eq_one {queue : NvmeQueue} (hsize : 2 ≤ queue.queueSize.toNat)
    (hhead : queue.completionQueueHead.toNat = i % queue.queueSize.toNat)
    (htail : queue.submissionQueueTail.toNat = (i + 1) % queue.queueSize.toNat) :
    (leftCommands queue).toNat = 1 := by
  have hlt : i % queue.queueSize.toNat < queue.queueSize.toNat := Nat.mod_lt _ (by omega)
  rw [← Nat.mod_add_mod] at htail
  rw [leftCommands]
  rcases Nat.lt_or_ge (i % queue.queueSize.toNat + 1) queue.queueSize.toNat with hin | hend
  · rw [Nat.mod_eq_of_lt hin] at htail
    have hlt : queue.completionQueueHead < queue.submissionQueueTail := by
      rw [UInt32.lt_iff_toNat_lt]
      omega
    rw [if_pos hlt, UInt32.toNat_sub_of_le _ _ (UInt32.le_of_lt hlt)]
    omega
  · -- the tail has wrapped
    rw [show i % queue.queueSize.toNat + 1 = queue.queueSize.toNat by omega, Nat.mod_self] at htail
    have hge : ¬ queue.completionQueueHead < queue.submissionQueueTail := by
      rw [UInt32.lt_iff_toNat_lt]
      omega
    have hsub : (queue.queueSize - queue.completionQueueHead).toNat = 1 := by
      rw [UInt32.toNat_sub_of_le]
      · omega
      · rw [UInt32.le_iff_toNat_le]
        omega
    rw [if_neg hge, UInt32.toNat_add, hsub, htail]

theorem and_one_cases (flags : UInt16) : flags &&& 0x1 = 0 ∨ flags &&& 0x1 = 1 := by
  have hmod : (flags &&& 0x1).toNat = flags.toNat % 2 := by
    rw [UInt16.toNat_and]
    exact Nat.and_one_is_mod _
  rcases Nat.mod_two_eq_zero_or_one flags.toNat with h | h
  · exact Or.inl (UInt16.toNat_inj.mp (hmod.trans h))
  · exact Or.inr (UInt16.toNat_inj.mp (hmod.trans h))

/-- The controller puts its phase into the bit. -/
theorem phaseBit_completionFlags (status : UInt16) (phase : Bool) (command : Option ℕ) :
    phaseBit ⟨completionFlags status phase, command⟩ = phase := by
  cases phase with
  | true =>
    refine decide_eq_true fun hzero => ?_
    have hnat := congrArg UInt16.toNat hzero
    rw [completionFlags, if_pos rfl, UInt16.toNat_and, UInt16.toNat_or] at hnat
    have hbit := congrArg (Nat.testBit · 0) hnat
    simp at hbit
  | false =>
    refine decide_eq_false (not_not.mpr ?_)
    show (status &&& 0xFFFE) &&& 0x1 = 0
    rw [UInt16.and_assoc]
    exact UInt16.and_zero

/-- The driver spins exactly while the bit is not that of the pass it waits for. -/
theorem spins_iff (entry : NvmeCqEntry) (size i : ℕ) :
    entry.flags &&& 0x1 = (waitPhase size i).toUInt16 ↔ phaseBit entry ≠ PhaseRing.pass size i := by
  rw [phaseBit, waitPhase]
  rcases and_one_cases entry.flags with h | h <;> rw [h] <;>
    cases PhaseRing.pass size i <;> decide

/-- The phase of the driver changes with the wrap. -/
theorem waitPhase_succ (size i : ℕ) :
    waitPhase size (i + 1) =
      if (i + 1) % size = 0 then waitPhase size i ^^^ 1 else waitPhase size i := by
  rw [waitPhase, waitPhase, PhaseRing.pass_succ]
  split_ifs <;> simp_all

theorem waitPhase_toNat (size i : ℕ) : (waitPhase size i).toNat = i / size % 2 := by
  rw [waitPhase, PhaseRing.pass]
  rcases Nat.mod_two_eq_zero_or_one (i / size) with h | h <;> rw [h] <;> rfl

/-! ### The turns -/

variable {size : ℕ} {pair : NvmePair}

theorem inStep_init (h : 2 ≤ queueSize) :
    InStep queueSize.toNat (.init queueSize) where
  two_le := UInt32.le_iff_toNat_le.mp h
  queueSize := rfl
  tail := (Nat.zero_mod _).symm
  head := (Nat.zero_mod _).symm
  phase := by
    show (0 : UInt8) = if PhaseRing.pass queueSize.toNat 0 then 0 else 1
    rw [PhaseRing.pass, Nat.zero_div]
    rfl
  doorbell := rfl
  submissionHead := (Nat.zero_mod _).symm
  completionTail := (Nat.zero_mod _).symm
  controllerPhase := by
    show true = PhaseRing.pass queueSize.toNat 0
    rw [PhaseRing.pass, Nat.zero_div]
    rfl
  entries := PhaseRing.written_zero fun _ => show phaseBit ⟨0, none⟩ = false by decide
  command := fun h => absurd h (Nat.lt_irrefl 0)
  taken_le := Nat.le_refl 0
  completed_le := Nat.le_refl 0
  taken := rfl
  driver := rfl

section

variable (h : InStep size pair)

include h

/-- Between two calls, every completion is taken. -/
theorem InStep.idle (hdriver : pair.driver = .idle) : pair.taken.length = pair.issued := by
  have hpending := h.driver
  rw [hdriver] at hpending
  exact hpending

/-- In a call, one completion or none is left to take. -/
theorem InStep.polling (hdriver : pair.driver = .polling left) :
    pair.issued = pair.taken.length + left.toNat ∧ left.toNat ≤ 1 := by
  have hpending := h.driver
  rw [hdriver] at hpending
  exact hpending

/-- At most one command is not taken yet. -/
theorem InStep.issued_le : pair.issued ≤ pair.taken.length + 1 := by
  cases hdriver : pair.driver with
  | idle => exact (h.idle hdriver).symm.le.trans (Nat.le_succ _)
  | polling left =>
    have hleft := h.polling hdriver
    omega

/-- A command is left to take in a call that has not counted down. -/
theorem InStep.left_eq_one (hdriver : pair.driver = .polling left) (hleft : left ≠ 0) :
    left = 1 := by
  have hone := (h.polling hdriver).2
  have hpos : left.toNat ≠ 0 := fun hzero => hleft (UInt32.toNat_inj.mp hzero)
  exact UInt32.toNat_inj.mp (show left.toNat = 1 by omega)

theorem inStep_submit (hidle : pair.driver = .idle) : InStep size (submit pair) := by
  have htaken := h.idle hidle
  have hcompleted : pair.completed = pair.issued :=
    Nat.le_antisymm h.completed_le (htaken ▸ h.taken_le)
  have hsize : 2 ≤ pair.queue.queueSize.toNat := h.queueSize ▸ h.two_le
  have htail : (nextEntry pair.queue.queueSize pair.queue.submissionQueueTail).toNat =
      (pair.issued + 1) % pair.queue.queueSize.toNat :=
    nextEntry_toNat hsize (by rw [h.tail, h.queueSize])
  refine { h with tail := ?_, doorbell := rfl, command := ?_, completed_le := ?_, driver := ?_ }
  · show (nextEntry _ _).toNat = _
    rw [htail, h.queueSize]
    rfl
  · intro _
    show Function.update pair.queue.submissionQueue _ pair.issued (pair.completed % size) = _
    rw [h.tail, hcompleted, Function.update_self]
    exact hcompleted.symm
  · show pair.completed ≤ pair.issued + 1
    omega
  · have hleft : (leftCommands { pair.queue with
        submissionQueue := Function.update pair.queue.submissionQueue
          pair.queue.submissionQueueTail.toNat pair.issued
        submissionQueueTail :=
          nextEntry pair.queue.queueSize pair.queue.submissionQueueTail }).toNat = 1 :=
      leftCommands_eq_one hsize (by rw [← htaken, h.queueSize]; exact h.head) htail
    show pair.issued + 1 = pair.taken.length + (leftCommands _).toNat ∧ _
    rw [hleft, htaken]
    exact ⟨rfl, le_rfl⟩

/-- The driver takes the completion of its command. -/
theorem InStep.take (hdriver : pair.driver = .polling left) (hleft : left ≠ 0)
    (hcompleted : pair.taken.length < pair.completed) :
    InStep size
      { pair with
        queue := advanceHead pair.queue
        driver := .polling (left - 1)
        taken := pair.taken ++
          [(pair.queue.completionQueue pair.queue.completionQueueHead.toNat).command] } := by
  have hissued := (h.polling hdriver).1
  have hleftOne := h.left_eq_one hdriver hleft
  have hsize : 2 ≤ pair.queue.queueSize.toNat := h.queueSize ▸ h.two_le
  have hhead : pair.queue.completionQueueHead.toNat =
      pair.taken.length % pair.queue.queueSize.toNat := by
    rw [h.queueSize]
    exact h.head
  have hbehind : pair.completed ≤ pair.taken.length + size := by
    have hle := h.completed_le
    have hnear := h.issued_le
    have htwo := h.two_le
    omega
  have hentry := (h.entries.recent pair.taken.length hcompleted hbehind).2
  rw [← h.head] at hentry
  have hlen : (pair.taken ++
      [(pair.queue.completionQueue pair.queue.completionQueueHead.toNat).command]).length =
      pair.taken.length + 1 := List.length_append
  refine { h with head := ?_, phase := ?_, taken_le := ?_, taken := ?_, driver := ?_ }
  · rw [hlen]
    show (nextEntry _ _).toNat = _
    rw [nextEntry_toNat hsize hhead, h.queueSize]
  · rw [hlen, waitPhase_succ, ← h.queueSize]
    show (if _ then _ else _) = _
    rw [if_congr (wraps_iff hsize hhead) rfl rfl, h.phase, h.queueSize]
  · rw [hlen]
    exact hcompleted
  · rw [hlen, List.range_succ, List.map_append, hentry, ← h.taken]
    rfl
  · show pair.issued = _ + (left - 1).toNat ∧ (left - 1).toNat ≤ 1
    rw [hlen, hleftOne]
    rw [hleftOne] at hissued
    exact ⟨hissued, by decide⟩

/-- The phase test succeeds exactly when the completion of the command is there. -/
theorem InStep.spins :
    (pair.queue.completionQueue pair.queue.completionQueueHead.toNat).flags &&& 0x1 =
        pair.queue.completionQueueCurrentPhase.toUInt16 ↔
      ¬ pair.taken.length < pair.completed := by
  have hbehind : pair.completed < pair.taken.length + size := by
    have hle := h.completed_le
    have hissued := h.issued_le
    have htwo := h.two_le
    omega
  rw [h.phase, spins_iff, h.head]
  exact not_congr (h.entries.bit_eq_pass_iff h.taken_le hbehind)

theorem inStep_poll (hdriver : pair.driver = .polling left) (hleft : left ≠ 0) :
    InStep size (poll pair left) := by
  rw [poll]
  split_ifs with hspin
  · exact h
  · exact h.take hdriver hleft (not_not.mp (mt h.spins.mpr hspin))

theorem inStep_driverTurn : InStep size (driverTurn pair) := by
  rw [driverTurn]
  split
  · rename_i hidle
    exact inStep_submit h hidle
  · rename_i left hdriver
    split_ifs with hzero
    · -- the call returns
      refine { h with driver := ?_ }
      have hpending := h.driver
      rw [hdriver, hzero] at hpending
      exact hpending.1.symm
    · exact inStep_poll h hdriver hzero

/-- The controller sees a command exactly when one is not completed. -/
theorem InStep.caughtUp_iff :
    pair.controller.submissionHead = pair.controller.tailDoorbell ↔
      pair.completed = pair.issued := by
  have hnear : pair.issued ≤ pair.completed + 1 :=
    h.issued_le.trans (Nat.succ_le_succ h.taken_le)
  rw [h.doorbell]
  exact index_eq_iff h.submissionHead h.tail h.completed_le hnear h.two_le

/-- A turn of the controller completes everything that was issued. -/
theorem inStep_controllerTurn (status : UInt16) :
    InStep size (controllerTurn pair status) ∧
      (controllerTurn pair status).completed = pair.issued ∧
      (controllerTurn pair status).issued = pair.issued ∧
      (controllerTurn pair status).taken = pair.taken ∧
      (controllerTurn pair status).driver = pair.driver := by
  rw [controllerTurn]
  dsimp only
  by_cases hcaught : pair.controller.submissionHead = pair.controller.tailDoorbell
  · rw [if_pos hcaught]
    exact ⟨h, h.caughtUp_iff.mp hcaught, rfl, rfl, rfl⟩
  rw [if_neg hcaught]
  have hlt : pair.completed < pair.issued :=
    Nat.lt_of_le_of_ne h.completed_le (mt h.caughtUp_iff.mpr hcaught)
  have hsize : 2 ≤ pair.queue.queueSize.toNat := h.queueSize ▸ h.two_le
  have hnext : ∀ index : UInt32, index.toNat = pair.completed % size →
      (nextEntry pair.queue.queueSize index).toNat = (pair.completed + 1) % size := by
    intro index hindex
    rw [nextEntry_toNat hsize (by rw [h.queueSize]; exact hindex), h.queueSize]
  have hnear : pair.issued ≤ pair.completed + 1 :=
    h.issued_le.trans (Nat.succ_le_succ h.taken_le)
  refine ⟨{ h with
    submissionHead := ?_, completionTail := ?_, controllerPhase := ?_, entries := ?_,
    command := ?_, taken_le := ?_, completed_le := ?_ }, ?_, rfl, rfl, rfl⟩
  · exact hnext _ h.submissionHead
  · exact hnext _ h.completionTail
  · show (if nextEntry _ pair.controller.completionTail = 0 then _ else _) = _
    have hzero : nextEntry pair.queue.queueSize pair.controller.completionTail = 0 ↔
        (pair.completed + 1) % size = 0 := by
      rw [← UInt32.toNat_inj, hnext _ h.completionTail]
      rfl
    rw [PhaseRing.pass_succ, if_congr hzero rfl rfl, h.controllerPhase]
  · show PhaseRing.Written _ _ size (Function.update _ pair.controller.completionTail.toNat _) _
    rw [h.completionTail]
    refine h.entries.write ?_ ?_
    · rw [phaseBit_completionFlags, h.controllerPhase]
    · show some (pair.queue.submissionQueue pair.controller.submissionHead.toNat) = _
      rw [h.submissionHead, h.command hlt]
  · intro hmore
    have : pair.completed + 1 < pair.issued := hmore
    omega
  · exact Nat.le_succ_of_le h.taken_le
  · exact hlt
  · show pair.completed + 1 = pair.issued
    omega

theorem InStep.turn (turn : NvmeTurn) : InStep size (nvmeTurn pair turn) := by
  cases turn with
  | driver => exact inStep_driverTurn h
  | controller status => exact (inStep_controllerTurn h status).1

end

/-! ### Runs -/

theorem InStep.run (h : InStep size pair) (turns : List NvmeTurn) :
    InStep size (nvmeRun pair turns) := by
  induction turns generalizing pair with
  | nil => exact h
  | cons turn turns ih => exact ih (h.turn turn)

/-- A driver that has its completion returns after at most two turns. -/
theorem InStep.returns_of_completed (h : InStep size pair) (hdriver : pair.driver = .polling left)
    (hcompleted : pair.completed = pair.issued) :
    ∃ n ≤ 2, (nvmeRun pair (List.replicate n .driver)).driver = .idle ∧
      (nvmeRun pair (List.replicate n .driver)).issued = pair.issued := by
  by_cases hzero : left = 0
  · refine ⟨1, by decide, ?_⟩
    show (driverTurn pair).driver = .idle ∧ (driverTurn pair).issued = _
    rw [driverTurn, hdriver]
    dsimp only
    rw [if_pos hzero]
    exact ⟨rfl, rfl⟩
  · have hleft := h.left_eq_one hdriver hzero
    have hissued := (h.polling hdriver).1
    have hspin : ¬ (pair.queue.completionQueue pair.queue.completionQueueHead.toNat).flags &&& 0x1 =
        pair.queue.completionQueueCurrentPhase.toUInt16 := by
      rw [h.spins, not_not, hcompleted, hissued, hleft]
      exact Nat.lt_succ_self _
    refine ⟨2, by decide, ?_⟩
    show (driverTurn (driverTurn pair)).driver = .idle ∧
      (driverTurn (driverTurn pair)).issued = _
    have hfirst : driverTurn pair = poll pair left := by
      rw [driverTurn, hdriver]
      exact if_neg hzero
    rw [hfirst, poll, if_neg hspin, hleft, driverTurn]
    exact ⟨rfl, rfl⟩

/-- One completion by the controller, and the driver returns. -/
theorem InStep.returns (h : InStep size pair) (hdriver : pair.driver = .polling left)
    (status : UInt16) :
    ∃ n ≤ 2, (nvmeRun pair (.controller status :: List.replicate n .driver)).driver = .idle ∧
      (nvmeRun pair (.controller status :: List.replicate n .driver)).issued = pair.issued := by
  obtain ⟨hstep, hcompleted, hissued, -, hsame⟩ := inStep_controllerTurn h status
  rw [← hissued] at hcompleted
  obtain ⟨n, hn, hidle, hcount⟩ :=
    hstep.returns_of_completed (hsame.trans hdriver) hcompleted
  exact ⟨n, hn, hidle, hcount.trans hissued⟩

/-- The driver stays in step with the controller, for every queue size from 2 on and in every
interleaving of their turns. The completions taken are those of the first commands, each once and
in order, and each was there when it was taken. When no command is under way after `k` commands,
all `k` completions are there and taken, both indices are `k` modulo the queue size, and the phase
is that of the pass. When a command is under way, one turn of the controller and at most two of
the driver end the call. -/
theorem nvme_in_step (queueSize : UInt32) (hsize : 2 ≤ queueSize) (turns : List NvmeTurn)
    (pair : NvmePair) (hrun : nvmeRun (.init queueSize) turns = pair) :
    pair.taken = (List.range pair.taken.length).map some ∧
    pair.taken.length ≤ pair.completed ∧
    (pair.driver = .idle →
      pair.completed = pair.issued ∧
      pair.taken.length = pair.issued ∧
      pair.queue.submissionQueueTail.toNat = pair.issued % queueSize.toNat ∧
      pair.queue.completionQueueHead.toNat = pair.issued % queueSize.toNat ∧
      pair.queue.completionQueueCurrentPhase.toNat = pair.issued / queueSize.toNat % 2) ∧
    (pair.driver ≠ .idle → ∀ status, ∃ n ≤ 2,
      (nvmeRun pair (.controller status :: List.replicate n .driver)).driver = .idle ∧
      (nvmeRun pair (.controller status :: List.replicate n .driver)).issued = pair.issued) := by
  have h : InStep queueSize.toNat pair := hrun ▸ (inStep_init hsize).run turns
  refine ⟨h.taken, h.taken_le, fun hidle => ?_, fun hbusy status => ?_⟩
  · have htaken := h.idle hidle
    refine ⟨Nat.le_antisymm h.completed_le (htaken ▸ h.taken_le), htaken, h.tail, ?_, ?_⟩
    · rw [h.head, htaken]
    · rw [h.phase, waitPhase_toNat, htaken]
  · cases hdriver : pair.driver with
    | idle => exact absurd hdriver hbusy
    | polling left => exact h.returns hdriver status

/-- Three commands on queues of two entries: the indices are 1, in the second pass. -/
theorem nvme_in_step_three :
    ∃ pair, nvmeRun (.init 2) (List.flatten (List.replicate 3
        [.driver, .driver, .controller 0, .driver, .driver])) = pair ∧
      pair.driver = .idle ∧ pair.issued = 3 ∧
      pair.queue.completionQueueHead.toNat = 3 % 2 ∧
      pair.queue.completionQueueCurrentPhase.toNat = 3 / 2 % 2 := by
  refine ⟨_, rfl, rfl, rfl, ?_⟩
  have h := nvme_in_step 2 (by decide) (List.flatten (List.replicate 3
    [.driver, .driver, .controller 0, .driver, .driver])) _ rfl
  exact (h.2.2.1 rfl).2.2.2

end DzOS.Proofs.Drivers
