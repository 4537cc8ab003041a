import DzOS.Drivers.Serial
import DzOS.Lib.Ring
import DzOS.Lib.Run

/-!
# `DzOS.Proofs.Drivers.Serial`: the input buffer is a bounded queue

`queued` is the list of the bytes from the read index up to the write index. On it, the
interrupt handler adds a byte at the end unless 127 bytes are queued
(`serialIrqHandler_full`, `serialIrqHandler_room`). A read takes bytes from the front
(`serialReadOp_of_queued`).

`serial_fifo` is the result for every run of interrupts and reads: the bytes returned, followed
by the queued bytes, are the bytes accepted.
-/

set_option autoImplicit false

namespace DzOS.Proofs.Drivers

open DzOS.Drivers DzOS.Lib

variable {len : UInt64} {port' port : SerialPort}

/-- The bytes of the buffer by their index. -/
def slot (buffer : Vector UInt8 SERIAL_BUFFER_LENGTH) (i : ℕ) : UInt8 :=
  buffer[i]?.getD 0

/-- The number of bytes from the read index up to the write index. -/
def queueLength (data : SerialDeviceData) : ℕ :=
  Ring.distance SERIAL_BUFFER_LENGTH data.readIndex.toNat data.writeIndex.toNat

/-- The queued bytes, the oldest first. -/
def queued (data : SerialDeviceData) : List UInt8 :=
  Ring.contents SERIAL_BUFFER_LENGTH (slot data.inputBuffer) data.readIndex.toNat
    (queueLength data)

theorem length_queued (data : SerialDeviceData) : (queued data).length = queueLength data :=
  Ring.length_contents _

theorem slot_set (buffer : Vector UInt8 SERIAL_BUFFER_LENGTH) (i : ℕ) (c : UInt8)
    (h : i < SERIAL_BUFFER_LENGTH) :
    slot (buffer.set i c h) = Function.update (slot buffer) i c := by
  funext j
  by_cases hj : j = i
  · subst hj
    rw [Function.update_self, slot, Vector.getElem?_set_self]
    rfl
  · rw [Function.update_of_ne hj, slot, Vector.getElem?_set_ne h (Ne.symm hj)]
    rfl

variable (data : SerialDeviceData)

theorem queueLength_lt : queueLength data < SERIAL_BUFFER_LENGTH :=
  Ring.distance_lt data.readIndex_lt

/-- The indices are equal exactly if nothing is queued. -/
theorem queued_eq_nil : queued data = [] ↔ data.readIndex = data.writeIndex := by
  rw [← List.length_eq_zero_iff, length_queued, ← UInt8.toNat_inj]
  exact Ring.distance_eq_zero data.readIndex_lt data.writeIndex_lt

/-- The two cases of the count are the length of the queue. -/
theorem available_toNat : (available data).toNat = queueLength data := by
  have hr := data.readIndex_lt
  have hw := data.writeIndex_lt
  rw [available, queueLength]
  split_ifs with h
  · have hlt : data.writeIndex.toNat < data.readIndex.toNat := UInt8.lt_iff_toNat_lt.mp h
    have hlen : (UInt64.ofNat SERIAL_BUFFER_LENGTH).toNat = SERIAL_BUFFER_LENGTH := rfl
    have hsub : (UInt64.ofNat SERIAL_BUFFER_LENGTH - data.readIndex.toUInt64).toNat =
        SERIAL_BUFFER_LENGTH - data.readIndex.toNat := by
      rw [UInt64.toNat_sub_of_le, hlen, UInt8.toNat_toUInt64]
      rw [UInt64.le_iff_toNat_le, hlen, UInt8.toNat_toUInt64]
      exact hr.le
    rw [Ring.distance_of_lt hlt hr, UInt64.toNat_add, hsub, UInt8.toNat_toUInt64,
      Nat.mod_eq_of_lt]
    have hsize : SERIAL_BUFFER_LENGTH = 128 := rfl
    omega
  · have hle : data.readIndex.toNat ≤ data.writeIndex.toNat :=
      UInt8.le_iff_toNat_le.mp (UInt8.not_lt.mp h)
    rw [Ring.distance_of_le hle hw, UInt64.toNat_sub_of_le, UInt8.toNat_toUInt64,
      UInt8.toNat_toUInt64]
    rw [UInt64.le_iff_toNat_le, UInt8.toNat_toUInt64, UInt8.toNat_toUInt64]
    exact hle

/-! ### Storing and dropping one byte -/

/-- The write index is moved up to the read index exactly if the buffer is full. -/
theorem nextIndex_writeIndex :
    nextIndex data.writeIndex = data.readIndex ↔
      (queued data).length = SERIAL_BUFFER_LENGTH - 1 := by
  rw [length_queued, ← UInt8.toNat_inj, nextIndex_toNat]
  exact Ring.next_eq_iff data.readIndex_lt data.writeIndex_lt

/-- A stored byte is the last of the queue. -/
theorem queued_store (c : UInt8) (h : (queued data).length ≠ SERIAL_BUFFER_LENGTH - 1) :
    queued (data.store c) = queued data ++ [c] := by
  rw [length_queued] at h
  have hlt := queueLength_lt data
  have hcount : queueLength (data.store c) = queueLength data + 1 := by
    rw [queueLength]
    show Ring.distance _ data.readIndex.toNat (nextIndex data.writeIndex).toNat = _
    rw [nextIndex_toNat]
    exact Ring.distance_next data.readIndex_lt data.writeIndex_lt (by rw [queueLength] at *; omega)
  have hlead : data.writeIndex.toNat =
      (data.readIndex.toNat + queueLength data) % SERIAL_BUFFER_LENGTH :=
    (Ring.add_distance data.readIndex_lt data.writeIndex_lt).symm
  have hslots : slot (data.store c).inputBuffer =
      Function.update (slot data.inputBuffer) data.writeIndex.toNat c :=
    slot_set data.inputBuffer _ c data.writeIndex_lt
  rw [queued, hcount, hslots, hlead]
  exact Ring.contents_push _ c hlt

/-- The byte at the read index is the first of the queue. -/
theorem queued_eq_cons (h : queued data ≠ []) :
    queued data = data.next :: queued data.drop := by
  have hpos : 0 < queueLength data := by
    rw [← length_queued]
    exact List.length_pos_iff.mpr h
  have hcount : queueLength data.drop = queueLength data - 1 := by
    rw [queueLength]
    show Ring.distance _ (nextIndex data.readIndex).toNat data.writeIndex.toNat = _
    rw [nextIndex_toNat]
    exact Ring.distance_drop data.readIndex_lt data.writeIndex_lt hpos
  have hnext : slot data.inputBuffer data.readIndex.toNat = data.next := by
    rw [slot, Vector.getElem?_eq_getElem data.readIndex_lt]
    rfl
  calc queued data
      = Ring.contents _ (slot data.inputBuffer) data.readIndex.toNat
          (queueLength data - 1 + 1) := by rw [queued, Nat.sub_add_cancel hpos]
    _ = data.next :: Ring.contents _ (slot data.inputBuffer)
          ((data.readIndex.toNat + 1) % SERIAL_BUFFER_LENGTH) (queueLength data - 1) := by
        rw [Ring.contents_succ _ data.readIndex_lt, hnext]
    _ = data.next :: queued data.drop := by
        rw [queued, hcount, ← nextIndex_toNat]
        rfl

/-- The copy loop takes the bytes from the front. -/
theorem copyOut_eq {n : ℕ} (data : SerialDeviceData) (h : n ≤ (queued data).length) :
    (copyOut n data).1 = (queued data).take n ∧
      queued (copyOut n data).2 = (queued data).drop n ∧
      (copyOut n data).2.initialized = data.initialized := by
  induction n generalizing data with
  | zero => exact ⟨rfl, rfl, rfl⟩
  | succ n ih =>
    have hne : queued data ≠ [] := List.length_pos_iff.mp (Nat.zero_lt_of_lt h)
    have hcons := queued_eq_cons data hne
    rw [hcons] at h ⊢
    obtain ⟨hbytes, hrest, hinit⟩ := ih data.drop (Nat.le_of_succ_le_succ h)
    refine ⟨?_, ?_, ?_⟩
    · show data.next :: (copyOut n data.drop).1 = _
      rw [hbytes, List.take_succ_cons]
    · show queued (copyOut n data.drop).2 = _
      rw [hrest, List.drop_succ_cons]
    · show (copyOut n data.drop).2.initialized = _
      exact hinit

/-! ### The two operations -/

/-- A full buffer rejects the byte. -/
theorem serialIrqHandler_full (received : UInt8)
    (h : (queued data).length = SERIAL_BUFFER_LENGTH - 1) :
    serialIrqHandler data received = (data, []) := by
  rw [serialIrqHandler, if_neg (not_not.mpr ((nextIndex_writeIndex data).mpr h))]
  exact ite_self _

/-- A buffer with room accepts it. -/
theorem serialIrqHandler_room (received : UInt8) (hinit : data.initialized = true)
    (h : (queued data).length ≠ SERIAL_BUFFER_LENGTH - 1) :
    serialIrqHandler data received = (data.store (newline received), [newline received]) := by
  have hready : ¬ data.initialized = false := by
    rw [hinit]
    exact Bool.false_ne_true.symm
  rw [serialIrqHandler, if_neg hready, if_pos]
  exact fun heq => h ((nextIndex_writeIndex data).mp heq)

/-- A read that asks for bytes waits as long as none is queued. -/
theorem serialReadOp_waits (hlen : len ≠ 0) (h : queued data = []) :
    serialReadOp data len = none := by
  rw [serialReadOp, if_neg hlen, if_pos ((queued_eq_nil data).mp h)]

/-- A read that finds bytes takes as many as it asks for, or all of them. -/
theorem serialReadOp_of_queued (hlen : len ≠ 0) (h : queued data ≠ []) :
    ∃ data', serialReadOp data len = some ((queued data).take len.toNat, data') ∧
      queued data' = (queued data).drop len.toNat ∧ data'.initialized = data.initialized := by
  have hcount : (if len > available data then available data else len).toNat =
      min len.toNat (queued data).length := by
    rw [length_queued, ← available_toNat]
    split_ifs with hgt
    · exact (Nat.min_eq_right (UInt64.lt_iff_toNat_lt.mp hgt).le).symm
    · exact (Nat.min_eq_left (UInt64.le_iff_toNat_le.mp (UInt64.not_lt.mp hgt))).symm
  have hread : serialReadOp data len =
      some (copyOut (min len.toNat (queued data).length) data) := by
    rw [serialReadOp, if_neg hlen, if_neg fun heq => h ((queued_eq_nil data).mpr heq), ← hcount]
  obtain ⟨hbytes, hrest, hinit⟩ := copyOut_eq data (Nat.min_le_right len.toNat _)
  refine ⟨(copyOut (min len.toNat (queued data).length) data).2, ?_, ?_, hinit⟩
  · rw [hread, List.take_eq_take_min, ← hbytes]
  · rw [hrest, ← List.drop_eq_drop_min]

/-! ### Runs -/

/-- What every run keeps: the returned bytes and the queued ones are the accepted ones. -/
structure PortInv (port : SerialPort) : Prop where
  initialized : port.data.initialized = true
  fifo : port.returned ++ queued port.data = port.accepted

theorem portInv_irq (received : UInt8) (hinv : PortInv port) :
    PortInv { port with
      data := (serialIrqHandler port.data received).1
      accepted := port.accepted ++ (serialIrqHandler port.data received).2 } := by
  by_cases h : (queued port.data).length = SERIAL_BUFFER_LENGTH - 1
  · rw [serialIrqHandler_full port.data received h]
    exact ⟨hinv.initialized, by simpa using hinv.fifo⟩
  · rw [serialIrqHandler_room port.data received hinv.initialized h]
    refine ⟨hinv.initialized, ?_⟩
    show port.returned ++ queued (port.data.store _) = port.accepted ++ [_]
    rw [queued_store port.data _ h, ← List.append_assoc, hinv.fifo]

theorem portInv_read {bytes : List UInt8} {data : SerialDeviceData}
    (hread : serialReadOp port.data len = some (bytes, data)) (hinv : PortInv port) :
    PortInv { port with data, returned := port.returned ++ bytes } := by
  by_cases hlen : len = 0
  · rw [serialReadOp, if_pos hlen, Option.some_inj, Prod.mk.injEq] at hread
    obtain ⟨rfl, rfl⟩ := hread
    exact ⟨hinv.initialized, by simpa using hinv.fifo⟩
  by_cases h : queued port.data = []
  · rw [serialReadOp_waits port.data hlen h] at hread
    cases hread
  obtain ⟨data', hdata, hrest, hinit⟩ := serialReadOp_of_queued port.data hlen h
  rw [hdata, Option.some_inj, Prod.mk.injEq] at hread
  obtain ⟨rfl, rfl⟩ := hread
  refine ⟨hinit.trans hinv.initialized, ?_⟩
  show (port.returned ++ (queued port.data).take _) ++ queued data' = port.accepted
  rw [hrest, List.append_assoc, List.take_append_drop, hinv.fifo]

theorem portInv_step {step : SerialStep} (hinv : PortInv port)
    (hstep : serialStep port step = some port') : PortInv port' := by
  cases step with
  | irq received =>
    cases hstep
    exact portInv_irq received hinv
  | read len =>
    rw [serialStep] at hstep
    split at hstep
    · cases hstep
    · rename_i bytes data hread
      cases hstep
      exact portInv_read hread hinv

/-- The invariant goes along a run. -/
theorem portInv_run {steps : List SerialStep} (hinv : PortInv port)
    (hrun : runSteps serialStep port steps = some port') : PortInv port' := by
  induction steps generalizing port with
  | nil =>
    cases hrun
    exact hinv
  | cons step steps ih =>
    obtain ⟨middle, hstep, hrest⟩ := runSteps_cons_some hrun
    exact ih (portInv_step hinv hstep) hrest

theorem portInv_init (buffer : Vector UInt8 SERIAL_BUFFER_LENGTH) :
    PortInv ⟨serialInit buffer, [], []⟩ :=
  ⟨rfl, (queued_eq_nil _).mpr rfl⟩

/-- The input buffer is a bounded queue. After every run of interrupts and reads, the bytes
returned by the reads, followed by those still queued, are the accepted bytes in the order of
their arrival. The next received byte is rejected exactly if 127 bytes are queued, and else
accepted with `'\r'` as `'\n'`. The next read that asks for bytes and finds some returns as many
as it asks for, or all that are queued. -/
theorem serial_fifo (buffer : Vector UInt8 SERIAL_BUFFER_LENGTH) (steps : List SerialStep)
    (port : SerialPort)
    (hrun : runSteps serialStep ⟨serialInit buffer, [], []⟩ steps = some port) :
    port.returned ++ queued port.data = port.accepted ∧
    (∀ received, (serialIrqHandler port.data received).2 =
      if (queued port.data).length = SERIAL_BUFFER_LENGTH - 1 then []
      else [if received = 0x0D then 0x0A else received]) ∧
    (∀ len, len ≠ 0 → queued port.data ≠ [] → ∃ bytes data,
      serialReadOp port.data len = some (bytes, data) ∧
      bytes.length = min len.toNat (queued port.data).length ∧ bytes.length ≠ 0) := by
  have hinv := portInv_run (portInv_init buffer) hrun
  refine ⟨hinv.fifo, fun received => ?_, fun len hlen h => ?_⟩
  · split_ifs with h hcr
    · rw [serialIrqHandler_full port.data received h]
    · rw [serialIrqHandler_room port.data received hinv.initialized h, newline, if_pos hcr]
    · rw [serialIrqHandler_room port.data received hinv.initialized h, newline, if_neg hcr]
  · obtain ⟨data, hread, -, -⟩ := serialReadOp_of_queued port.data hlen h
    have hpos : 0 < len.toNat := by
      rw [Nat.pos_iff_ne_zero]
      exact fun hzero => hlen (UInt64.toNat_inj.mp hzero)
    have hsome := List.length_pos_iff.mpr h
    refine ⟨_, data, hread, List.length_take, ?_⟩
    rw [List.length_take]
    omega

/-- Two bytes arrive, the second of them a carriage return, and a read takes the first. -/
theorem serial_fifo_twoBytes :
    ∃ port, runSteps serialStep ⟨serialInit (Vector.replicate 128 0), [], []⟩
        [.irq 0x61, .irq 0x0D, .read 1] = some port ∧
      port.returned = [0x61] ∧ port.returned ++ queued port.data = [0x61, 0x0A] := by
  have hrun : runSteps serialStep ⟨serialInit (Vector.replicate 128 0), [], []⟩
      [.irq 0x61, .irq 0x0D, .read 1] = some _ := rfl
  exact ⟨_, hrun, rfl, (serial_fifo _ _ _ hrun).1⟩

end DzOS.Proofs.Drivers
