import DzOS.Drivers.NvmeBlock
import DzOS.Proofs.Drivers.Nvme

/-!
# `DzOS.Proofs.Drivers.NvmeBlock`: the NVMe driver is a disk

A call goes through the queue pair, a page and the controller, and in between either party may
stand anywhere. `Progress` says what is where: the command and its data are ready, or the controller
has carried the command out and the result is in the page. The invariant `Steady` adds that the
calls that returned are a serial history (`Serial`): every write took effect as a whole, every read
returned what the writes before it left, and the namespace has these writes and nothing else.

`nvme_backs_dzfs` is the result for `write_block` and `read_block`. In every interleaving, they keep
the disk that `Dzfs.readBlock` and `Dzfs.writeBlock` are about.
-/

set_option autoImplicit false

namespace DzOS.Proofs.Drivers

open DzOS.Drivers DzOS.Lib DzOS.Fs

variable {blockSize blockCount : UInt32} {lba : UInt64} {status : UInt16} {request : NvmeRequest}

/-! ### Requests and commands -/

/-- The number of bytes of a request. -/
def transferSize (blockSize : UInt32) (request : NvmeRequest) : ℕ :=
  request.blockCount.toNat * blockSize.toNat

/-- The first byte of a request in the namespace. -/
def transferStart (blockSize : UInt32) (request : NvmeRequest) : ℕ :=
  request.lba.toNat * blockSize.toNat

/-- The buffer of a write has the bytes of the request. -/
def BufferFits (blockSize : UInt32) : NvmeRequest → Prop
  | .write lba blockCount buffer =>
    transferSize blockSize (.write lba blockCount buffer) ≤ buffer.length
  | .read _ _ => True

instance (blockSize : UInt32) (request : NvmeRequest) : Decidable (BufferFits blockSize request) :=
  match request with
  | .write _ _ buffer => inferInstanceAs (Decidable (_ ≤ buffer.length))
  | .read _ _ => isTrue trivial

/-- What the callers promise: a request has blocks, its number of bytes does not overflow, and the
buffer of a write is long enough. -/
structure Proper (blockSize : UInt32) (request : NvmeRequest) : Prop where
  blockSize_pos : 0 < blockSize.toNat
  pos : 0 < request.blockCount.toNat
  lt : transferSize blockSize request < 2 ^ 32
  buffer : BufferFits blockSize request

/-- The namespace after a request. -/
def effect (blockSize : UInt32) (media : Bytes) : NvmeRequest → Bytes
  | .write lba blockCount buffer =>
    media.blit (transferStart blockSize (.write lba blockCount buffer))
      (buffer.take (transferSize blockSize (.write lba blockCount buffer)))
  | .read _ _ => media

/-- The page has the data of a write. -/
def Filled (blockSize : UInt32) (b : Bytes) : NvmeRequest → Prop
  | .write lba blockCount buffer =>
    b.slice 0 (transferSize blockSize (.write lba blockCount buffer))
      = buffer.take (transferSize blockSize (.write lba blockCount buffer))
  | .read _ _ => True

/-- The page has the data of a read. -/
def Fetched (blockSize : UInt32) (b media : Bytes) : NvmeRequest → Prop
  | .write _ _ _ => True
  | .read lba blockCount =>
    b.slice 0 (transferSize blockSize (.read lba blockCount))
      = media.slice (transferStart blockSize (.read lba blockCount))
        (transferSize blockSize (.read lba blockCount))

section
variable {blockSize : UInt32} {request : NvmeRequest} {cid : UInt16} {page : ℕ}

theorem Proper.byteCount (h : Proper blockSize request) :
    (byteCount blockSize request).toNat = transferSize blockSize request := by
  rw [DzOS.Drivers.byteCount, UInt32.toNat_mul]
  exact Nat.mod_eq_of_lt h.lt

/-- The call goes on exactly when the data fits in the page. -/
theorem Proper.refused_iff (h : Proper blockSize request) :
    DzOS.Drivers.byteCount blockSize request > NVME_BUFFER_SIZE ↔
      4096 < transferSize blockSize request := by
  rw [gt_iff_lt, UInt32.lt_iff_toNat_lt, h.byteCount]
  rfl

/-- The two words of an address are the address. -/
theorem lba_words (lba : UInt64) :
    lba.toUInt32.toNat + 2 ^ 32 * (lba >>> 32).toUInt32.toNat = lba.toNat := by
  have hlt := lba.toNat_lt
  rw [UInt64.toNat_toUInt32, UInt64.toNat_toUInt32, UInt64.toNat_shiftRight]
  have hshift : (32 : UInt64).toNat % 64 = 32 := rfl
  rw [hshift, Nat.shiftRight_eq_div_pow]
  omega

/-- The number of blocks in a command. -/
theorem blockCount_word (hpos : 0 < blockCount.toNat) (hle : blockCount.toNat ≤ 65536) :
    ((blockCount - 1) &&& 0xFFFF).toNat + 1
      = blockCount.toNat := by
  have hsub : (blockCount - 1).toNat = blockCount.toNat - 1 :=
    UInt32.toNat_sub_of_le _ _ (UInt32.le_iff_toNat_le.mpr hpos)
  have hmask : ((blockCount - 1) &&& 0xFFFF).toNat = (blockCount - 1).toNat % 2 ^ 16 := by
    rw [UInt32.toNat_and]
    exact Nat.and_two_pow_sub_one_eq_mod _ 16
  rw [hmask, hsub, Nat.mod_eq_of_lt (by omega)]
  omega

theorem Proper.blockCount_le (h : Proper blockSize request)
    (hfits : transferSize blockSize request ≤ 4096) : request.blockCount.toNat ≤ 4096 :=
  (Nat.le_mul_of_pos_right _ h.blockSize_pos).trans hfits

end

/-- The controller carries out the command of a write. -/
theorem execute_write {buffer : List UInt8} (h : Proper blockSize (.write lba blockCount buffer))
    (hfits : transferSize blockSize (.write lba blockCount buffer) ≤ 4096) (cid : UInt16) (page : ℕ)
    (s : NvmeSystem) :
    execute blockSize (sqEntry cid page (.write lba blockCount buffer)) s
      = { s with
          media := s.media.blit (transferStart blockSize (.write lba blockCount buffer))
            ((s.memory page).slice 0
              (transferSize blockSize (.write lba blockCount buffer))) } := by
  have hcount := h.blockCount_le hfits
  have hword : ((((blockCount - 1) &&& 0xFFFF) &&& 0xFFFF).toNat + 1) * blockSize.toNat
      = transferSize blockSize (.write lba blockCount buffer) := by
    have hpos : 0 < blockCount.toNat := h.pos
    rw [UInt32.and_assoc, UInt32.and_self, blockCount_word hpos (hcount.trans (by decide))]
    rfl
  unfold execute sqEntry
  simp only [if_true, lba_words, hword]
  rfl

/-- The controller carries out the command of a read. -/
theorem execute_read (h : Proper blockSize (.read lba blockCount))
    (hfits : transferSize blockSize (.read lba blockCount) ≤ 4096) (cid : UInt16) (page : ℕ)
    (s : NvmeSystem) :
    execute blockSize (sqEntry cid page (.read lba blockCount)) s
      = { s with
          memory := Function.update s.memory page ((s.memory page).blit 0
            (s.media.slice (transferStart blockSize (.read lba blockCount))
              (transferSize blockSize (.read lba blockCount)))) } := by
  have hcount := h.blockCount_le hfits
  have hword : (((blockCount - 1) &&& 0xFFFF).toNat + 1) * blockSize.toNat
      = transferSize blockSize (.read lba blockCount) := by
    have hpos : 0 < blockCount.toNat := h.pos
    rw [blockCount_word hpos (hcount.trans (by decide))]
    rfl
  have hopc : ¬ (2 : UInt8) = 1 := by decide
  unfold execute sqEntry
  simp only [if_true, if_neg hopc, lba_words, hword]
  rfl

/-! ### Histories -/

/-- The calls that returned are those of a disk: `media` is the namespace behind them. -/
inductive Serial (blockSize : UInt32) (media₀ : Bytes) : List NvmeReturn → Bytes → Prop
  | start : Serial blockSize media₀ [] media₀
  | refused {log : List NvmeReturn} {media : Bytes} {request : NvmeRequest} :
      Serial blockSize media₀ log media → 4096 < transferSize blockSize request →
      Serial blockSize media₀ (log ++ [.refused request]) media
  | write {log : List NvmeReturn} {media : Bytes} {lba : UInt64} {blockCount : UInt32}
      {buffer : List UInt8} : Serial blockSize media₀ log media →
      Serial blockSize media₀ (log ++ [.done (.write lba blockCount buffer) []])
        (effect blockSize media (.write lba blockCount buffer))
  | read {log : List NvmeReturn} {media : Bytes} {lba : UInt64} {blockCount : UInt32} :
      Serial blockSize media₀ log media →
      Serial blockSize media₀
        (log ++ [.done (.read lba blockCount)
          (media.slice (transferStart blockSize (.read lba blockCount))
            (transferSize blockSize (.read lba blockCount)))]) media

/-- Where the call that is under way stands, with `media` the namespace behind the calls that
returned. -/
inductive Progress (blockSize : UInt32) (s : NvmeSystem) (media : Bytes) : Prop
  | idle (call : s.call = none) (driver : s.pair.driver = .idle) (same : s.media = media)
  | waiting (request : NvmeRequest) (page : ℕ) (cid : UInt16) (left : UInt32)
      (call : s.call = some (request, page)) (driver : s.pair.driver = .polling left)
      (proper : Proper blockSize request) (fits : transferSize blockSize request ≤ 4096)
      (waits : s.pair.completed < s.pair.issued)
      (entry : s.submissionQueue s.pair.controller.submissionHead.toNat
        = sqEntry cid page request)
      (filled : Filled blockSize (s.memory page) request) (same : s.media = media)
  | carriedOut (request : NvmeRequest) (page : ℕ) (left : UInt32)
      (call : s.call = some (request, page)) (driver : s.pair.driver = .polling left)
      (proper : Proper blockSize request) (caughtUp : s.pair.completed = s.pair.issued)
      (fetched : Fetched blockSize (s.memory page) media request)
      (same : s.media = effect blockSize media request)

/-- What every interleaving keeps. -/
structure Steady (blockSize : UInt32) (size : ℕ) (media₀ : Bytes) (s : NvmeSystem) : Prop where
  inStep : InStep size s.pair
  serial : ∃ media, Serial blockSize media₀ s.returned media ∧ Progress blockSize s media

/-- What the turns of a run need: the calls are proper, no command fails, and the page of a call is
its own. -/
def SoundTurn (blockSize : UInt32) (s : NvmeSystem) : NvmeSystemTurn → Prop
  | .call request _ => Proper blockSize request
  | .driver => True
  | .controller status => statusOk status = true
  | .other page _ => ∀ request own, s.call = some (request, own) → page ≠ own

section
variable {blockSize : UInt32} {size : ℕ} {media₀ : Bytes} {s : NvmeSystem}

theorem steady_init {queueSize : UInt32} (h : 2 ≤ queueSize) (memory : ℕ → Bytes) :
    Steady blockSize queueSize.toNat media₀ (.init queueSize memory media₀) where
  inStep := inStep_init h
  serial := ⟨media₀, .start, .idle rfl rfl rfl⟩

/-! ### The turns of the driver -/

/-- The page of a write has its data when the doorbell rings. -/
theorem filled_fillPage (h : Proper blockSize request) (b : Bytes) :
    Filled blockSize (fillPage blockSize b request) request := by
  cases request with
  | read lba blockCount => trivial
  | write lba blockCount buffer =>
    have hfits : transferSize blockSize (.write lba blockCount buffer) ≤ buffer.length := h.buffer
    have hbytes := h.byteCount
    rw [Filled, fillPage, hbytes]
    generalize transferSize blockSize (.write lba blockCount buffer) = n at hfits
    refine List.ext_getElem ?_ fun i hi hi' => ?_
    · rw [Bytes.length_slice, List.length_take, Nat.min_eq_left hfits]
    · rw [Bytes.getElem_slice]
      rw [Bytes.length_slice] at hi
      rw [Bytes.blit_of_mem (Nat.zero_le _) (by rw [List.length_take]; omega)]
      congr 1
      omega

theorem Steady.call (h : Steady blockSize size media₀ s) (hproper : Proper blockSize request)
    (page : ℕ) (hnone : s.call = none) :
    Steady blockSize size media₀ (nvmeCall blockSize s request page) := by
  obtain ⟨media, hserial, hprogress⟩ := h.serial
  obtain ⟨hdriver, hsame⟩ : s.pair.driver = .idle ∧ s.media = media := by
    cases hprogress with
    | idle call driver same => exact ⟨driver, same⟩
    | waiting request page cid left call => rw [hnone] at call; cases call
    | carriedOut request page left call => rw [hnone] at call; cases call
  unfold nvmeCall
  by_cases hrefused : byteCount blockSize request > NVME_BUFFER_SIZE
  · rw [if_pos hrefused]
    exact ⟨h.inStep, media, hserial.refused (hproper.refused_iff.mp hrefused),
      .idle hnone hdriver hsame⟩
  · rw [if_neg hrefused]
    have hfits := not_lt.mp (mt hproper.refused_iff.mpr hrefused)
    have hcompleted : s.pair.completed = s.pair.issued :=
      Nat.le_antisymm h.inStep.completed_le (h.inStep.idle hdriver ▸ h.inStep.taken_le)
    have hhead : s.pair.controller.submissionHead = s.pair.queue.submissionQueueTail := by
      rw [← UInt32.toNat_inj, h.inStep.submissionHead, h.inStep.tail, hcompleted]
    refine ⟨inStep_submit h.inStep hdriver, media, hserial, ?_⟩
    refine .waiting request page s.nextCommandId _ rfl rfl hproper hfits ?_ ?_ ?_ hsame
    · exact hcompleted.symm ▸ Nat.lt_succ_self _
    · show Function.update s.submissionQueue _ _ s.pair.controller.submissionHead.toNat = _
      rw [hhead, Function.update_self]
    · show Filled blockSize (Function.update s.memory page _ page) request
      rw [Function.update_self]
      exact filled_fillPage hproper _

/-- A look at a completion is no submission. -/
theorem driverTurn_counts {pair : NvmePair} {left : UInt32}
    (hdriver : pair.driver = .polling left) :
    (driverTurn pair).issued = pair.issued ∧ (driverTurn pair).completed = pair.completed ∧
      (driverTurn pair).controller = pair.controller ∧
      if left = 0 then (driverTurn pair).driver = .idle
      else ∃ left', (driverTurn pair).driver = .polling left' := by
  rw [driverTurn, hdriver]
  dsimp only
  by_cases hzero : left = 0
  · rw [if_pos hzero, if_pos hzero]
    exact ⟨rfl, rfl, rfl, rfl⟩
  · rw [if_neg hzero, if_neg hzero, poll]
    split
    · exact ⟨rfl, rfl, rfl, left, hdriver⟩
    · exact ⟨rfl, rfl, rfl, left - 1, rfl⟩

theorem Steady.driver (h : Steady blockSize size media₀ s) :
    Steady blockSize size media₀ (nvmeDriverTurn blockSize s) := by
  obtain ⟨media, hserial, hprogress⟩ := h.serial
  have hstep := inStep_driverTurn h.inStep
  unfold nvmeDriverTurn
  cases hprogress with
  | idle call driver same =>
    simp only [call]
    exact h
  | waiting request page cid left call driver proper fits waits entry filled same =>
    have hleft : ¬ left = 0 := by
      rintro rfl
      have hissued := (h.inStep.polling driver).1
      have htaken := h.inStep.taken_le
      have hzero : (0 : UInt32).toNat = 0 := rfl
      omega
    obtain ⟨hissued, hcompleted, hcontroller, hturn⟩ := driverTurn_counts driver
    rw [if_neg hleft] at hturn
    obtain ⟨left', hdriver'⟩ := hturn
    simp only [call, driver, if_neg hleft]
    refine ⟨hstep, media, hserial, .waiting request page cid left' rfl hdriver' proper fits ?_ ?_
      filled same⟩
    · simp only [hissued, hcompleted]
      exact waits
    · simp only [hcontroller]
      exact entry
  | carriedOut request page left call driver proper caughtUp fetched same =>
    obtain ⟨hissued, hcompleted, hcontroller, hturn⟩ := driverTurn_counts driver
    by_cases hleft : left = 0
    · -- The call returns.
      rw [if_pos hleft] at hturn
      simp only [call, driver, if_pos hleft]
      cases request with
      | write lba blockCount buffer =>
        exact ⟨hstep, _, hserial.write, .idle rfl hturn same⟩
      | read lba blockCount =>
        have hdata : nvmeResult blockSize (s.memory page) (.read lba blockCount)
            = .done (.read lba blockCount)
              (media.slice (transferStart blockSize (.read lba blockCount))
                (transferSize blockSize (.read lba blockCount))) := by
          rw [nvmeResult, proper.byteCount]
          exact congrArg _ fetched
        rw [hdata]
        exact ⟨hstep, media, hserial.read, .idle rfl hturn same⟩
    · rw [if_neg hleft] at hturn
      obtain ⟨left', hdriver'⟩ := hturn
      simp only [call, driver, if_neg hleft]
      refine ⟨hstep, media, hserial, .carriedOut request page left' rfl hdriver' proper ?_ fetched
        same⟩
      simp only [hissued, hcompleted]
      exact caughtUp

/-! ### The turns of the controller -/

theorem Steady.controller (h : Steady blockSize size media₀ s) (hok : statusOk status = true) :
    Steady blockSize size media₀ (nvmeControllerTurn blockSize s status) := by
  obtain ⟨media, hserial, hprogress⟩ := h.serial
  obtain ⟨hstep, hcompleted, hissued, -, hdriver⟩ := inStep_controllerTurn h.inStep status
  unfold nvmeControllerTurn
  dsimp only
  by_cases hcaught : s.pair.controller.submissionHead = s.pair.controller.tailDoorbell
  · rw [if_pos hcaught]
    exact h
  rw [if_neg hcaught, if_pos hok]
  have hbehind := mt h.inStep.caughtUp_iff.mpr hcaught
  cases hprogress with
  | idle call driver same =>
    exact absurd (Nat.le_antisymm h.inStep.completed_le
      (h.inStep.idle driver ▸ h.inStep.taken_le)) hbehind
  | carriedOut request page left call driver proper caughtUp => exact absurd caughtUp hbehind
  | waiting request page cid left call driver proper fits waits entry filled same =>
    rw [entry]
    cases request with
    | write lba blockCount buffer =>
      rw [execute_write proper fits]
      refine ⟨hstep, media, hserial, .carriedOut _ page left call (hdriver.trans driver) proper
        (hcompleted.trans hissued.symm) trivial ?_⟩
      simp only [effect, same]
      rw [filled]
    | read lba blockCount =>
      rw [execute_read proper fits]
      refine ⟨hstep, media, hserial, .carriedOut _ page left call (hdriver.trans driver) proper
        (hcompleted.trans hissued.symm) ?_ same⟩
      simp only [Fetched, Function.update_self, same]
      refine List.ext_getElem (by simp) fun i hi hi' => ?_
      rw [Bytes.length_slice] at hi hi'
      rw [Bytes.getElem_slice, Bytes.blit_of_mem (Nat.zero_le _) (by simp; omega)]
      simp

/-! ### Any turn -/

theorem Steady.other (h : Steady blockSize size media₀ s) {page : ℕ} {b : Bytes}
    (hpage : ∀ request own, s.call = some (request, own) → page ≠ own) :
    Steady blockSize size media₀ { s with memory := Function.update s.memory page b } := by
  obtain ⟨media, hserial, hprogress⟩ := h.serial
  refine ⟨h.inStep, media, hserial, ?_⟩
  cases hprogress with
  | idle call driver same => exact .idle call driver same
  | waiting request own cid left call driver proper fits waits entry filled same =>
    refine .waiting request own cid left call driver proper fits waits entry ?_ same
    simp only [Function.update_of_ne (hpage request own call).symm]
    exact filled
  | carriedOut request own left call driver proper caughtUp fetched same =>
    refine .carriedOut request own left call driver proper caughtUp ?_ same
    simp only [Function.update_of_ne (hpage request own call).symm]
    exact fetched

/-- Every turn keeps the queues and the medium in step. -/
theorem Steady.turn (h : Steady blockSize size media₀ s) {turn : NvmeSystemTurn}
    (hsound : SoundTurn blockSize s turn) :
    Steady blockSize size media₀ (nvmeSystemTurn blockSize s turn) := by
  cases turn with
  | call request page =>
    unfold nvmeSystemTurn
    dsimp only
    split
    · rename_i hnone
      exact h.call hsound page (Option.isNone_iff_eq_none.mp hnone)
    · exact h
  | driver => exact h.driver
  | controller status => exact h.controller hsound
  | other page b => exact h.other hsound

/-- Where the call stands does not matter: after one completion, two turns of the driver are enough
for its return. -/
theorem Steady.returns (h : Steady blockSize size media₀ s) (hok : statusOk status = true) :
    ∃ n ≤ 2, (nvmeSystemRun blockSize s (.controller status :: List.replicate n .driver)).call
      = none := by
  have hafter := h.controller hok
  have hcompleted : (nvmeControllerTurn blockSize s status).pair.completed
      = (nvmeControllerTurn blockSize s status).pair.issued := by
    unfold nvmeControllerTurn
    dsimp only
    by_cases hcaught : s.pair.controller.submissionHead = s.pair.controller.tailDoorbell
    · rw [if_pos hcaught]
      exact h.inStep.caughtUp_iff.mp hcaught
    · rw [if_neg hcaught, if_pos hok]
      have hsame : (execute blockSize (s.submissionQueue s.pair.controller.submissionHead.toNat)
          s).pair = s.pair := by
        unfold execute
        dsimp only
        split
        · rfl
        · split <;> rfl
      obtain ⟨-, hcompleted, hissued, -⟩ := inStep_controllerTurn h.inStep status
      simp only [hsame]
      exact hcompleted.trans hissued.symm
  have hrun : ∀ n, nvmeSystemRun blockSize s (.controller status :: List.replicate n .driver)
      = nvmeSystemRun blockSize (nvmeControllerTurn blockSize s status)
        (List.replicate n .driver) := fun _ => rfl
  simp only [hrun]
  generalize nvmeControllerTurn blockSize s status = s' at hafter hcompleted
  obtain ⟨media, -, hprogress⟩ := hafter.serial
  cases hprogress with
  | idle call => exact ⟨0, by decide, call⟩
  | waiting request page cid left call driver proper fits waits =>
    exact absurd hcompleted waits.ne
  | carriedOut request page left call driver =>
    by_cases hzero : left = 0
    · refine ⟨1, by decide, ?_⟩
      show (nvmeDriverTurn blockSize s').call = none
      unfold nvmeDriverTurn
      simp only [call, driver, if_pos hzero]
    · -- The first turn takes the completion.
      have hone := hafter.inStep.left_eq_one driver hzero
      have htaken : s'.pair.taken.length < s'.pair.completed := by
        have hissued := (hafter.inStep.polling driver).1
        rw [hone] at hissued
        have hnat : (1 : UInt32).toNat = 1 := rfl
        omega
      have hpair : (driverTurn s'.pair).driver = .polling 0 := by
        rw [driverTurn, driver]
        dsimp only
        rw [if_neg hzero, poll, if_neg (fun hspin => hafter.inStep.spins.mp hspin htaken), hone]
        rfl
      refine ⟨2, by decide, ?_⟩
      show (nvmeDriverTurn blockSize (nvmeDriverTurn blockSize s')).call = none
      have hfirst : nvmeDriverTurn blockSize s' = { s' with pair := driverTurn s'.pair } := by
        unfold nvmeDriverTurn
        simp only [call, driver, if_neg hzero]
      rw [hfirst]
      unfold nvmeDriverTurn
      simp only [call, hpair, if_true]

end

/-! ### The blocks of the file system -/

/-- The blocks of the disk are in the namespace, behind the offset of the partition. -/
def Backs (blockSize : UInt32) (media : Bytes) (disk : ℕ → Bytes) : Prop :=
  ∀ i < 2 ^ 32, ∀ j < DZFS_BLOCK_SIZE,
    media (PARTITION_OFFSET * blockSize.toNat + i * DZFS_BLOCK_SIZE + j) = disk i j

/-- The calls that returned are `writeBlock` and `readBlock` on a disk: the file system goes from
`fs₀` to `fs`. -/
inductive BlockHistory (blockSize : UInt32) (fs₀ : Dzfs) : List NvmeReturn → Dzfs → Prop
  | start : BlockHistory blockSize fs₀ [] fs₀
  | write {log : List NvmeReturn} {fs : Dzfs} (index : UInt32) (block : Bytes) :
      BlockHistory blockSize fs₀ log fs →
      BlockHistory blockSize fs₀ (log ++ [.done (writeBlock blockSize index block) []])
        (fs.writeBlock index.toNat block)
  | read {log : List NvmeReturn} {fs : Dzfs} (index : UInt32) :
      BlockHistory blockSize fs₀ log fs →
      BlockHistory blockSize fs₀
        (log ++ [.done (readBlock blockSize index)
          ((fs.readBlock index.toNat).slice 0 DZFS_BLOCK_SIZE)]) fs

/-- A turn where the calls are `write_block` and `read_block`. -/
inductive BlockTurn where
  | write (index : UInt32) (block : Bytes) (page : ℕ)
  | read (index : UInt32) (page : ℕ)
  | driver
  | controller (status : UInt16)
  | other (page : ℕ) (b : Bytes)

/-- The turn of the system. -/
def BlockTurn.turn (blockSize : UInt32) : BlockTurn → NvmeSystemTurn
  | .write index block page => .call (writeBlock blockSize index block) page
  | .read index page => .call (readBlock blockSize index) page
  | .driver => .driver
  | .controller status => .controller status
  | .other page b => .other page b

/-- A request of `write_block` or `read_block`. -/
def BlockRequest (blockSize : UInt32) (request : NvmeRequest) : Prop :=
  (∃ index block, request = writeBlock blockSize index block) ∨
    ∃ index, request = readBlock blockSize index

section
variable {blockSize : UInt32}

section

variable (hbs : DZFS_BLOCK_SIZE % blockSize.toNat = 0)

include hbs

theorem blockSize_pos : 0 < blockSize.toNat := by
  refine Nat.pos_of_ne_zero fun hzero => ?_
  rw [hzero, Nat.mod_zero] at hbs
  cases hbs

/-- The logical blocks of a block have its bytes. -/
theorem blockCount_mul : (4096 / blockSize).toNat * blockSize.toNat = DZFS_BLOCK_SIZE := by
  rw [UInt32.toNat_div]
  exact Nat.div_mul_cancel (Nat.dvd_of_mod_eq_zero hbs)

theorem blockLba_mul (index : UInt32) :
    (blockLba blockSize index).toNat * blockSize.toNat
      = PARTITION_OFFSET * blockSize.toNat + index.toNat * DZFS_BLOCK_SIZE := by
  have hmul := blockCount_mul hbs
  have hcount : (4096 / blockSize).toNat ≤ DZFS_BLOCK_SIZE :=
    (Nat.le_mul_of_pos_right _ (blockSize_pos hbs)).trans hmul.le
  have hindex := index.toNat_lt
  have hlba : (blockLba blockSize index).toNat
      = PARTITION_OFFSET + index.toNat * (4096 / blockSize).toNat := by
    have hprod : index.toNat * (4096 / blockSize).toNat ≤ 2 ^ 32 * DZFS_BLOCK_SIZE :=
      Nat.mul_le_mul hindex.le hcount
    have hlimit : 2 ^ 32 * DZFS_BLOCK_SIZE + PARTITION_OFFSET < 2 ^ 64 := by decide
    have hoffset : (133120 : UInt64).toNat = PARTITION_OFFSET := rfl
    rw [blockLba, UInt64.toNat_add, UInt64.toNat_mul, UInt32.toNat_toUInt64,
      UInt32.toNat_toUInt64, hoffset, Nat.mod_eq_of_lt (a := index.toNat * _) (by omega),
      Nat.mod_eq_of_lt (by omega)]
  rw [hlba, Nat.add_mul, Nat.mul_assoc, hmul]

end

theorem BlockRequest.proper (h : BlockRequest blockSize request)
    (hbs : DZFS_BLOCK_SIZE % blockSize.toNat = 0) :
    Proper blockSize request ∧ transferSize blockSize request = DZFS_BLOCK_SIZE := by
  have hmul := blockCount_mul hbs
  have hpos : 0 < (4096 / blockSize).toNat := by
    refine Nat.pos_of_ne_zero fun hzero => ?_
    rw [hzero, Nat.zero_mul] at hmul
    cases hmul
  have hlimit : DZFS_BLOCK_SIZE < 2 ^ 32 := by decide
  rcases h with ⟨index, block, rfl⟩ | ⟨index, rfl⟩
  · refine ⟨⟨blockSize_pos hbs, hpos, hmul.trans_lt hlimit, ?_⟩, hmul⟩
    exact hmul.le.trans_eq (Bytes.length_slice _ _ _).symm
  · exact ⟨⟨blockSize_pos hbs, hpos, hmul.trans_lt hlimit, trivial⟩, hmul⟩

/-- A write of a block changes the block, and nothing in front of the partition. -/
theorem Backs.write {media : Bytes} {disk : ℕ → Bytes} (h : Backs blockSize media disk)
    (hbs : DZFS_BLOCK_SIZE % blockSize.toNat = 0) (index : UInt32) (block : Bytes) :
    Backs blockSize (effect blockSize media (writeBlock blockSize index block))
        (Function.update disk index.toNat block) ∧
      ∀ a < PARTITION_OFFSET * blockSize.toNat,
        effect blockSize media (writeBlock blockSize index block) a = media a := by
  have hdata : (block.slice 0 DZFS_BLOCK_SIZE).take
      (transferSize blockSize (writeBlock blockSize index block))
      = block.slice 0 DZFS_BLOCK_SIZE := by
    refine List.take_of_length_le ?_
    rw [Bytes.length_slice]
    exact (blockCount_mul hbs).ge
  have heffect : effect blockSize media (writeBlock blockSize index block)
      = media.blit (PARTITION_OFFSET * blockSize.toNat + index.toNat * DZFS_BLOCK_SIZE)
        (block.slice 0 DZFS_BLOCK_SIZE) := by
    rw [← blockLba_mul hbs, ← hdata]
    rfl
  rw [heffect]
  unfold Backs at h ⊢
  generalize PARTITION_OFFSET * blockSize.toNat = offset at h ⊢
  refine ⟨fun i hi j hj => ?_, fun a ha => ?_⟩
  · by_cases hindex : i = index.toNat
    · subst hindex
      rw [Function.update_self, Bytes.blit_of_mem (Nat.le_add_right _ _)
        (by rw [Bytes.length_slice]; omega), Bytes.getElem_slice]
      congr 1
      omega
    · rw [Function.update_of_ne hindex, Bytes.blit_of_apart, h i hi j hj]
      rw [Bytes.length_slice]
      -- The two blocks are apart.
      rcases Nat.lt_or_gt_of_ne hindex with hlt | hgt
      · have hle : (i + 1) * DZFS_BLOCK_SIZE ≤ index.toNat * DZFS_BLOCK_SIZE :=
          Nat.mul_le_mul_right _ hlt
        rw [Nat.succ_mul] at hle
        exact Or.inl (by omega)
      · have hle : (index.toNat + 1) * DZFS_BLOCK_SIZE ≤ i * DZFS_BLOCK_SIZE :=
          Nat.mul_le_mul_right _ hgt
        rw [Nat.succ_mul] at hle
        exact Or.inr (by omega)
  · exact Bytes.blit_of_apart (Or.inl (by omega))

/-- A read of a block returns the block. -/
theorem Backs.read {media : Bytes} {disk : ℕ → Bytes} (h : Backs blockSize media disk)
    (hbs : DZFS_BLOCK_SIZE % blockSize.toNat = 0) (index : UInt32) :
    media.slice (transferStart blockSize (readBlock blockSize index))
        (transferSize blockSize (readBlock blockSize index))
      = (disk index.toNat).slice 0 DZFS_BLOCK_SIZE := by
  have hsize : transferSize blockSize (readBlock blockSize index) = DZFS_BLOCK_SIZE :=
    blockCount_mul hbs
  have hstart : transferStart blockSize (readBlock blockSize index)
      = PARTITION_OFFSET * blockSize.toNat + index.toNat * DZFS_BLOCK_SIZE := blockLba_mul hbs index
  rw [hsize, hstart]
  refine List.ext_getElem (by simp) fun i hi _ => ?_
  rw [Bytes.length_slice] at hi
  rw [Bytes.getElem_slice, Bytes.getElem_slice, Nat.zero_add]
  exact h _ index.toNat_lt i hi

/-- The request of a call that returned. -/
def returnRequest : NvmeReturn → NvmeRequest
  | .refused request => request
  | .done request _ => request

/-- A serial history of block requests is one of the file system. -/
theorem Serial.history {media₀ media : Bytes} {log : List NvmeReturn}
    (h : Serial blockSize media₀ log media) (hbs : DZFS_BLOCK_SIZE % blockSize.toNat = 0)
    (hblock : ∀ ret ∈ log, BlockRequest blockSize (returnRequest ret)) {fs₀ : Dzfs}
    (hbacks : Backs blockSize media₀ fs₀.disk) :
    ∃ fs, BlockHistory blockSize fs₀ log fs ∧ Backs blockSize media fs.disk ∧
      ∀ a < PARTITION_OFFSET * blockSize.toNat, media a = media₀ a := by
  induction h with
  | start => exact ⟨fs₀, .start, hbacks, fun _ _ => rfl⟩
  | refused _ hlarge _ =>
    have hlast := hblock _ (List.mem_append_right _ (List.mem_singleton_self _))
    rw [returnRequest] at hlast
    rw [(hlast.proper hbs).2] at hlarge
    exact absurd hlarge (by decide)
  | write _ ih =>
    have hlast := hblock _ (List.mem_append_right _ (List.mem_singleton_self _))
    obtain ⟨fs, hhistory, hfs, hbelow⟩ := ih fun ret hret =>
      hblock ret (List.mem_append_left _ hret)
    rcases hlast with ⟨index, block, heq⟩ | ⟨index, heq⟩
    · rw [returnRequest] at heq
      rw [heq]
      obtain ⟨hwritten, hsame⟩ := hfs.write hbs index block
      exact ⟨_, hhistory.write index block, hwritten, fun a ha =>
        (hsame a ha).trans (hbelow a ha)⟩
    · exact NvmeRequest.noConfusion heq
  | read _ ih =>
    have hlast := hblock _ (List.mem_append_right _ (List.mem_singleton_self _))
    obtain ⟨fs, hhistory, hfs, hbelow⟩ := ih fun ret hret =>
      hblock ret (List.mem_append_left _ hret)
    rcases hlast with ⟨index, block, heq⟩ | ⟨index, heq⟩
    · exact NvmeRequest.noConfusion heq
    · rw [returnRequest] at heq
      rw [heq, hfs.read hbs index]
      exact ⟨fs, hhistory.read index, hfs, hbelow⟩

end

/-! ### Runs of the file system -/

/-- What a turn needs of the controller and of the other users of the memory. -/
def SoundBlockTurn (s : NvmeSystem) : BlockTurn → Prop
  | .write _ _ _ => True
  | .read _ _ => True
  | .driver => True
  | .controller status => statusOk status = true
  | .other page _ => ∀ own ∈ s.call.map Prod.snd, page ≠ own

instance (s : NvmeSystem) (turn : BlockTurn) : Decidable (SoundBlockTurn s turn) :=
  match turn with
  | .write _ _ _ => isTrue trivial
  | .read _ _ => isTrue trivial
  | .driver => isTrue trivial
  | .controller status => inferInstanceAs (Decidable (statusOk status = true))
  | .other page _ => inferInstanceAs (Decidable (∀ own ∈ s.call.map Prod.snd, page ≠ own))

/-- The system after the turns of a list. -/
def blockRun (blockSize : UInt32) (s : NvmeSystem) (turns : List BlockTurn) : NvmeSystem :=
  nvmeSystemRun blockSize s (turns.map (BlockTurn.turn blockSize))

/-- The turns of a run are sound where they are taken. -/
def SoundBlockTurns (blockSize : UInt32) : NvmeSystem → List BlockTurn → Prop
  | _, [] => True
  | s, turn :: turns =>
    SoundBlockTurn s turn ∧
      SoundBlockTurns blockSize (nvmeSystemTurn blockSize s (turn.turn blockSize)) turns

instance decidableSoundBlockTurns (blockSize : UInt32) :
    (turns : List BlockTurn) → (s : NvmeSystem) → Decidable (SoundBlockTurns blockSize s turns)
  | [], _ => isTrue trivial
  | turn :: turns, s =>
    @instDecidableAnd _ _ _
      (decidableSoundBlockTurns blockSize turns
        (nvmeSystemTurn blockSize s (turn.turn blockSize)))

/-- The calls of the system are block requests. -/
structure BlockCalls (blockSize : UInt32) (s : NvmeSystem) : Prop where
  returned : ∀ ret ∈ s.returned, BlockRequest blockSize (returnRequest ret)
  call : ∀ request page, s.call = some (request, page) → BlockRequest blockSize request

section
variable {blockSize : UInt32} {size : ℕ} {media₀ : Bytes} {s : NvmeSystem}

section

variable (h : BlockCalls blockSize s)

include h

theorem BlockCalls.nvmeCall (hblock : BlockRequest blockSize request) (page : ℕ) :
    BlockCalls blockSize (nvmeCall blockSize s request page) := by
  unfold DzOS.Drivers.nvmeCall
  split
  · refine ⟨fun ret hret => ?_, h.call⟩
    rcases List.mem_append.mp hret with hret | hret
    · exact h.returned ret hret
    · obtain rfl := List.mem_singleton.mp hret
      exact hblock
  · refine ⟨h.returned, fun request page hcall => ?_⟩
    cases hcall
    exact hblock

theorem BlockCalls.nvmeDriverTurn : BlockCalls blockSize (nvmeDriverTurn blockSize s) := by
  unfold DzOS.Drivers.nvmeDriverTurn
  split
  · rename_i request page left hcall _
    dsimp only
    split
    · refine ⟨fun ret hret => ?_, fun _ _ hnone => nomatch hnone⟩
      rcases List.mem_append.mp hret with hret | hret
      · exact h.returned ret hret
      · obtain rfl := List.mem_singleton.mp hret
        have hblock := h.call request page hcall
        cases request with
        | write lba blockCount buffer => exact hblock
        | read lba blockCount => exact hblock
    · exact ⟨h.returned, h.call⟩
  · exact h

theorem BlockCalls.nvmeControllerTurn (status : UInt16) :
    BlockCalls blockSize (nvmeControllerTurn blockSize s status) := by
  have hexecute : ∀ entry, (execute blockSize entry s).returned = s.returned ∧
      (execute blockSize entry s).call = s.call := by
    intro entry
    unfold execute
    dsimp only
    split
    · exact ⟨rfl, rfl⟩
    · split <;> exact ⟨rfl, rfl⟩
  unfold DzOS.Drivers.nvmeControllerTurn
  dsimp only
  split
  · exact h
  · split
    · obtain ⟨hreturned, hcall⟩ := hexecute
        (s.submissionQueue s.pair.controller.submissionHead.toNat)
      refine ⟨?_, ?_⟩
      · simp only [hreturned]
        exact h.returned
      · simp only [hcall]
        exact h.call
    · exact ⟨h.returned, h.call⟩

theorem BlockCalls.turn (turn : BlockTurn) :
    BlockCalls blockSize (nvmeSystemTurn blockSize s (turn.turn blockSize)) := by
  cases turn with
  | write index block page =>
    simp only [BlockTurn.turn, nvmeSystemTurn]
    split
    · exact h.nvmeCall (Or.inl ⟨index, block, rfl⟩) page
    · exact h
  | read index page =>
    simp only [BlockTurn.turn, nvmeSystemTurn]
    split
    · exact h.nvmeCall (Or.inr ⟨index, rfl⟩) page
    · exact h
  | driver => exact h.nvmeDriverTurn
  | controller status => exact h.nvmeControllerTurn status
  | other page b => exact ⟨h.returned, h.call⟩

end

theorem SoundBlockTurn.sound {turn : BlockTurn} (h : SoundBlockTurn s turn)
    (hbs : DZFS_BLOCK_SIZE % blockSize.toNat = 0) :
    SoundTurn blockSize s (turn.turn blockSize) := by
  cases turn with
  | write index block page =>
    exact (BlockRequest.proper (Or.inl ⟨index, block, rfl⟩) hbs).1
  | read index page => exact (BlockRequest.proper (Or.inr ⟨index, rfl⟩) hbs).1
  | driver => trivial
  | controller status => exact h
  | other page b =>
    intro request own hcall
    refine h own ?_
    rw [hcall]
    rfl

/-- A run of block requests keeps the invariant. -/
theorem Steady.blockRun (h : Steady blockSize size media₀ s) (hcalls : BlockCalls blockSize s)
    (hbs : DZFS_BLOCK_SIZE % blockSize.toNat = 0) {turns : List BlockTurn}
    (hsound : SoundBlockTurns blockSize s turns) :
    Steady blockSize size media₀ (blockRun blockSize s turns) ∧
      BlockCalls blockSize (blockRun blockSize s turns) := by
  induction turns generalizing s with
  | nil => exact ⟨h, hcalls⟩
  | cons turn turns ih => exact ih (h.turn (hsound.1.sound hbs)) (hcalls.turn turn) hsound.2

end

/-- The NVMe driver is the disk of the file system. In every interleaving of calls of `write_block`
and `read_block` with the driver, the controller and writes to other pages, the calls that returned
are writes and reads of the blocks of `fs₀`, one after the other. When no call is under way, what
they leave is in the namespace. Nothing in front of the partition changes, and a call that
is under way returns after one more completion and two turns of the driver. -/
theorem nvme_backs_dzfs {blockSize queueSize : UInt32}
    (hbs : DZFS_BLOCK_SIZE % blockSize.toNat = 0) (hqueue : 2 ≤ queueSize) (memory : ℕ → Bytes)
    {media : Bytes} {fs₀ : Dzfs} (hbacks : Backs blockSize media fs₀.disk) {turns : List BlockTurn}
    (hsound : SoundBlockTurns blockSize (.init queueSize memory media) turns) :
    let s := blockRun blockSize (.init queueSize memory media) turns
    (∃ fs, BlockHistory blockSize fs₀ s.returned fs ∧
        (s.call = none → Backs blockSize s.media fs.disk)) ∧
      (∀ a < PARTITION_OFFSET * blockSize.toNat, s.media a = media a) ∧
      ∀ status, statusOk status = true → ∃ n ≤ 2,
        (blockRun blockSize s (.controller status :: List.replicate n .driver)).call = none := by
  have hcalls : BlockCalls blockSize (.init queueSize memory media) :=
    ⟨fun _ hret => (nomatch hret), fun _ _ hcall => (nomatch hcall)⟩
  obtain ⟨hsteady, hblock⟩ := (steady_init hqueue memory).blockRun hcalls hbs hsound
  obtain ⟨media', hserial, hprogress⟩ := hsteady.serial
  obtain ⟨fs, hhistory, hfs, hbelow⟩ := hserial.history hbs hblock.returned hbacks
  refine ⟨⟨fs, hhistory, fun hnone => ?_⟩, ?_, fun status hok => ?_⟩
  · cases hprogress with
    | idle call driver same => exact same ▸ hfs
    | waiting request page cid left call => rw [hnone] at call; cases call
    | carriedOut request page left call => rw [hnone] at call; cases call
  · cases hprogress with
    | idle call driver same => exact same ▸ hbelow
    | waiting request page cid left call driver proper fits waits entry filled same =>
      exact same ▸ hbelow
    | carriedOut request page left call driver proper caughtUp fetched same =>
      intro a ha
      rw [same, ← hbelow a ha]
      rcases hblock.call request page call with ⟨index, block, rfl⟩ | ⟨index, rfl⟩
      · exact (hfs.write hbs index block).2 a ha
      · rfl
  · obtain ⟨n, hn, hreturns⟩ := hsteady.returns hok
    refine ⟨n, hn, ?_⟩
    have hmap : (.controller status :: List.replicate n .driver : List BlockTurn).map
        (BlockTurn.turn blockSize) = .controller status :: List.replicate n .driver := by
      rw [List.map_cons, List.map_replicate]
      rfl
    rw [blockRun, hmap]
    exact hreturns

/-- A write of block 5 and a read of it. In between, someone writes to another page. -/
def blockTurns : List BlockTurn :=
  [.write 5 (fun i => UInt8.ofNat i) 7, .driver, .other 8 Bytes.zero, .controller 0, .driver,
    .driver, .read 5 8, .controller 0, .driver, .driver]

theorem nvme_backs_dzfs_run :
    let s := blockRun 512 (.init 16 (fun _ => Bytes.zero) Bytes.zero) blockTurns
    ∃ fs, BlockHistory 512 ⟨fun _ => Bytes.zero, 0, 0⟩ s.returned fs ∧
      (s.call = none → Backs 512 s.media fs.disk) :=
  (nvme_backs_dzfs (show DZFS_BLOCK_SIZE % (512 : UInt32).toNat = 0 by decide)
    (show 2 ≤ (16 : UInt32) by decide) (fun _ => Bytes.zero)
    (show Backs 512 Bytes.zero (Dzfs.disk ⟨fun _ => Bytes.zero, 0, 0⟩) from fun _ _ _ _ => rfl)
    (by decide)).1

end DzOS.Proofs.Drivers
