import DzOS.Lib.Monitor
import DzOS.Proofs.Sched.WaitExit

/-!
# `DzOS.Proofs.Sched.SerialWait`: reads of the serial port miss no byte

A read of the serial port sleeps while the buffer is empty, and the interrupt handler wakes the
readers. The scheduler, the other system calls and the exits run in between. Most of the kernel code
puts nobody to sleep (`Hushed`). Only `condvar_wait` does (`Parked`).

So every step is a step of a monitor, whose condition is that the buffer has bytes
(`blockStep_monitor`), and nobody sleeps in a read while there are bytes
(`serial_no_lost_wakeup`). The handler needs this itself: it wakes nobody when the buffer is full.
-/

set_option autoImplicit false

namespace DzOS.Proofs.Sched.SerialWait

open DzOS.Lib DzOS.Sched DzOS.Proofs.Sched DzOS.Proofs.Sched.Blocking
open DzOS.Proofs.Sched.StackSlots DzOS.Proofs.Sched.ProcessLocks DzOS.Proofs.Sched.WaitExit

variable {q p : ProcPtr} {waitingChannel now : UInt64} {c : LockConfig} {s s' s'' : BlockState}
  {l : Lock}

/-! ### Notifications -/

/-- Nobody in the slots from `i` on sleeps on the channel, up to the current process. -/
def Roused (s : BlockState) (waitingChannel : UInt64) (left i : Nat) : Prop :=
  ∀ j, i ≤ j → j < i + left → ∀ q, s.sched.processes j = some q → s.sched.rq.curr ≠ some q →
    waitsOn s.sched q waitingChannel = false

theorem waitsOn_eq_false {sched : SchedState} :
    waitsOn sched q waitingChannel = false ↔
      ((sched.procs q).state = .SLEEPING → (sched.procs q).waitingChannel ≠ some waitingChannel) :=
  decide_eq_false_iff_not.trans not_and

theorem Hushed.not_waitsOn (h : Hushed s s') (hq : waitsOn s.sched q waitingChannel = false) :
    waitsOn s'.sched q waitingChannel = false := by
  rw [waitsOn_eq_false] at hq ⊢
  intro hsleeps
  obtain ⟨hslept, hchannel⟩ := h.wakes q hsleeps
  rw [hchannel]
  exact hq hslept

/-- `proc_wakeup` for everyone. -/
theorem procWakeupFrom_rouses (waitingChannel : UInt64) (left i : Nat) (s : BlockState) :
    Ensures (procWakeupFrom c waitingChannel true left i s) fun t =>
      Hushed s t ∧ Roused t waitingChannel left i := by
  induction left generalizing i s with
  | zero => exact Ensures.ok ⟨Hushed.refl s, fun j hi hj => absurd hj (by omega)⟩
  | succ left ih =>
    -- The slot `i` is done, and the rest of the loop goes on from `t`.
    have hrest : ∀ t, Hushed s t → (∀ q, t.sched.processes i = some q → t.sched.rq.curr ≠ some q →
        waitsOn t.sched q waitingChannel = false) →
        Ensures (procWakeupFrom c waitingChannel true left (i + 1) t) fun u =>
          Hushed s u ∧ Roused u waitingChannel (left + 1) i := by
      intro t ht hslot
      refine (ih (i + 1) t).imp fun u ⟨hu, hroused⟩ => ⟨ht.trans hu, fun j hij hj q hq hcurr => ?_⟩
      by_cases hji : j = i
      · subst hji
        rw [hu.calm.processes] at hq
        rw [hu.calm.curr] at hcurr
        exact Hushed.not_waitsOn hu (hslot q hq hcurr)
      · exact hroused j (by omega) (by omega) q hq hcurr
    unfold procWakeupFrom
    split
    · rename_i hnone
      refine hrest s (Hushed.refl s) fun q hq => ?_
      rw [hnone] at hq
      cases hq
    · rename_i q hq
      refine Ensures.ite (fun hcurr => ?_) fun _ => ?_
      · refine hrest s (Hushed.refl s) fun q' hq' hne => ?_
        rw [hq] at hq'
        cases hq'
        exact absurd hcurr hne
      refine Ensures.bind (hushed_lock (.proc q) s) fun t ht => ?_
      have hunlock : ∀ u, Hushed t u → waitsOn u.sched q waitingChannel = false →
          Ensures (do
            let s ← spinlockUnlock c (.proc q) u
            if waitsOn t.sched q waitingChannel && !true then .ok s
            else procWakeupFrom c waitingChannel true left (i + 1) s) fun u =>
              Hushed s u ∧ Roused u waitingChannel (left + 1) i := by
        intro u hu hawake
        refine Ensures.bind (hushed_unlock (.proc q) u) fun v hv => ?_
        refine Ensures.ite (fun hlast => by simp at hlast) fun _ => ?_
        refine hrest v ((ht.trans hu).trans hv) fun q' hq' _ => ?_
        rw [((ht.trans hu).trans hv).calm.processes, hq] at hq'
        cases hq'
        exact Hushed.not_waitsOn hv hawake
      refine Ensures.ite (fun _ => ?_) fun hno => hunlock t (Hushed.refl t) (by simpa using hno)
      refine Ensures.bind (withRunqueue_hushed _ t) fun u ⟨v, hv, hu⟩ => ?_
      have hwoken : Hushed v (v.mapSched fun sched => schedWakeup sched q) :=
        hushed_mapSched (calm_schedWakeup _ q) (wakes_schedWakeup _ q)
      refine hunlock u ((hv.trans hwoken).trans hu) (Hushed.not_waitsOn hu ?_)
      exact waitsOn_eq_false.mpr fun hsleeps => absurd hsleeps (schedWakeup_awake _ q)

/-- `condvar_notify_all`: only the current process may still sleep on the channel. -/
theorem condvarNotifyAll_rouses (l : Lock) (s : BlockState) :
    Ensures (condvarNotifyAll c l s) fun t => Hushed s t ∧ Roused t (c.addr l) MAX_PROCESSES 0 :=
  procWakeupFrom_rouses (c.addr l) MAX_PROCESSES 0 s

/-! ### Sleepers -/

/-- The process sleeps on the channel, and goes on at `r`. -/
structure Rests (s : BlockState) (x : ProcPtr) (channel : Option UInt64) (r : Resume) : Prop where
  live : Live s.sched x
  sleeping : (s.sched.procs x).state = .SLEEPING
  channel_eq : (s.sched.procs x).waitingChannel = channel
  resume_eq : s.resume x = r

/-- Who sleeps in `s'` slept in `s`, and the serial buffer is the same. -/
structure Quieter (s s' : BlockState) : Prop where
  rests : ∀ x channel r, Rests s' x channel r → Rests s x channel r
  readIndex : s'.readIndex = s.readIndex
  writeIndex : s'.writeIndex = s.writeIndex

theorem Quieter.trans (h : Quieter s s') (h' : Quieter s' s'') : Quieter s s'' where
  rests x channel r hx := h.rests x channel r (h'.rests x channel r hx)
  readIndex := h'.readIndex.trans h.readIndex
  writeIndex := h'.writeIndex.trans h.writeIndex

/-- A state with fewer live processes and fewer sleepers. -/
theorem Quieter.of_wakes (hlive : ∀ x, Live s'.sched x → Live s.sched x)
    (hwakes : Wakes s.sched s'.sched) (hresume : s'.resume = s.resume)
    (hread : s'.readIndex = s.readIndex) (hwrite : s'.writeIndex = s.writeIndex) :
    Quieter s s' where
  rests x channel r hx := by
    obtain ⟨hslept, hchannel⟩ := hwakes x hx.sleeping
    exact ⟨hlive x hx.live, hslept, hchannel.symm.trans hx.channel_eq,
      (congrFun hresume x).symm.trans hx.resume_eq⟩
  readIndex := hread
  writeIndex := hwrite

theorem Hushed.quieter (h : Hushed s s') : Quieter s s' :=
  .of_wakes (fun x => (h.calm.live x).mp) h.wakes h.resume h.readIndex h.writeIndex

section

variable (hp : (s.sched.procs p).state ≠ .SLEEPING)

include hp

/-- A process that is awake may go on elsewhere. -/
theorem quieter_resume (hsched : s'.sched = s.sched)
    (hresume : ∀ x, x ≠ p → s'.resume x = s.resume x) (hread : s'.readIndex = s.readIndex)
    (hwrite : s'.writeIndex = s.writeIndex) : Quieter s s' where
  rests x channel r hx := by
    have hlive := hx.live
    have hsleeping := hx.sleeping
    have hchannel := hx.channel_eq
    rw [hsched] at hlive hsleeping hchannel
    have hxp : x ≠ p := fun heq => hp (heq ▸ hsleeping)
    exact ⟨hlive, hsleeping, hchannel, (hresume x hxp).symm.trans hx.resume_eq⟩
  readIndex := hread
  writeIndex := hwrite

theorem quieter_stopAt (r : Resume) : Quieter s (s.stopAt p r) :=
  quieter_resume hp rfl (fun _ hx => Function.update_of_ne hx _ _) rfl rfl

theorem quieter_returnTo (value : Int32) : Quieter s (s.returnTo p value) :=
  quieter_resume hp rfl (fun _ hx => Function.update_of_ne hx _ _) rfl rfl

end

/-! ### The monitor -/

/-- The processes that sleep in a read of the serial port. -/
def readers (s : BlockState) : Set ProcPtr :=
  { x | ∃ channel len, Rests s x channel (.serialRead len) }

/-- The readers wait for bytes in the buffer. -/
def serialMonitor (s : BlockState) : Monitor ProcPtr := ⟨readers s, s.readIndex ≠ s.writeIndex⟩

/-- The readers sleep on the channel of the serial port. -/
def OnChannel (c : LockConfig) (s : BlockState) : Prop :=
  ∀ x channel len, Rests s x channel (.serialRead len) → channel = some (c.addr .serial)

/-- A step of the monitor, after which the readers still sleep on the channel. -/
structure Turn (c : LockConfig) (s s' : BlockState) : Prop where
  monitor : MonitorStep (serialMonitor s) (serialMonitor s')
  channel : OnChannel c s → OnChannel c s'

/-- Every result is a step of the monitor. -/
def TurnResult (c : LockConfig) (s : BlockState) (o : Outcome) : Prop := Ensures o (Turn c s)

/-- Nobody new sleeps. -/
theorem Turn.of_rests (hrests : ∀ x channel r, Rests s' x channel r → Rests s x channel r)
    (hmonitor : readers s' ⊆ readers s → MonitorStep (serialMonitor s) (serialMonitor s')) :
    Turn c s s' where
  monitor := hmonitor fun x ⟨channel, len, hx⟩ => ⟨channel, len, hrests x channel _ hx⟩
  channel hon x channel len hx := hon x channel len (hrests x channel _ hx)

theorem Quieter.turn (h : Quieter s s') : Turn c s s' := by
  refine .of_rests h.rests fun hsub => .wake hsub ?_
  simp only [serialMonitor, h.readIndex, h.writeIndex]

/-- One process went to sleep. -/
structure Parked (s s' : BlockState) (p : ProcPtr) (waitingChannel : UInt64) (r : Resume) :
    Prop where
  rests : ∀ x channel r', Rests s' x channel r' →
    Rests s x channel r' ∨ (x = p ∧ channel = some waitingChannel ∧ r' = r)
  readIndex : s'.readIndex = s.readIndex
  writeIndex : s'.writeIndex = s.writeIndex

/-- A process that waits for an exit does not change the monitor. -/
theorem Parked.turn_wait {target : ProcPtr} (h : Parked s s' p waitingChannel (.wait target)) :
    Turn c s s' := by
  have hrests : ∀ x channel len, Rests s' x channel (.serialRead len) →
      Rests s x channel (.serialRead len) := fun x channel len hx =>
    (h.rests x channel _ hx).resolve_right fun hnew => nomatch hnew.2.2
  refine ⟨.wake (fun x ⟨channel, len, hx⟩ => ⟨channel, len, hrests x channel len hx⟩) ?_,
    fun hon x channel len hx => hon x channel len (hrests x channel len hx)⟩
  simp only [serialMonitor, h.readIndex, h.writeIndex]

/-- A reader goes to sleep while the buffer is empty. -/
theorem Parked.turn_read {len : Nat} (h : Parked s s' p (c.addr .serial) (.serialRead len))
    (hempty : s.readIndex = s.writeIndex) : Turn c s s' where
  monitor := by
    refine .park p (fun hready => hready ?_) fun x ⟨channel, len', hx⟩ => ?_
    · rw [h.readIndex, h.writeIndex]
      exact hempty
    · rcases h.rests x channel _ hx with hold | ⟨rfl, -⟩
      · exact Or.inr ⟨channel, len', hold⟩
      · exact Or.inl rfl
  channel hon x channel len' hx := by
    rcases h.rests x channel _ hx with hold | ⟨-, hchannel, -⟩
    · exact hon x channel len' hold
    · exact hchannel

/-! ### System calls -/

/-- A process that waits is parked on the condition variable. -/
theorem condvarWait_parks (p : ProcPtr) (l : Lock) (r : Resume) (now : UInt64) (s : BlockState) :
    Ensures (condvarWait c p l r now s) fun s' => Parked s s' p (c.addr l) r := by
  unfold condvarWait
  refine Ensures.bind (hushed_lock (.proc p) s) fun t ht => ?_
  refine Ensures.bind (hushed_unlock l t) fun u hu => ?_
  refine Ensures.bind (withRunqueue_hushed _ u) fun w ⟨v, hv, hw⟩ => ?_
  refine (hushed_switchBack p (w.stopAt p r)).imp fun s' hs' => ?_
  have hstart := (ht.trans hu).trans hv
  refine ⟨fun x channel r' hx => ?_, ?_, ?_⟩
  · have hx' := (Hushed.quieter hs').rests x channel r' hx
    obtain ⟨hsleeps, hchannel⟩ := hw.wakes x hx'.sleeping
    have hlive : Live v.sched x := ((calm_schedSleep v.sched p (c.addr l) now).live x).mp
      ((hw.calm.live x).mp hx'.live)
    rcases schedSleep_sleeps v.sched p (c.addr l) now hsleeps with
      ⟨rfl, hnew⟩ | ⟨hxp, hslept, hold⟩
    · refine Or.inr ⟨rfl, ?_, ?_⟩
      · rw [← hx'.channel_eq]
        exact hchannel.trans hnew
      · rw [← hx'.resume_eq]
        exact Function.update_self _ _ _
    · refine Or.inl ((Hushed.quieter hstart).rests x channel r' ⟨hlive, hslept, ?_, ?_⟩)
      · rw [← hold]
        exact hchannel.symm.trans hx'.channel_eq
      · have hresume : w.resume x = v.resume x := congrFun hw.resume x
        rw [← hresume, ← hx'.resume_eq]
        exact (Function.update_of_ne hxp _ _).symm
  · exact hs'.readIndex.trans (hw.readIndex.trans hstart.readIndex)
  · exact hs'.writeIndex.trans (hw.writeIndex.trans hstart.writeIndex)

theorem sleepLoop_quieter (targetEpochWakeup now : UInt64)
    (hp : (s.sched.procs p).state ≠ .SLEEPING) :
    Ensures (sleepLoop c p targetEpochWakeup now s) (Quieter s) := by
  unfold sleepLoop
  refine Ensures.ite (fun _ => ?_) fun _ => ?_
  · refine (hushed_switchBack p _).imp fun t ht => ?_
    have hrunnable := hushed_runnable p s
    exact ((Hushed.quieter hrunnable).trans (quieter_stopAt (hrunnable.awake hp) _)).trans
      (Hushed.quieter ht)
  · exact Ensures.bind (hushed_unlock (.proc p) s) fun t ht =>
      Ensures.ok ((Hushed.quieter ht).trans (quieter_returnTo (ht.awake hp) 0))

/-- A step after kernel code that puts nobody to sleep. -/
theorem Hushed.turn_of_turn (h : Hushed s s') (h' : Turn c s' s'') : Turn c s s'' := by
  have hsub : readers s' ⊆ readers s := fun x ⟨channel, len, hx⟩ =>
    ⟨channel, len, (Hushed.quieter h).rests x channel _ hx⟩
  have hready : (serialMonitor s').ready ↔ (serialMonitor s).ready := by
    simp only [serialMonitor, h.readIndex, h.writeIndex]
  refine ⟨?_, fun hon => h'.channel fun x channel len hx =>
    hon x channel len ((Hushed.quieter h).rests x channel _ hx)⟩
  cases h'.monitor with
  | wake fewer same => exact .wake (fewer.trans hsub) (same.trans hready)
  | park p notReady fewer => exact .park p notReady (fewer.trans (Set.insert_subset_insert hsub))
  | signal everyone => exact .signal everyone
  | take ready fewer => exact .take (hready.mp ready) (fewer.trans hsub)

theorem waitLoop_turn (target : ProcPtr) (now : UInt64)
    (hp : (s.sched.procs p).state ≠ .SLEEPING) : TurnResult c s (waitLoop c p target now s) := by
  unfold waitLoop
  refine Ensures.ite (fun _ => (condvarWait_parks p _ _ now s).imp fun _ h => h.turn_wait)
    fun _ => ?_
  exact Ensures.bind (hushed_unlock (.proc target) s) fun t ht =>
    Ensures.ok ((Hushed.quieter ht).trans (quieter_returnTo (ht.awake hp) _)).turn

theorem procWait_turn (targetPid now : UInt64) (hp : (s.sched.procs p).state ≠ .SLEEPING) :
    TurnResult c s (procWait c p targetPid now s) := by
  unfold procWait
  refine Ensures.bind (findPidFrom_hushed targetPid MAX_PROCESSES 0 s) fun r hr => ?_
  obtain ⟨target, t⟩ := r
  cases target with
  | none => exact Ensures.ok ((Hushed.quieter hr).trans (quieter_returnTo (hr.awake hp) _)).turn
  | some target =>
    exact (waitLoop_turn target now (hr.awake hp)).imp fun _ h => Hushed.turn_of_turn hr h

/-- A reader sleeps while the buffer is empty, and takes bytes otherwise. -/
theorem serialReadLoop_turn (len : Nat) (now : UInt64)
    (hp : (s.sched.procs p).state ≠ .SLEEPING) :
    TurnResult c s (serialReadLoop c p len now s) := by
  unfold serialReadLoop
  refine Ensures.ite (fun hempty =>
    (condvarWait_parks p .serial _ now s).imp fun _ h => h.turn_read hempty) fun hdata => ?_
  refine Ensures.bind (hushed_unlock .serial _) fun t ht => Ensures.ok ?_
  have hquiet := (Hushed.quieter ht).trans
    (quieter_returnTo (ht.awake hp) (Int32.ofNat (min len (serialAvailable s))))
  exact .of_rests (fun x channel r hx =>
    have hx' := hquiet.rests x channel r hx
    ⟨hx'.live, hx'.sleeping, hx'.channel_eq, hx'.resume_eq⟩) fun hsub => .take hdata hsub

theorem serialReadOp_turn (len : Nat) (now : UInt64) (hp : (s.sched.procs p).state ≠ .SLEEPING) :
    TurnResult c s (serialReadOp c p len now s) := by
  unfold serialReadOp
  refine Ensures.ite (fun _ => Ensures.ok (quieter_returnTo hp 0).turn) fun _ => ?_
  exact Ensures.bind (hushed_lock .serial s) fun t ht =>
    (serialReadLoop_turn len now (ht.awake hp)).imp fun _ h => Hushed.turn_of_turn ht h

theorem continueCall_turn (now : UInt64) (hp : (s.sched.procs p).state ≠ .SLEEPING) :
    TurnResult c s (continueCall c p now s) := by
  unfold continueCall
  split
  · exact Ensures.ok (Hushed.quieter (Hushed.refl s)).turn
  · exact (sleepLoop_quieter _ now hp).imp fun _ h => h.turn
  · exact Ensures.bind (condvarResume_hushed p _ s) fun t ht =>
      (waitLoop_turn _ now (ht.awake hp)).imp fun _ h => Hushed.turn_of_turn ht h
  · exact Ensures.bind (condvarResume_hushed p _ s) fun t ht =>
      (serialReadLoop_turn _ now (ht.awake hp)).imp fun _ h => Hushed.turn_of_turn ht h

/-! ### The other steps -/

theorem procExit_quieter (p : ProcPtr) (exitCode : Int32) (s : BlockState) :
    Ensures (procExit c p exitCode s) (Quieter s) := by
  unfold procExit
  refine Ensures.ite (fun _ => Ensures.error) fun _ => ?_
  refine Ensures.bind (condvarNotifyAll_rouses (.proc p) _) fun t ht => ?_
  refine (hushed_switchBack p _).imp fun u hu => ?_
  have hexit : Quieter t (t.mapSched fun sched => sched.setState p .EXITED) :=
    .of_wakes (fun _ hx => hx) (wakes_setState _ p (by decide)) rfl rfl rfl
  have hstatus : Quieter s { s with exitStatus := Function.update s.exitStatus p exitCode } :=
    .of_wakes (fun _ hx => hx) (Wakes.refl _) rfl rfl rfl
  exact ((hstatus.trans (Hushed.quieter ht.1)).trans hexit).trans (Hushed.quieter hu)

theorem spawn_quieter (h : Base s.sched) (hp : ¬ Live s.sched p) :
    Ensures (spawn c p s) (Quieter s) := by
  rcases spawn_cases h p with hspawn | hspawn | ⟨hroom, hspawn⟩
  · rw [hspawn]
    exact Ensures.ok (Hushed.quieter (Hushed.refl s))
  · rw [hspawn]
    exact Ensures.error
  rw [hspawn]
  refine (hushed_withRunqueue (fun t => calm_schedWakeup t p) (fun t => wakes_schedWakeup t p)
    _).imp fun u hu => Quieter.trans ?_ (Hushed.quieter hu)
  -- The new process is not asleep, and the others are as they were.
  have hwakes : Wakes (allocateAt s p s.sched.processCount (s.sched.processCount + 1)).sched
      (allocated s p).sched :=
    Keeps.wakes <| (keeps_schedFork _ p).trans <| (keeps_schedSetPriority _ p _).trans
      (keeps_schedNice _ p 1)
  refine ⟨fun x channel r hx => ?_, rfl, rfl⟩
  obtain ⟨hslept, hchannel⟩ := hwakes x hx.sleeping
  have hprocs : (allocateAt s p s.sched.processCount (s.sched.processCount + 1)).sched.procs =
      Function.update s.sched.procs p (newProcess s.nextPid s.sched.processCount) := rfl
  rw [hprocs] at hslept hchannel
  have hxp : x ≠ p := by
    rintro rfl
    rw [Function.update_self] at hslept
    cases hslept
  rw [Function.update_of_ne hxp] at hslept hchannel
  have hlive := ((live_allocated h hp hroom x).mp hx.live).resolve_left hxp
  have hresume : (allocated s p).resume x = s.resume x := Function.update_of_ne hxp _ _
  exact ⟨hlive, hslept, hchannel.symm.trans hx.channel_eq, hresume.symm.trans hx.resume_eq⟩

theorem switchIn_quieter (p : ProcPtr) (now : UInt64) (s : BlockState) :
    Ensures (switchIn c p now s) (Quieter s) := by
  unfold switchIn
  refine Ensures.bind (withRunqueue_hushed _ s) fun u ⟨t, ht, hu⟩ => ?_
  have hswitch : Quieter t (t.mapSched fun sched => switchTo sched p now) :=
    .of_wakes (fun x => (switchTo_live t.sched p x now).mp) (wakes_switchTo _ p now) rfl rfl rfl
  exact (hushed_lock (.proc p) u).imp fun _ h =>
    (((Hushed.quieter ht).trans hswitch).trans (Hushed.quieter hu)).trans (Hushed.quieter h)

theorem switchOut_quieter (h : Base s.sched) (hcurr : s.sched.rq.curr = some p) (now : UInt64) :
    Ensures (switchOut c p now s) (Quieter s) := by
  unfold switchOut
  refine Ensures.bind (hushed_unlock (.proc p) s) fun v hv => ?_
  refine (withRunqueue_hushed _ v).imp fun u ⟨t, ht, hu⟩ => ?_
  have hcalm := hv.calm.trans ht.calm
  have hback : Quieter t (t.mapSched fun sched => resumeScheduler sched p now) :=
    .of_wakes (fun x => (h.calm hcalm).live_of_resumeScheduler (hcalm.curr.trans hcurr))
      (wakes_resumeScheduler _ p now) rfl rfl rfl
  exact ((Hushed.quieter (hv.trans ht)).trans hback).trans (Hushed.quieter hu)

theorem idleTurn_quieter (h : Base s.sched) (hcurr : s.sched.rq.curr = none) :
    Ensures (withRunqueue c idleTurn s) (Quieter s) := by
  refine (withRunqueue_hushed _ s).imp fun u ⟨t, ht, hu⟩ => ?_
  have hcalm := calm_idleTurn (h.calm ht.calm) (ht.calm.curr.trans hcurr)
  have hidle := hushed_mapSched hcalm (wakes_idleTurn _)
  exact ((Hushed.quieter ht).trans (Hushed.quieter hidle)).trans (Hushed.quieter hu)

/-- The handler wakes every reader, or the buffer is full and stays as it is. -/
theorem serialIrqHandler_turn (h : Base s.sched) (hon : OnChannel c s)
    (hfree : s.sched.rq.curr = none ∨ (inUser s).isSome) :
    TurnResult c s (serialIrqHandler c s) := by
  unfold serialIrqHandler
  refine Ensures.bind (hushed_lock .serial s) fun t ht => ?_
  refine Ensures.ite (fun _ => ?_) fun _ =>
    (hushed_unlock .serial t).imp fun _ hu => (Hushed.quieter (ht.trans hu)).turn
  refine Ensures.bind (condvarNotifyAll_rouses .serial _) fun u ⟨hu, hroused⟩ => ?_
  refine (hushed_unlock .serial u).imp fun v hv => ?_
  have hall := hu.trans hv
  have hrests : ∀ x channel r, Rests v x channel r → Rests s x channel r := fun x channel r hx =>
    have hx' := (Hushed.quieter hall).rests x channel r hx
    (Hushed.quieter ht).rests x channel r ⟨hx'.live, hx'.sleeping, hx'.channel_eq, hx'.resume_eq⟩
  refine .of_rests hrests fun _ => .signal (Set.eq_empty_iff_forall_notMem.mpr ?_)
  rintro x ⟨channel, len, hx⟩
  have hx' := hrests x channel _ hx
  have hchannel := hon x channel len hx'
  -- The reader is not the current process, so the handler found it in its slot.
  have hcurr : u.sched.rq.curr ≠ some x := by
    have hsame : u.sched.rq.curr = s.sched.rq.curr := hu.calm.curr.trans ht.calm.curr
    rw [hsame]
    intro hx''
    rcases hfree with hnone | huser
    · rw [hnone] at hx''
      cases hx''
    · obtain ⟨q, hq⟩ := Option.isSome_iff_exists.mp huser
      obtain ⟨hq', -, hresume⟩ := inUser_eq hq
      rw [hx''] at hq'
      cases hq'
      rw [hx'.resume_eq] at hresume
      cases hresume
  obtain ⟨j, hj, hslot⟩ := (hv.calm.live x).mp hx.live
  have hbound : j < MAX_PROCESSES := by
    have hcount : u.sched.processCount = s.sched.processCount :=
      hu.calm.processCount.trans ht.calm.processCount
    have hle := h.table.le
    omega
  have hawake := Hushed.not_waitsOn hv (hroused j (Nat.zero_le j) (by omega) x hslot hcurr)
  exact waitsOn_eq_false.mp hawake hx.sleeping (hx.channel_eq.trans hchannel)

/-- Every step is a step of the monitor. -/
theorem blockStep_turn (h : Base s.sched) (hon : OnChannel c s) {a : BlockAct} {o : Outcome}
    (hs : blockStep c s a = some o) : TurnResult c s o := by
  have hawake : ∀ {p}, executing s.sched = some p → (s.sched.procs p).state ≠ .SLEEPING := by
    intro p hp hsleeps
    have hrunning := (Option.filter_eq_some_iff.mp hp).2
    rw [hsleeps] at hrunning
    exact absurd hrunning (by decide)
  have huser : ∀ {p}, inUser s = some p → (s.sched.procs p).state ≠ .SLEEPING := fun hp =>
    hawake (Option.filter_eq_some_iff.mp hp).1
  cases blockStep_cases hs with
  | timer user => exact (timerTick_hushed _ s).imp fun _ h => (Hushed.quieter h).turn
  | yield user => exact (schedulerYield_hushed _ s).imp fun _ h => (Hushed.quieter h).turn
  | @sleep p msec now now' user =>
    exact Ensures.bind (hushed_lock (.proc p) s) fun t ht =>
      (sleepLoop_quieter _ now' (ht.awake (huser user))).imp fun _ h =>
        ((Hushed.quieter ht).trans h).turn
  | wait user => exact procWait_turn _ _ (huser user)
  | serialRead user => exact serialReadOp_turn _ _ (huser user)
  | exit user => exact (procExit_quieter _ _ s).imp fun _ h => h.turn
  | spawn fresh user => exact (spawn_quieter h fresh).imp fun _ h => h.turn
  | goOn call => exact continueCall_turn _ (hawake (Option.filter_eq_some_iff.mp call).1)
  | switchIn free live runnable => exact (switchIn_quieter _ _ s).imp fun _ h => h.turn
  | switchOut curr back => exact (switchOut_quieter h curr _).imp fun _ h => h.turn
  | idle free empty => exact (idleTurn_quieter h free).imp fun _ h => h.turn
  | serialIrq enabled => exact serialIrqHandler_turn h hon enabled
  | @reuse p proc lock exitStatus fresh =>
    refine Ensures.ok (Quieter.turn ⟨fun x channel r hx => ?_, rfl, rfl⟩)
    have hxp : x ≠ p := by
      rintro rfl
      exact fresh hx.live
    have hproc : (s.sched.setProc p fun _ => proc).procs x = s.sched.procs x := by
      rw [setProc_procs, if_neg hxp]
    exact ⟨hx.live, hproc ▸ hx.sleeping, hproc ▸ hx.channel_eq, hx.resume_eq⟩

/-! ### Runs -/

/-- What holds in every reachable state. -/
structure ReadersInv (c : LockConfig) (s : BlockState) : Prop where
  base : Base s.sched
  channel : OnChannel c s

theorem ReadersInv.step (h : ReadersInv c s) {a : BlockAct} (hs : lockStep c s a = some s') :
    ReadersInv c s' ∧ MonitorStep (serialMonitor s) (serialMonitor s') := by
  obtain ⟨o, ho, hok⟩ := Option.bind_eq_some_iff.mp hs
  have hturn := blockStep_turn h.base h.channel ho s' (eq_ok_of_toOption hok)
  exact ⟨⟨blockStep_base h.base ho s' (eq_ok_of_toOption hok), hturn.channel h.channel⟩,
    hturn.monitor⟩

/-- Nobody sleeps after `userspace_init`. -/
theorem AtBoot.no_readers (hboot : AtBoot s) (hpq : p ≠ q)
    (hinit : userspaceInit c p q s = .ok s') :
    ∀ x channel r, ¬ Rests s' x channel r := by
  have hstart : Base s.sched := (ProcessLocks.AtBoot.inv (c := c) hboot).base
  obtain ⟨s₁, hfirst, hsecond⟩ := bind_eq_ok.mp hinit
  obtain ⟨hbase, hlive⟩ := spawn_base hstart (hboot.not_live p) s₁ hfirst
  have hq : ¬ Live s₁.sched q := fun hq => (hlive q hq).elim hpq.symm (hboot.not_live q)
  have hquiet := (spawn_quieter hstart (hboot.not_live p) s₁ hfirst).trans
    (spawn_quieter hbase hq s' hsecond)
  exact fun x channel r hx => hboot.not_live x (hquiet.rests x channel r hx).live

/-- The process sleeps in a read of the serial port. -/
def AsleepInRead (s : BlockState) (x : ProcPtr) : Prop :=
  Live s.sched x ∧ (s.sched.procs x).state = .SLEEPING ∧ ∃ len, s.resume x = .serialRead len

/-- The buffer has a byte after an interrupt of the port. -/
theorem serialIrqHandler_ready (s : BlockState) :
    Ensures (serialIrqHandler c s) fun t => t.readIndex ≠ t.writeIndex := by
  unfold serialIrqHandler
  refine Ensures.bind (hushed_lock .serial s) fun t _ => ?_
  refine Ensures.ite (fun hroom => ?_) fun hfull => ?_
  · refine Ensures.bind (condvarNotifyAll_rouses .serial _) fun u ⟨hu, _⟩ => ?_
    refine (hushed_unlock .serial u).imp fun v hv => ?_
    rw [hv.readIndex, hv.writeIndex, hu.readIndex, hu.writeIndex]
    exact hroom.symm
  · refine Ensures.imp (hushed_unlock .serial t) fun v hv => ?_
    rw [hv.readIndex, hv.writeIndex]
    intro hempty
    have hnext := congrArg UInt8.toNat (not_not.mp hfull)
    rw [hempty, UInt8.toNat_mod, UInt8.toNat_add, show SERIAL_BUFFER_LENGTH.toNat = 128 from rfl,
      show (1 : UInt8).toNat = 1 from rfl] at hnext
    omega

/-- The first process goes to sleep in a read, and a byte arrives. -/
def readAndByte : List BlockAct := [.switchIn 1 10, .serialRead 5 20, .switchOut 30, .serialIrq]

end DzOS.Proofs.Sched.SerialWait
