import DzOS.Cpu.Fpu

/-!
# `DzOS.Proofs.Cpu.Fpu`: the FPU registers across a preemption

The scheduler keeps the registers of a process lazily: `fpuRegister` is the view of the state as
a register that the processes share, and `load_additional_data_if_needed` makes the next process
its owner (`fpuRegister_pick`).

`SavedFpu` is the invariant: the registers of every interrupted process are in their place. In a
handler that place is the scratch area of the CPU. A handler that returns loads them from there.
A preemption does not: it leaves the handler with whatever the kernel code made of the registers,
and the scheduler takes this for the registers of the process. `LeavesFpu` is the condition that
the kernel code has not changed them, and `fpuStep_saved_iff` says that a step keeps the
invariant exactly then.
-/

set_option autoImplicit false

namespace DzOS.Proofs.Cpu

open DzOS.Lib DzOS.Sched DzOS.Cpu

variable {q p : ProcPtr} {φ : Type}

/-! ### What a step does -/

/-- The steps with their guards and results. -/
inductive FpuStep (s : FpuState φ) : FpuAct φ → FpuState φ → Prop
  | program {p : ProcPtr} (hmode : s.mode = .user p) (v : φ) : FpuStep s (.program v)
      { s with fpu := v, interrupted := Function.update s.interrupted p none }
  | timer {p : ProcPtr} (hmode : s.mode = .user p) : FpuStep s .timer
      { kernelFpuBegin s with
        mode := .handler p, interrupted := Function.update s.interrupted p (some s.fpu) }
  | syscall {p : ProcPtr} (hmode : s.mode = .user p) : FpuStep s .syscall
      { kernelFpuBegin s with
        mode := .handler p, interrupted := Function.update s.interrupted p none }
  | handlerReturn {p : ProcPtr} (hmode : s.mode = .handler p) : FpuStep s .handlerReturn
      { kernelFpuEnd s with mode := .user p }
  | switchBack {p : ProcPtr} (hmode : s.mode = .handler p) : FpuStep s .switchBack
      { s with mode := .scheduler }
  | idleTimer (hmode : s.mode = .scheduler) : FpuStep s .idleTimer
      { s with kernelFpuState := s.fpu }
  | kernelCode (hmode : ∀ p, s.mode ≠ .user p) (v : φ) : FpuStep s (.kernelCode v)
      { s with fpu := v }
  | schedFork {p : ProcPtr} (hmode : ∀ q, s.mode ≠ .user q) (hlive : s.live p = false) :
      FpuStep s (.schedFork p)
        { fpuSave s p with
          live := Function.update s.live p true
          interrupted := Function.update s.interrupted p none }
  | reap {p : ProcPtr} (hmode : s.mode = .scheduler) : FpuStep s (.reap p)
      { s with
        lastRunningProcess :=
          if s.lastRunningProcess = some p then none else s.lastRunningProcess
        live := Function.update s.live p false
        interrupted := Function.update s.interrupted p none }
  | pick {p : ProcPtr} (hmode : s.mode = .scheduler) : FpuStep s (.pick p)
      { loadAdditionalDataIfNeeded s s.lastRunningProcess p with
        lastRunningProcess := some p, mode := .switching p }
  | resume {p : ProcPtr} (hmode : s.mode = .switching p) : FpuStep s .resume
      { s with mode := .user p }

/-- A step is one of these. -/
theorem fpuStep_cases {s s' : FpuState φ} {a : FpuAct φ} (h : fpuStep s a = some s') :
    FpuStep s a s' := by
  cases a with
  | program v =>
    simp only [fpuStep] at h
    split at h
    · rename_i hmode
      cases h
      exact .program hmode v
    · cases h
  | timer =>
    simp only [fpuStep] at h
    split at h
    · rename_i hmode
      cases h
      exact .timer hmode
    · cases h
  | syscall =>
    simp only [fpuStep] at h
    split at h
    · rename_i hmode
      cases h
      exact .syscall hmode
    · cases h
  | handlerReturn =>
    simp only [fpuStep] at h
    split at h
    · rename_i hmode
      cases h
      exact .handlerReturn hmode
    · cases h
  | switchBack =>
    simp only [fpuStep] at h
    split at h
    · rename_i hmode
      cases h
      exact .switchBack hmode
    · cases h
  | idleTimer =>
    simp only [fpuStep] at h
    split at h
    · rename_i hmode
      cases h
      exact .idleTimer hmode
    · cases h
  | kernelCode v =>
    simp only [fpuStep] at h
    split at h
    · cases h
    · rename_i hmode
      cases h
      exact .kernelCode hmode v
  | schedFork p =>
    simp only [fpuStep] at h
    split at h
    · cases h
    · rename_i hmode
      split at h
      · cases h
      · rename_i hlive
        cases h
        exact .schedFork hmode (Bool.eq_false_iff.mpr hlive)
  | reap p =>
    simp only [fpuStep] at h
    split at h
    · rename_i hmode
      split at h
      · cases h
        exact .reap hmode
      · cases h
    · cases h
  | pick p =>
    simp only [fpuStep] at h
    split at h
    · rename_i hmode
      split at h
      · cases h
        exact .pick hmode
      · cases h
    · cases h
  | resume =>
    simp only [fpuStep] at h
    split at h
    · rename_i hmode
      cases h
      exact .resume hmode
    · cases h

/-! ### The shared register -/

/-- The registers as a register that the processes share. -/
def fpuRegister (s : FpuState φ) : LazyRegister ProcPtr φ where
  reg := s.fpu
  owner := s.lastRunningProcess
  image := s.fpuState

/-- The next process becomes the owner. -/
theorem fpuRegister_pick (s : FpuState φ) (p : ProcPtr) (mode : CpuMode) :
    fpuRegister { loadAdditionalDataIfNeeded s s.lastRunningProcess p with
      lastRunningProcess := some p, mode := mode } = (fpuRegister s).acquire p := by
  cases howner : s.lastRunningProcess with
  | none =>
    have hne : ¬ (fpuRegister s).owner = some p := by
      show ¬ s.lastRunningProcess = some p
      rw [howner]
      exact nofun
    rw [LazyRegister.acquire, if_neg hne, loadAdditionalDataIfNeeded, if_neg nofun]
    simp only [fpuRegister, fpuLoad, LazyRegister.writeBack, howner]
  | some old =>
    by_cases hold : p = old
    · subst hold
      have heq : (fpuRegister s).owner = some p := howner
      rw [LazyRegister.acquire, if_pos heq, loadAdditionalDataIfNeeded, if_pos rfl]
      simp only [fpuRegister, howner]
    · have hne : ¬ (fpuRegister s).owner = some p := by
        show ¬ s.lastRunningProcess = some p
        rw [howner]
        exact fun h => hold (Option.some.inj h).symm
      rw [LazyRegister.acquire, if_neg hne, loadAdditionalDataIfNeeded,
        if_neg (fun h => hold (Option.some.inj h))]
      simp only [fpuRegister, fpuLoad, fpuSave, LazyRegister.writeBack, howner]

/-- The interruptions are not the business of the scheduler. -/
theorem loadAdditionalDataIfNeeded_interrupted (s : FpuState φ) (old : Option ProcPtr)
    (new : ProcPtr) : (loadAdditionalDataIfNeeded s old new).interrupted = s.interrupted := by
  unfold loadAdditionalDataIfNeeded
  split
  · rfl
  · cases old with
    | none => rfl
    | some old => rfl

/-! ### The invariant -/

/-- The registers of `p`, wherever they are. -/
def registersOf (s : FpuState φ) (p : ProcPtr) : φ :=
  if s.mode = .handler p then s.kernelFpuState else (fpuRegister s).value p

/-- The process that the CPU works for is the last one that ran. -/
def OwnsFpu (s : FpuState φ) : Prop :=
  ∀ p, s.mode.process = some p → s.lastRunningProcess = some p

/-- The registers of every interrupted process are in their place. -/
def SavedFpu (s : FpuState φ) : Prop :=
  ∀ p v, s.interrupted p = some v → registersOf s p = v

/-- The step does not lose the registers of an interrupted process. A handler may leave the
registers of the process that it works for with any value as long as it returns: when it switches
back instead, they have the value they had at its start. Outside a handler, kernel code may
change the registers only when they do not belong to an interrupted process. -/
def LeavesFpu (s : FpuState φ) : FpuAct φ → Prop
  | .switchBack => ∀ p, s.mode = .handler p → (s.interrupted p).isSome → s.fpu = s.kernelFpuState
  | .kernelCode v =>
    ∀ p, s.lastRunningProcess = some p → s.mode ≠ .handler p → (s.interrupted p).isSome →
      v = s.fpu
  | _ => True

/-- The process that the CPU works for owns the registers after every step. -/
theorem OwnsFpu.step {s s' : FpuState φ} {a : FpuAct φ} (h : OwnsFpu s)
    (hstep : fpuStep s a = some s') : OwnsFpu s' := by
  intro p hp
  cases fpuStep_cases hstep with
  | program hmode v => exact h p hp
  | timer hmode => exact h p (by rw [hmode]; exact hp)
  | syscall hmode => exact h p (by rw [hmode]; exact hp)
  | handlerReturn hmode => exact h p (by rw [hmode]; exact hp)
  | switchBack hmode => cases hp
  | idleTimer hmode => exact h p hp
  | kernelCode hmode v => exact h p hp
  | schedFork hmode hlive => exact h p hp
  | reap hmode =>
    simp only [hmode, CpuMode.process] at hp
    cases hp
  | pick hmode => exact hp
  | resume hmode => exact h p (by rw [hmode]; exact hp)

/-! ### One step -/

/-- Outside its own handler a process has its registers in the shared register. -/
theorem registersOf_eq_value {s : FpuState φ} (h : s.mode ≠ .handler p) :
    registersOf s p = (fpuRegister s).value p := if_neg h

/-- In its own handler a process has its registers in the scratch area. -/
theorem registersOf_handler {s : FpuState φ} (h : s.mode = .handler p) :
    registersOf s p = s.kernelFpuState := if_pos h

/-- A process that runs has its registers in the FPU. -/
theorem registersOf_running {s : FpuState φ} (howns : OwnsFpu s) (hp : s.mode.process = some p)
    (hmode : s.mode ≠ .handler p) : registersOf s p = s.fpu := by
  rw [registersOf_eq_value hmode]
  exact LazyRegister.value_of_owner _ (howns p hp)

/-- A process that neither runs nor ran last keeps its registers as long as its image does not
change. -/
theorem registersOf_waiting {s s' : FpuState φ} (howns : OwnsFpu s) (howns' : OwnsFpu s')
    (hp : s.mode.process = some p) (hp' : s'.mode.process = some p) (hq : q ≠ p)
    (himage : s'.fpuState q = s.fpuState q) : registersOf s' q = registersOf s q := by
  have hhandler : ∀ m : CpuMode, m.process = some p → m ≠ .handler q := by
    intro m hm hq'
    subst hq'
    exact hq (Option.some.inj hm)
  have howner : ∀ t : FpuState φ, OwnsFpu t → t.mode.process = some p →
      (fpuRegister t).owner ≠ some q := by
    intro t ht htp htq
    have hown : (fpuRegister t).owner = some p := ht p htp
    rw [hown] at htq
    exact hq (Option.some.inj htq).symm
  rw [registersOf_eq_value (hhandler _ hp), registersOf_eq_value (hhandler _ hp'),
    LazyRegister.value_of_not_owner _ (howner s howns hp),
    LazyRegister.value_of_not_owner _ (howner s' howns' hp')]
  exact himage

/-- The registers of the interrupted processes stay in place when a step changes neither. -/
theorem SavedFpu.congr {s s' : FpuState φ} (h : SavedFpu s)
    (hsame : ∀ p v, s'.interrupted p = some v →
      s.interrupted p = some v ∧ registersOf s' p = registersOf s p) : SavedFpu s' := by
  intro p v hv
  obtain ⟨hold, heq⟩ := hsame p v hv
  rw [heq]
  exact h p v hold

/-- An interruption that was recorded for another process is still recorded. -/
theorem interrupted_update {f : ProcPtr → Option φ} {v : φ}
    (h : Function.update f q none p = some v) : p ≠ q ∧ f p = some v := by
  by_cases hpq : p = q
  · subst hpq
    rw [Function.update_self] at h
    cases h
  · rw [Function.update_of_ne hpq] at h
    exact ⟨hpq, h⟩

/-- A step keeps the registers of the interrupted processes exactly when it meets the
condition. -/
theorem fpuStep_saved_iff {s s' : FpuState φ} {a : FpuAct φ} (howns : OwnsFpu s)
    (hsaved : SavedFpu s) (hstep : fpuStep s a = some s') : SavedFpu s' ↔ LeavesFpu s a := by
  have howns' := howns.step hstep
  cases fpuStep_cases hstep with
  | program hmode v =>
    refine iff_of_true (hsaved.congr fun q w hw => ?_) trivial
    obtain ⟨hq, hold⟩ := interrupted_update hw
    exact ⟨hold, registersOf_waiting howns howns' (by rw [hmode]; rfl) (by rw [hmode]; rfl) hq rfl⟩
  | @timer p hmode =>
    refine iff_of_true (fun q w hw => ?_) trivial
    have hw' : Function.update s.interrupted p (some s.fpu) q = some w := hw
    by_cases hq : q = p
    · subst hq
      rw [Function.update_self] at hw'
      rw [registersOf_handler rfl]
      exact Option.some.inj hw'
    · rw [Function.update_of_ne hq] at hw'
      rw [registersOf_waiting howns howns' (by rw [hmode]; rfl) rfl hq rfl]
      exact hsaved q w hw'
  | syscall hmode =>
    refine iff_of_true (hsaved.congr fun q w hw => ?_) trivial
    obtain ⟨hq, hold⟩ := interrupted_update hw
    exact ⟨hold, registersOf_waiting howns howns' (by rw [hmode]; rfl) rfl hq rfl⟩
  | @handlerReturn p hmode =>
    refine iff_of_true (hsaved.congr fun q w hw => ⟨hw, ?_⟩) trivial
    by_cases hq : q = p
    · subst hq
      rw [registersOf_running howns' rfl (fun h => by cases h), registersOf_handler hmode]
      rfl
    · exact registersOf_waiting howns howns' (by rw [hmode]; rfl) rfl hq rfl
  | @switchBack p hmode =>
    have hp : (fpuRegister s).owner = some p := howns p (by rw [hmode]; rfl)
    -- The registers are in the scratch area, and the scheduler takes the ones in the FPU.
    have hnow : (fpuRegister s).value p = s.fpu := LazyRegister.value_of_owner _ hp
    constructor
    · intro h q hq hsome
      rw [hmode] at hq
      cases hq
      obtain ⟨w, hw⟩ := Option.isSome_iff_exists.mp hsome
      have hbefore := hsaved p w hw
      have hafter : (fpuRegister s).value p = w := h p w hw
      rw [registersOf_handler hmode] at hbefore
      rw [← hnow, hafter, hbefore]
    · intro h
      refine hsaved.congr fun q w hw => ⟨hw, ?_⟩
      show (fpuRegister s).value q = registersOf s q
      by_cases hq : s.mode = .handler q
      · have hpq : p = q := by
          rw [hmode] at hq
          exact CpuMode.handler.inj hq
        rw [← hpq, registersOf_handler hmode, hnow]
        exact h p hmode (Option.isSome_of_mem (hpq ▸ hw))
      · rw [registersOf_eq_value hq]
  | idleTimer hmode =>
    refine iff_of_true (hsaved.congr fun q w hw => ⟨hw, ?_⟩) trivial
    rw [registersOf_eq_value (by simp [hmode]), registersOf_eq_value (by simp [hmode])]
    rfl
  | kernelCode hmode v =>
    constructor
    · intro h q howner hq hsome
      obtain ⟨w, hw⟩ := Option.isSome_iff_exists.mp hsome
      have hafter : ((fpuRegister s).write v).value q = w := by
        rw [← h q w hw]
        exact (registersOf_eq_value (s := { s with fpu := v }) hq).symm
      have hbefore := hsaved q w hw
      have hown : (fpuRegister s).owner = some q := howner
      rw [LazyRegister.value_write, if_pos hown] at hafter
      rw [registersOf_eq_value hq, LazyRegister.value_of_owner _ hown] at hbefore
      exact hafter.trans hbefore.symm
    · intro h
      refine hsaved.congr fun q w hw => ⟨hw, ?_⟩
      by_cases hq : s.mode = .handler q
      · rw [registersOf_handler (s := s) hq]
        exact registersOf_handler (s := { s with fpu := v }) hq
      · rw [registersOf_eq_value (s := s) hq]
        refine (registersOf_eq_value (s := { s with fpu := v }) hq).trans ?_
        show ((fpuRegister s).write v).value q = (fpuRegister s).value q
        rw [LazyRegister.value_write]
        split
        · rename_i howner
          rw [LazyRegister.value_of_owner _ howner]
          exact h q howner hq (Option.isSome_of_mem hw)
        · rfl
  | @schedFork p hmode hlive =>
    refine iff_of_true (hsaved.congr fun q w hw => ?_) trivial
    obtain ⟨hq, hold⟩ := interrupted_update hw
    refine ⟨hold, ?_⟩
    by_cases hhandler : s.mode = .handler q
    · rw [registersOf_handler (s := s) hhandler]
      exact if_pos hhandler
    · rw [registersOf_eq_value (s := s) hhandler]
      refine (if_neg hhandler).trans ?_
      exact LazyRegister.value_writeImage_of_ne (fpuRegister s) hq s.fpu
  | @reap p hmode =>
    refine iff_of_true (hsaved.congr fun q w hw => ?_) trivial
    obtain ⟨hq, hold⟩ := interrupted_update hw
    refine ⟨hold, ?_⟩
    rw [registersOf_eq_value (by simp [hmode]), registersOf_eq_value (by simp [hmode])]
    have howner : (if s.lastRunningProcess = some p then none else s.lastRunningProcess) = some q ↔
        s.lastRunningProcess = some q := by
      split
      · rename_i hp
        rw [hp]
        have hnone : none ≠ some q := fun h => by cases h
        exact ⟨fun h => absurd h hnone, fun h => absurd (Option.some.inj h).symm hq⟩
      · rfl
    exact if_congr howner rfl rfl
  | @pick p hmode =>
    refine iff_of_true (hsaved.congr fun q w hw => ⟨?_, ?_⟩) trivial
    · rw [← loadAdditionalDataIfNeeded_interrupted s s.lastRunningProcess p]
      exact hw
    · have hout : CpuMode.switching p ≠ .handler q := fun h => by cases h
      rw [registersOf_eq_value hout, registersOf_eq_value (by simp [hmode]),
        fpuRegister_pick]
      exact LazyRegister.value_acquire (fpuRegister s) p q
  | @resume p hmode =>
    refine iff_of_true (hsaved.congr fun q w hw => ⟨hw, ?_⟩) trivial
    have hout : CpuMode.user p ≠ .handler q := fun h => by cases h
    rw [registersOf_eq_value hout, registersOf_eq_value (by simp [hmode])]
    rfl

/-! ### Runs -/

/-- A run whose steps `ok` admits, from `s₀` on. -/
inductive FpuRun (ok : FpuState φ → FpuAct φ → Prop) (s₀ : FpuState φ) : FpuState φ → Prop
  | start : FpuRun ok s₀ s₀
  | step {s s' : FpuState φ} {a : FpuAct φ} (hrun : FpuRun ok s₀ s) (hok : ok s a)
      (hstep : fpuStep s a = some s') : FpuRun ok s₀ s'

/-- A program that was interrupted and has not run on finds its registers in the FPU. -/
def ResumesWithFpu (s : FpuState φ) : Prop :=
  ∀ p v, s.mode = .user p → s.interrupted p = some v → s.fpu = v

/-- The invariant gives what a resumed program needs. -/
theorem SavedFpu.resumes {s : FpuState φ} (howns : OwnsFpu s) (h : SavedFpu s) :
    ResumesWithFpu s := by
  intro p v hmode hv
  have hregs := registersOf_running howns (p := p) (by rw [hmode]; rfl) (by rw [hmode]; exact nofun)
  rw [← hregs]
  exact h p v hv

/-- Both invariants hold in every run that meets the condition. -/
theorem FpuRun.saved {s₀ s : FpuState φ} (hrun : FpuRun LeavesFpu s₀ s) (howns : OwnsFpu s₀)
    (hsaved : SavedFpu s₀) : OwnsFpu s ∧ SavedFpu s := by
  induction hrun with
  | start => exact ⟨howns, hsaved⟩
  | step _ hok hstep ih =>
    obtain ⟨howns', hsaved'⟩ := ih
    exact ⟨howns'.step hstep, (fpuStep_saved_iff howns' hsaved' hstep).mpr hok⟩

/-- The invariants hold at the start of the scheduler. -/
theorem boot_saved (fpu kernelFpuState : φ) (fpuState : ProcPtr → φ) (live : ProcPtr → Bool) :
    OwnsFpu (FpuState.boot fpu kernelFpuState fpuState live) ∧
      SavedFpu (FpuState.boot fpu kernelFpuState fpuState live) := by
  constructor
  · intro p hp
    cases hp
  · intro p v hv
    cases hv

/-- In every run from the start of the scheduler whose steps meet `LeavesFpu`, a program that
is resumed after a preemption finds the registers it had when it was interrupted. The next step
keeps the registers of all interrupted processes in their place if and only if it meets
`LeavesFpu` too. -/
theorem preemption_keeps_fpu (fpu kernelFpuState : φ) (fpuState : ProcPtr → φ)
    (live : ProcPtr → Bool) (s : FpuState φ)
    (hrun : FpuRun LeavesFpu (FpuState.boot fpu kernelFpuState fpuState live) s) :
    ResumesWithFpu s ∧
      ∀ (a : FpuAct φ) (s' : FpuState φ), fpuStep s a = some s' →
        (SavedFpu s' ↔ LeavesFpu s a) := by
  obtain ⟨howns₀, hsaved₀⟩ := boot_saved fpu kernelFpuState fpuState live
  obtain ⟨howns, hsaved⟩ := hrun.saved howns₀ hsaved₀
  exact ⟨hsaved.resumes howns, fun a s' hstep => fpuStep_saved_iff howns hsaved hstep⟩

/-- The scheduler at its start, with one process at `0x1000`. The registers are a number. -/
def oneProcess : FpuState Nat := FpuState.boot 0 0 (fun _ => 0) (fun p => p == 0x1000)

/-- The steps of a list, one after the other. -/
def fpuSteps (s : FpuState φ) : List (FpuAct φ) → Option (FpuState φ)
  | [] => some s
  | a :: as => (fpuStep s a).bind fun s => fpuSteps s as

/-- Steps that all happen are a run. -/
theorem FpuRun.steps {s₀ : FpuState φ} {as : List (FpuAct φ)} {s s' : FpuState φ}
    (hrun : FpuRun (fun _ _ => True) s₀ s) (hsteps : fpuSteps s as = some s') :
    FpuRun (fun _ _ => True) s₀ s' := by
  induction as generalizing s with
  | nil =>
    cases hsteps
    exact hrun
  | cons a as ih =>
    obtain ⟨s₁, hstep, hrest⟩ := Option.bind_eq_some_iff.mp hsteps
    exact ih (hrun.step trivial hstep) hrest

/-- The program sets its registers, is preempted by a handler that uses them, and is the next one
to run again. -/
def preemptedTwice : List (FpuAct Nat) :=
  [.pick 0x1000, .resume, .program 7, .timer, .kernelCode 8, .switchBack, .pick 0x1000, .resume]

/-- The process picked again runs on with the registers that the kernel code left. -/
theorem preemption_loses_fpu :
    ¬ ∀ s : FpuState Nat, FpuRun (fun _ _ => True) oneProcess s → ResumesWithFpu s := by
  intro h
  have hsome : (fpuSteps oneProcess preemptedTwice).isSome := by decide
  have hrun := FpuRun.steps .start (Option.some_get hsome).symm
  have hfpu : (8 : Nat) = 7 := h _ hrun 0x1000 7 rfl rfl
  exact absurd hfpu (by decide)

/-- The result at a preemption by a handler that leaves the registers alone. -/
theorem preemption_keeps_fpu_oneProcess :
    ∃ s : FpuState Nat, s.mode = .user 0x1000 ∧ s.interrupted 0x1000 = some 7 ∧
      ResumesWithFpu s := by
  have h₁ : FpuRun LeavesFpu oneProcess _ := FpuRun.start.step (a := .pick 0x1000) trivial rfl
  have h₂ := (h₁.step (a := .resume) trivial rfl).step (a := .program 7) trivial rfl
  have h₃ := (h₂.step (a := .timer) trivial rfl).step (a := .switchBack) (fun _ _ _ => rfl) rfl
  have h₄ := (h₃.step (a := .pick 0x1000) trivial rfl).step (a := .resume) trivial rfl
  exact ⟨_, rfl, rfl, (preemption_keeps_fpu 0 0 (fun _ => 0) (fun p => p == 0x1000) _ h₄).1⟩

end DzOS.Proofs.Cpu
