import DzOS.Proofs.Mem.AddressSpace
import DzOS.Proofs.Sched.Queue
import DzOS.Sched.Process

/-!
# `DzOS.Proofs.Sched.StackSlots`: the slots of the kernel stacks

A process keeps its stack slot `orig_i`, and its slot in the process table moves down when a
process before it exits. `Inv` is what every run keeps: the table has no gap, live processes have
different stack slots, and their stacks are mapped. `procExec_ok` and `procReap_ok` say what
the two steps do.

A new process takes the first free slot of the table, which is the number of live processes
(`findSlot_eq`), and the stack with the same number. This stack is free only when no live
process holds it. `stackSlots_apart_iff` says that this condition, at every creation, is exactly
what a run needs for its stacks never to collide.
-/

set_option autoImplicit false

namespace DzOS.Proofs.Sched.StackSlots

open DzOS.Lib DzOS.Mem DzOS.Sched DzOS.Proofs.Mem

variable {a : ProcAct} {j k i : Nat} {s s' : ProcState} {p q : ProcPtr} {pages : List UInt64}

/-! ### The slot of a new process -/

/-- In a table without gaps, the slot of a new process is the number of processes. -/
theorem findSlot_eq {s : SchedState} (h : Table s) (hmin : s.processMinIndex ≤ s.processCount)
    (hroom : s.processCount < MAX_PROCESSES) : findSlot s = some s.processCount := by
  unfold findSlot
  split
  · rename_i hzero
    have hempty := (h.compact 0).not.mp (by simp [hzero])
    rw [Nat.eq_zero_of_not_pos hempty]
  · have hnone : s.processes s.processCount = none := by
      have hfree := (h.compact s.processCount).not.mpr (Nat.lt_irrefl _)
      simpa using hfree
    refine scan_eq_some_of hmin (by omega) (by simp [hnone]) fun k _ hk => ?_
    have hsome := (h.compact k).mpr hk
    cases hp : s.processes k with
    | none => simp [hp] at hsome
    | some p => rfl

/-- A slot is found only when the table has room. -/
theorem lt_of_findSlot {s : SchedState} (h : Table s) (hmin : s.processMinIndex ≤ s.processCount)
    (hfind : findSlot s = some i) : s.processCount < MAX_PROCESSES := by
  by_contra hc
  have hfull : ∀ k < MAX_PROCESSES, (s.processes k).isSome := fun k hk =>
    (h.compact k).mpr (by omega)
  have hle := h.le
  unfold findSlot at hfind
  split at hfind
  · rename_i hzero
    have hsome := hfull 0 (by decide)
    simp [hzero] at hsome
  · obtain ⟨-, hlt, hnone, -⟩ := scan_eq_some hfind
    have hsome := hfull i (by omega)
    cases hp : s.processes i with
    | none => simp [hp] at hsome
    | some q => simp [hp] at hnone

/-- After a new process, the search for a slot goes on right behind it. -/
theorem nextSlot_eq {s : SchedState} {minIndex : Nat} (h : Table s)
    (hscan : scan (fun i => (Function.update s.processes s.processCount (some p) i).isNone)
      (MAX_PROCESSES - (s.processCount + 1)) (s.processCount + 1) = some minIndex) :
    minIndex = s.processCount + 1 ∧ s.processCount + 1 < MAX_PROCESSES := by
  obtain ⟨hlo, hhi, -, hfirst⟩ := scan_eq_some hscan
  refine ⟨?_, by omega⟩
  by_contra hne
  have hsome := hfirst (s.processCount + 1) (by omega) (by omega)
  have hempty := (h.compact (s.processCount + 1)).not.mpr (by omega)
  rw [Function.update_of_ne (by omega)] at hsome
  cases hp : s.processes (s.processCount + 1) with
  | none => simp [hp] at hsome
  | some q => simp [hp] at hempty

/-- The table with a new process behind the last one. -/
structure Appended (s s' : SchedState) (p : ProcPtr) (proc : Process) : Prop where
  procs : s'.procs = Function.update s.procs p proc
  processes : s'.processes = Function.update s.processes s.processCount (some p)
  processCount : s'.processCount = s.processCount + 1

/-- Appending a process makes it live and keeps the table without gaps. -/
theorem Appended.table {s s' : SchedState} {proc : Process} (h : Table s)
    (hroom : s.processCount < MAX_PROCESSES) (hp : ¬ Live s p) (hproc : proc.i = s.processCount)
    (ha : Appended s s' p proc) :
    Table s' ∧ ∀ q, Live s' q ↔ q = p ∨ Live s q := by
  have hslot : ∀ i, s'.processes i = if i = s.processCount then some p else s.processes i := by
    intro i
    rw [ha.processes, Function.update_apply]
  have hold : ∀ i q, s.processes i = some q → i < s.processCount ∧ q ≠ p := by
    intro i q hq
    have hi : i < s.processCount := (h.compact i).mp (by simp [hq])
    exact ⟨hi, fun hqp => hp ⟨i, hi, hqp ▸ hq⟩⟩
  refine ⟨⟨fun i => ?_, fun i q hq => ?_, ?_⟩, fun q => ⟨?_, ?_⟩⟩
  · rw [hslot, ha.processCount]
    by_cases hi : i = s.processCount
    · simp [hi]
    · rw [if_neg hi, h.compact i]
      omega
  · rw [hslot] at hq
    rw [ha.procs]
    split at hq
    · rename_i hi
      cases hq
      rw [Function.update_self, hproc, hi]
    · rw [Function.update_of_ne (hold i q hq).2]
      exact h.index i q hq
  · rw [ha.processCount]
    omega
  · rintro ⟨i, -, hq⟩
    rw [hslot] at hq
    split at hq
    · exact Or.inl (Option.some.inj hq).symm
    · exact Or.inr ⟨i, (hold i q hq).1, hq⟩
  · rintro (rfl | ⟨i, hi, hq⟩)
    · exact ⟨s.processCount, by rw [ha.processCount]; omega, by rw [hslot, if_pos rfl]⟩
    · exact ⟨i, by rw [ha.processCount]; omega, by rw [hslot, if_neg (by omega), hq]⟩

/-! ### What the steps do -/

/-- What a successful `proc_exec` does. -/
structure Created (s s' : ProcState) (p : ProcPtr) (pages : List UInt64) : Prop where
  room : s.sched.processCount + 1 < MAX_PROCESSES
  table : Table s'.sched
  minIndex : s'.sched.processMinIndex = s'.sched.processCount
  live : ∀ q, Live s'.sched q ↔ q = p ∨ Live s.sched q
  origI : s'.origI = Function.update s.origI p s.sched.processCount
  pagetable : ∃ t rest, vmmUserPagetableNew s.kernel.kernelPagetable pages = .ok (some t, rest) ∧
    s'.pagetable = Function.update s.pagetable p t
  stack : ∃ top rest rest', vmmAllocateProcKernelStack s.kernel.kernelPagetable
    s.sched.processCount rest = .ok (top, s'.kernel.kernelPagetable, rest')

/-- `proc_allocate` in a table without gaps: the new process gets the slot behind the last
one. -/
theorem procAllocate_ok {rest : List UInt64} (htable : Table s.sched)
    (hmin : s.sched.processMinIndex ≤ s.sched.processCount)
    (h : procAllocate s p pages = .ok (some (s', rest))) :
    s.sched.processCount + 1 < MAX_PROCESSES ∧
      Appended s.sched s'.sched p (newProcess s.nextPid s.sched.processCount) ∧
      s'.sched.processMinIndex = s'.sched.processCount ∧
      s'.origI = Function.update s.origI p s.sched.processCount ∧
      s'.kernel = s.kernel ∧
      ∃ t, vmmUserPagetableNew s.kernel.kernelPagetable pages = .ok (some t, rest) ∧
        s'.pagetable = Function.update s.pagetable p t := by
  unfold procAllocate at h
  split at h
  · cases h
  rename_i i hfind
  have hroom := lt_of_findSlot htable hmin hfind
  rw [findSlot_eq htable hmin hroom] at hfind
  cases hfind
  unfold isValidProcessInit at h
  split at h
  · cases h
  rename_i s₁ rest₁ hinit
  split at hinit
  · cases hinit
  · cases hinit
  rename_i t rest₂ hnew
  cases hinit
  simp only [Function.update_self, if_true] at h
  split at h
  · cases h
  rename_i minIndex hscan
  cases h
  obtain ⟨hnext, hroom'⟩ := nextSlot_eq htable hscan
  exact ⟨hroom', ⟨rfl, rfl, rfl⟩, hnext, rfl, rfl, t, hnew, rfl⟩

/-- `proc_exec` in a table without gaps. -/
theorem procExec_ok (htable : Table s.sched)
    (hmin : s.sched.processMinIndex ≤ s.sched.processCount) (hp : ¬ Live s.sched p)
    (h : procExec s p pages = .ok (some s')) : Created s s' p pages := by
  unfold procExec at h
  split at h
  · cases h
  · cases h
  rename_i s₁ rest halloc
  obtain ⟨hroom, happ, hminIndex, horig, hkernel, t, hnew, hpagetable⟩ :=
    procAllocate_ok htable hmin halloc
  obtain ⟨htable', hlive⟩ := happ.table htable (by omega) hp rfl
  have hi : (s₁.sched.procs p).i = s.sched.processCount := by
    rw [happ.procs, Function.update_self]
    rfl
  split at h
  · cases h
  rename_i top t' rest' hstack
  cases h
  rw [hkernel, hi] at hstack
  exact {
    room := hroom
    table := htable'
    minIndex := hminIndex
    live := hlive
    origI := horig
    pagetable := ⟨t, rest, hnew, hpagetable⟩
    stack := ⟨top, rest, rest', hstack⟩ }

/-- What the clean-up of a process does. -/
structure Reaped (s s' : ProcState) (p : ProcPtr) : Prop where
  table : Table s'.sched
  minIndex : s'.sched.processMinIndex ≤ s'.sched.processCount
  live : ∀ q, Live s'.sched q ↔ Live s.sched q ∧ q ≠ p
  origI : s'.origI = s.origI
  pagetable : s'.pagetable = s.pagetable
  stack : vmmFreeProcKernelStack s.kernel.kernelPagetable (s.origI p) =
    .ok s'.kernel.kernelPagetable

/-- The clean-up of a live process in a table without gaps. -/
theorem procReap_ok (htable : Table s.sched)
    (hmin : s.sched.processMinIndex ≤ s.sched.processCount) (hp : Live s.sched p)
    (h : procReap s p = .ok s') : Reaped s s' p := by
  unfold procReap at h
  split at h
  · cases h
  rename_i t hfree
  cases h
  have hslot := (htable.live_iff p).mp hp
  have hlt : (s.sched.procs p).i < s.sched.processCount :=
    (htable.compact _).mp (by simp [hslot])
  obtain ⟨htable', hlive, -⟩ := reapProcess_table htable hslot
  exact ⟨htable', reapProcess_minIndex hmin hlt, hlive, rfl, rfl, hfree⟩

/-! ### The invariant -/

/-- What holds in every reachable state:

- `table`, `minIndex`: the process table has no gap, and the search for a slot starts inside it
  or right behind it;
- `slot`, `distinct`: live processes have different stack slots;
- `stack`: their stacks are mapped. -/
structure Inv (s : ProcState) : Prop where
  table : Table s.sched
  minIndex : s.sched.processMinIndex ≤ s.sched.processCount
  slot : ∀ p, Live s.sched p → s.origI p + 1 < MAX_PROCESSES
  stack : ∀ p, Live s.sched p → ∀ k < STACK_PAGES,
    Present s.kernel.kernelPagetable (stackPageVa (s.origI p) k)
  distinct : ∀ p q, Live s.sched p → Live s.sched q → s.origI p = s.origI q → p = q

/-- No stack is mapped but those of live processes. -/
def Clean (s : ProcState) : Prop :=
  ∀ i < MAX_PROCESSES, (∀ p, Live s.sched p → s.origI p ≠ i) → ∀ k < STACK_PAGES,
    ¬ Present s.kernel.kernelPagetable (stackPageVa i k)

/-- A stack page of a slot is on the stack of the same slot only. -/
theorem onStack_stackPage (hi : i < MAX_PROCESSES) (hj : j < MAX_PROCESSES) (hk : k < STACK_PAGES) :
    OnStack i 0 STACK_PAGES (stackPageVa j k) ↔ j = i := by
  constructor
  · rintro ⟨k', -, hk', hsame⟩
    exact ((samePage_stackPage hj hi hk (by omega)).mp hsame).1
  · rintro rfl
    exact ⟨k, Nat.zero_le k, by omega, samePage_refl _⟩

/-- The stack pages that are present after a creation. -/
theorem Created.present (h : Created s s' p pages) (hj : j < MAX_PROCESSES) (hk : k < STACK_PAGES) :
    Present s'.kernel.kernelPagetable (stackPageVa j k) ↔
      j = s.sched.processCount ∨ Present s.kernel.kernelPagetable (stackPageVa j k) := by
  have hroom := h.room
  have hi : s.sched.processCount < MAX_PROCESSES := by omega
  obtain ⟨top, rest, rest', hstack⟩ := h.stack
  rw [(vmmAllocateProcKernelStack_ok hi hstack).2, onStack_stackPage hi hj hk]
  have hguard := not_samePage_guard hj hi hk
  simp [hguard]

/-- The stack pages that are present after a clean-up. -/
theorem Reaped.present (h : Reaped s s' p) (hi : s.origI p < MAX_PROCESSES) (hj : j < MAX_PROCESSES)
    (hk : k < STACK_PAGES) :
    Present s'.kernel.kernelPagetable (stackPageVa j k) ↔
      j ≠ s.origI p ∧ Present s.kernel.kernelPagetable (stackPageVa j k) := by
  rw [vmmFreeProcKernelStack_ok h.stack, onStack_stackPage hi hj hk]
  have hguard := not_samePage_guard hj hi hk
  simp [hguard, and_comm]

/-- The slot of a new process is not the stack slot of a live one. -/
theorem Created.origI_ne (h : Created s s' p pages) (hinv : Inv s) (hq : Live s.sched q) :
    s.origI q ≠ s.sched.processCount := by
  have hroom := h.room
  obtain ⟨top, rest, rest', hstack⟩ := h.stack
  intro heq
  have habsent := (vmmAllocateProcKernelStack_ok (show s.sched.processCount < 64 by
    have : MAX_PROCESSES = 64 := rfl
    omega) hstack).1 0 (by decide)
  exact habsent (heq ▸ hinv.stack q hq 0 (by decide))

/-- A creation keeps the invariant. -/
theorem Created.inv (h : Created s s' p pages) (hinv : Inv s) (hp : ¬ Live s.sched p) :
    Inv s' := by
  have hroom := h.room
  have hother : ∀ q, Live s.sched q → s'.origI q = s.origI q := by
    intro q hq
    have hne : q ≠ p := fun hqp => hp (hqp ▸ hq)
    rw [h.origI, Function.update_of_ne hne]
  have hself : s'.origI p = s.sched.processCount := by rw [h.origI, Function.update_self]
  refine ⟨h.table, Nat.le_of_eq h.minIndex, fun q hq => ?_, fun q hq k hk => ?_, ?_⟩
  · rcases (h.live q).mp hq with rfl | hq
    · rw [hself]
      exact hroom
    · rw [hother q hq]
      exact hinv.slot q hq
  · rcases (h.live q).mp hq with rfl | hq
    · rw [hself, h.present (by omega) hk]
      exact Or.inl rfl
    · have hslot := hinv.slot q hq
      rw [hother q hq, h.present (by omega) hk]
      exact Or.inr (hinv.stack q hq k hk)
  · intro q₁ q₂ h₁ h₂ heq
    rcases (h.live q₁).mp h₁ with rfl | h₁ <;> rcases (h.live q₂).mp h₂ with rfl | h₂
    · rfl
    · rw [hself, hother q₂ h₂] at heq
      exact absurd heq.symm (h.origI_ne hinv h₂)
    · rw [hself, hother q₁ h₁] at heq
      exact absurd heq (h.origI_ne hinv h₁)
    · rw [hother q₁ h₁, hother q₂ h₂] at heq
      exact hinv.distinct q₁ q₂ h₁ h₂ heq

/-- A clean-up keeps the invariant. -/
theorem Reaped.inv (h : Reaped s s' p) (hinv : Inv s) (hp : Live s.sched p) : Inv s' := by
  have hslot := hinv.slot p hp
  refine ⟨h.table, h.minIndex, fun q hq => ?_, fun q hq k hk => ?_, ?_⟩
  · rw [h.origI]
    exact hinv.slot q ((h.live q).mp hq).1
  · obtain ⟨hq, hne⟩ := (h.live q).mp hq
    have hslot' := hinv.slot q hq
    rw [h.origI, h.present (by omega) (by omega) hk]
    exact ⟨fun heq => hne (hinv.distinct q p hq hp heq), hinv.stack q hq k hk⟩
  · intro q₁ q₂ h₁ h₂ heq
    rw [h.origI] at heq
    exact hinv.distinct q₁ q₂ ((h.live q₁).mp h₁).1 ((h.live q₂).mp h₂).1 heq

/-- A creation leaves no stack without a process. -/
theorem Created.clean (h : Created s s' p pages) (hclean : Clean s) (hp : ¬ Live s.sched p) :
    Clean s' := by
  intro i hi hno k hk hpresent
  have hself : s'.origI p = s.sched.processCount := by rw [h.origI, Function.update_self]
  rcases (h.present hi hk).mp hpresent with heq | hold
  · exact hno p ((h.live p).mpr (Or.inl rfl)) (hself.trans heq.symm)
  · refine hclean i hi (fun q hq heq => ?_) k hk hold
    have hne : q ≠ p := fun hqp => hp (hqp ▸ hq)
    refine hno q ((h.live q).mpr (Or.inr hq)) ?_
    rw [h.origI, Function.update_of_ne hne, heq]

/-- A clean-up leaves no stack without a process. -/
theorem Reaped.clean (h : Reaped s s' p) (hinv : Inv s) (hclean : Clean s)
    (hp : Live s.sched p) : Clean s' := by
  intro i hi hno k hk hpresent
  have hslot := hinv.slot p hp
  obtain ⟨hne, hold⟩ := (h.present (by omega) hi hk).mp hpresent
  refine hclean i hi (fun q hq heq => ?_) k hk hold
  have hqp : q ≠ p := fun hqp => hne (hqp ▸ heq).symm
  refine hno q ((h.live q).mpr ⟨hq, hqp⟩) ?_
  rw [h.origI, heq]

/-- The cases of a step in the life of a process. -/
theorem procStep_cases (hinv : Inv s) (h : procStep s a = some s') :
    (∃ p pages, a = .exec p pages ∧ ¬ Live s.sched p ∧ Created s s' p pages) ∨
      ∃ p, a = .exit p ∧ Live s.sched p ∧ Reaped s s' p := by
  cases a with
  | exec p pages =>
    simp only [procStep] at h
    split at h
    · cases h
    rename_i hp
    split at h
    · rename_i s₁ hexec
      cases h
      exact Or.inl ⟨p, pages, rfl, hp, procExec_ok hinv.table hinv.minIndex hp hexec⟩
    · cases h
  | exit p =>
    simp only [procStep] at h
    split at h
    · rename_i hp
      split at h
      · rename_i s₁ hreap
        cases h
        exact Or.inr ⟨p, rfl, hp, procReap_ok hinv.table hinv.minIndex hp hreap⟩
      · cases h
    · cases h

/-- A step keeps the invariant. -/
theorem procStep_inv (hinv : Inv s) (h : procStep s a = some s') : Inv s' := by
  rcases procStep_cases hinv h with ⟨p, pages, -, hp, hcreated⟩ | ⟨p, -, hp, hreaped⟩
  · exact hcreated.inv hinv hp
  · exact hreaped.inv hinv hp

/-- A step leaves no stack without a process. -/
theorem procStep_clean (hinv : Inv s) (hclean : Clean s) (h : procStep s a = some s') :
    Clean s' := by
  rcases procStep_cases hinv h with ⟨p, pages, -, hp, hcreated⟩ | ⟨p, -, hp, hreaped⟩
  · exact hcreated.clean hclean hp
  · exact hreaped.clean hinv hclean hp

/-! ### Runs whose stacks do not collide -/

/-- An empty process table, with the area of the kernel stacks unmapped. -/
structure Boot (s : ProcState) : Prop where
  processes : ∀ i, s.sched.processes i = none
  processCount : s.sched.processCount = 0
  processMinIndex : s.sched.processMinIndex = 0
  stackArea : ∀ i < MAX_PROCESSES, ∀ k < STACK_PAGES,
    ¬ Present s.kernel.kernelPagetable (stackPageVa i k)

/-- No process is live at boot. -/
theorem Boot.not_live (h : Boot s) (p : ProcPtr) : ¬ Live s.sched p := by
  rintro ⟨i, -, hi⟩
  rw [h.processes i] at hi
  cases hi

/-- The invariant holds at boot. -/
theorem Boot.inv (h : Boot s) : Inv s where
  table := {
    compact := fun i => by simp [h.processes i, h.processCount]
    index := fun i p hp => by
      rw [h.processes i] at hp
      cases hp
    le := by
      rw [h.processCount]
      decide }
  minIndex := by rw [h.processMinIndex]; exact Nat.zero_le _
  slot := fun p hp => absurd hp (h.not_live p)
  stack := fun p hp => absurd hp (h.not_live p)
  distinct := fun p _ hp => absurd hp (h.not_live p)

/-- Live processes have different stack slots. -/
def StacksApart (s : ProcState) : Prop :=
  ∀ p q, Live s.sched p → Live s.sched q → s.origI p = s.origI q → p = q

/-- The step `a` collides with no stack. The slot that a new process takes has no page mapped,
and the panic of a second mapping is not reached. A clean-up leaves the stack entries of the
other processes alone. -/
def ActSafe (s : ProcState) : ProcAct → Prop
  | .exec p pages => ¬ Live s.sched p →
    (∀ i, findSlot s.sched = some i → ∀ k < STACK_PAGES,
      ¬ Present s.kernel.kernelPagetable (stackPageVa i k)) ∧
      procExec s p pages ≠ .error "vmm_map_kernel_pages: remap"
  | .exit p => Live s.sched p →
    ∀ t, vmmFreeProcKernelStack s.kernel.kernelPagetable (s.origI p) = .ok t →
    ∀ q, Live s.sched q → q ≠ p → ∀ k < STACK_PAGES,
      readLeaf t (stackPageVa (s.origI q) k) =
        readLeaf s.kernel.kernelPagetable (stackPageVa (s.origI q) k)

/-- In every state of the run, live processes have different stack slots and the next step
collides with no stack. A run ends at a step that does not succeed. -/
def SafeRun : ProcState → List ProcAct → Prop
  | s, [] => StacksApart s
  | s, a :: acts => StacksApart s ∧ ActSafe s a ∧ ∀ s', procStep s a = some s' → SafeRun s' acts

/-- No live process holds the stack with the number of live processes. -/
def SlotFree (s : ProcState) : Prop := ∀ p, Live s.sched p → s.origI p ≠ s.sched.processCount

/-- `SlotFree` holds whenever the run creates a process. -/
def FreeRun : ProcState → List ProcAct → Prop
  | _, [] => True
  | s, a :: acts => ((∃ p pages, a = .exec p pages ∧ ¬ Live s.sched p) → SlotFree s) ∧
    ∀ s', procStep s a = some s' → FreeRun s' acts

/-- The slot of a new process is unmapped exactly when no live process holds it. -/
theorem slotFree_iff (hinv : Inv s) (hclean : Clean s) :
    (∀ i, findSlot s.sched = some i → ∀ k < STACK_PAGES,
      ¬ Present s.kernel.kernelPagetable (stackPageVa i k)) ↔ SlotFree s := by
  have hle := hinv.table.le
  constructor
  · intro hfree p hp heq
    have hslot := hinv.slot p hp
    have hfind := findSlot_eq hinv.table hinv.minIndex (by omega)
    refine hfree _ hfind 0 (by decide) ?_
    rw [← heq]
    exact hinv.stack p hp 0 (by decide)
  · intro hfree i hfind
    have hroom := lt_of_findSlot hinv.table hinv.minIndex hfind
    rw [findSlot_eq hinv.table hinv.minIndex hroom] at hfind
    cases hfind
    exact hclean _ hroom hfree

/-- A new page table does not fail with the panic of `vmm_map_kernel_pages`. -/
theorem vmmUserPagetableNew_no_remap (t : PageTree 3) (pages : List UInt64) :
    vmmUserPagetableNew t pages ≠ .error "vmm_map_kernel_pages: remap" := by
  intro h
  unfold vmmUserPagetableNew at h
  split at h
  · cases h
  · split at h
    · cases h
    · rename_i t₁ userStack intStack syscallStack pages₁ hcopy
      cases hmap : mapUserStacks t₁ userStack intStack syscallStack pages₁ with
      | error e =>
        rw [hmap] at h
        have he : e = "vmm_map_kernel_pages: remap" := Except.error.inj h
        exact mapUserStacks_no_remap (he ▸ hmap)
      | ok r =>
        rw [hmap] at h
        cases h
    · cases h

/-- When the slot of a new process is unmapped, `proc_exec` maps no page twice. -/
theorem procExec_no_remap (hinv : Inv s)
    (hfree : ∀ i, findSlot s.sched = some i → ∀ k < STACK_PAGES,
      ¬ Present s.kernel.kernelPagetable (stackPageVa i k)) :
    procExec s p pages ≠ .error "vmm_map_kernel_pages: remap" := by
  intro h
  unfold procExec at h
  split at h
  · rename_i e halloc
    cases h
    unfold procAllocate at halloc
    split at halloc
    · cases halloc
    · split at halloc
      · rename_i e hinit
        cases halloc
        unfold isValidProcessInit at hinit
        split at hinit
        · rename_i e hnew
          cases hinit
          exact vmmUserPagetableNew_no_remap _ _ hnew
        · simp at hinit
        · cases hinit
      · simp only at halloc
        split at halloc
        · simp at halloc
        · cases halloc
  · cases h
  · rename_i s₁ rest halloc
    obtain ⟨hroom, happ, -, -, hkernel, -⟩ := procAllocate_ok hinv.table hinv.minIndex halloc
    have hlt : s.sched.processCount < MAX_PROCESSES := by omega
    have hi : (s₁.sched.procs p).i = s.sched.processCount := by
      rw [happ.procs, Function.update_self]
      rfl
    have hunmapped := hfree _ (findSlot_eq hinv.table hinv.minIndex hlt)
    split at h
    · rename_i e hstack
      cases h
      rw [hkernel, hi] at hstack
      exact vmmAllocateProcKernelStack_no_remap hlt hunmapped hstack
    · cases h

/-- A step is safe exactly when a creation finds its slot free. -/
theorem actSafe_iff (hinv : Inv s) (hclean : Clean s) (a : ProcAct) :
    ActSafe s a ↔ ((∃ p pages, a = .exec p pages ∧ ¬ Live s.sched p) → SlotFree s) := by
  cases a with
  | exec p pages =>
    constructor
    · rintro hsafe ⟨p', pages', heq, hp'⟩
      cases heq
      exact (slotFree_iff hinv hclean).mp (hsafe hp').1
    · intro hfree hp
      have hunmapped := (slotFree_iff hinv hclean).mpr (hfree ⟨p, pages, rfl, hp⟩)
      exact ⟨hunmapped, procExec_no_remap hinv hunmapped⟩
  | exit p =>
    refine iff_of_true ?_ fun hexec => ?_
    · -- The stack slot of another process is another one.
      intro hp t hfree q hq hne k hk
      have hslot : s.origI p < MAX_PROCESSES := Nat.lt_of_succ_lt (hinv.slot p hp)
      have hslot' : s.origI q < MAX_PROCESSES := Nat.lt_of_succ_lt (hinv.slot q hq)
      refine readLeaf_vmmFreeProcKernelStack hfree (not_samePage_guard hslot' hslot hk) ?_
      rw [onStack_stackPage hslot hslot' hk]
      exact fun heq => hne (hinv.distinct q p hq hp heq)
    · obtain ⟨p', pages', heq, -⟩ := hexec
      cases heq

/-- A run is safe exactly when its creations find their slots free, from any state that meets
the invariant. -/
theorem safeRun_iff (hinv : Inv s) (hclean : Clean s) (acts : List ProcAct) :
    SafeRun s acts ↔ FreeRun s acts := by
  induction acts generalizing s with
  | nil => exact iff_of_true hinv.distinct trivial
  | cons a acts ih =>
    have hrest : ∀ s', procStep s a = some s' → (SafeRun s' acts ↔ FreeRun s' acts) :=
      fun s' h => ih (procStep_inv hinv h) (procStep_clean hinv hclean h)
    constructor
    · rintro ⟨-, hact, hnext⟩
      exact ⟨(actSafe_iff hinv hclean a).mp hact, fun s' h => (hrest s' h).mp (hnext s' h)⟩
    · rintro ⟨hfree, hnext⟩
      exact ⟨hinv.distinct, (actSafe_iff hinv hclean a).mpr hfree,
        fun s' h => (hrest s' h).mpr (hnext s' h)⟩

/-- When kernel stacks never collide in a run from boot: exactly when, at every creation of a
process, no live process holds the stack with the number of live processes. -/
theorem stackSlots_apart_iff (hboot : Boot s) (acts : List ProcAct) :
    SafeRun s acts ↔ FreeRun s acts :=
  safeRun_iff hboot.inv (fun i hi _ k hk => hboot.stackArea i hi k hk) acts

/-! ### Two processes, of which the first exits -/

/-- A machine with an empty process table and an empty kernel table. -/
def emptyMachine : ProcState where
  sched := {
    procs := fun _ => newProcess 0 0
    processes := fun _ => none
    processCount := 0
    processMinIndex := 0
    rq := {
      queueHeads := fun _ => none
      queueTails := fun _ => none
      queueSizes := fun _ => 0
      totalRunnable := 0
      curr := none
      totalWeight := 0
      minVruntime := 0 } }
  origI := fun _ => 0
  pagetable := fun _ => Radix.empty 0 3
  kernelStackTop := fun _ => 0
  nextPid := 1
  kernel := { kernelPagetable := Radix.empty 0 3, ioMemmapCurrentAddress := 0xfffffffff0000000 }

/-- The empty machine is a machine at boot. -/
theorem emptyMachine_boot : Boot emptyMachine where
  processes := fun _ => rfl
  processCount := rfl
  processMinIndex := rfl
  stackArea := by
    intro i _ k _ hpresent
    have hnone : emptyMachine.kernel.kernelPagetable.mapping pteIsPresent
        (vaPath (stackPageVa i k)) = none :=
      Radix.mapping_empty (by decide) 3 _
    rw [present_iff, hnone] at hpresent
    cases hpresent

/-- Enough memory for one process. -/
def fortyPages : List UInt64 := (List.range 40).map fun i => UInt64.ofNat (0x100000 + i * 0x1000)

/-- Two processes are created, the first one exits, and a third one is created. -/
def firstExits :
    List ProcAct := [.exec 1 fortyPages, .exec 2 fortyPages, .exit 1, .exec 3 fortyPages]

/-- The law for this run. -/
theorem stackSlots_apart_iff_firstExits :
    SafeRun emptyMachine firstExits ↔ FreeRun emptyMachine firstExits :=
  stackSlots_apart_iff emptyMachine_boot firstExits

/-- The third process gets the stack slot of the second one. -/
theorem stackSlots_collide : Boot emptyMachine ∧ ¬ SafeRun emptyMachine firstExits := by
  refine ⟨emptyMachine_boot, fun hsafe => ?_⟩
  have hclean : Clean emptyMachine := fun i hi _ k hk => emptyMachine_boot.stackArea i hi k hk
  have hfree := (safeRun_iff emptyMachine_boot.inv hclean firstExits).mp hsafe
  have hlast : (((procStep emptyMachine (.exec 1 fortyPages)).bind fun s =>
      (procStep s (.exec 2 fortyPages)).bind fun s => procStep s (.exit 1)).map fun s =>
        decide (Live s.sched 2 ∧ s.origI 2 = s.sched.processCount ∧ ¬ Live s.sched 3)) =
          some true := by
    decide +kernel
  obtain ⟨s₃, hrun, hcollide⟩ := Option.map_eq_some_iff.mp hlast
  obtain ⟨s₁, h₁, hrun⟩ := Option.bind_eq_some_iff.mp hrun
  obtain ⟨s₂, h₂, h₃⟩ := Option.bind_eq_some_iff.mp hrun
  obtain ⟨hlive, horig, hnew⟩ := of_decide_eq_true hcollide
  have hslot := (((hfree.2 s₁ h₁).2 s₂ h₂).2 s₃ h₃).1 ⟨3, fortyPages, rfl, hnew⟩
  exact hslot 2 hlive horig

end DzOS.Proofs.Sched.StackSlots
