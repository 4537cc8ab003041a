import DzOS.Lib.Run
import DzOS.Proofs.Sched.StackSlots

/-!
# `DzOS.Proofs.Sched.ProcessTable`: the process table stays compact

The table is changed by `proc_allocate`, which searches from `process_min_index`, and by
`coelesce_processes`, which closes the gap of a process that exited. `Allocated` and `Exited` say
what the two steps do in a compact table. `proc_allocate` succeeds with 62 live processes at most
(`procAllocate_succeeds`), as long as there is memory for the new page table.

The pids come from a 64-bit counter. `Numbered` keeps the number of the allocation that made each
live process, and pids are those numbers modulo `2 ^ 64`. So they are distinct in the first
`2 ^ 64` allocations (`processTable_compact`), and not after them (`pids_wrap`).
-/

set_option autoImplicit false

namespace DzOS.Proofs.Sched.ProcessTable

open DzOS.Lib DzOS.Mem DzOS.Sched DzOS.Proofs.Mem DzOS.Proofs.Sched.StackSlots

variable {rest pages : List UInt64} {s s' : ProcState} {p q : ProcPtr}

/-! ### What holds in every state -/

/-- The number of live processes: the slots in use. -/
def liveCount (s : SchedState) : Nat :=
  ((List.range MAX_PROCESSES).filter fun k => (s.processes k).isSome).length

/-- The table has no gap, and its processes know their slots. -/
structure TableOk (s : SchedState) : Prop where
  occupied : ∀ k < MAX_PROCESSES, (s.processes k).isSome ↔ k < s.processCount
  index : ∀ k p, s.processes k = some p → (s.procs p).i = k
  hint : s.processMinIndex ≤ s.processCount

/-- Whenever there is memory for a new page table, `proc_allocate` succeeds and puts the process
behind the last one. -/
def NextAllocates (s : ProcState) : Prop :=
  ∀ p pages t rest, ¬ Live s.sched p →
    vmmUserPagetableNew s.kernel.kernelPagetable pages = .ok (some t, rest) →
    ∃ s', procAllocate s p pages = .ok (some (s', rest)) ∧
      s'.sched.processes = Function.update s.sched.processes s.sched.processCount (some p) ∧
      s'.sched.processCount = s.sched.processCount + 1

/-- When a process exits, the others stay live, each in one slot. -/
def ExitKeeps (s : ProcState) : Prop :=
  ∀ i p s', s.sched.processes i = some p → tableStep s (.exit i) = some s' →
    (∀ x, Live s'.sched x ↔ Live s.sched x ∧ x ≠ p) ∧
    ∀ k l x, s'.sched.processes k = some x → s'.sched.processes l = some x → k = l

/-- Live processes have different pids. -/
def PidsDistinct (s : SchedState) : Prop :=
  ∀ p q, Live s p → Live s q → (s.procs p).pid = (s.procs q).pid → p = q

/-- The number of `proc_allocate` calls in a run. -/
def allocations : List TableAct → Nat
  | [] => 0
  | .allocate _ _ :: acts => allocations acts + 1
  | .exit _ :: acts => allocations acts

/-- A machine without processes. -/
structure EmptyTable (s : SchedState) : Prop where
  processes : ∀ i, s.processes i = none
  processCount : s.processCount = 0
  processMinIndex : s.processMinIndex = 0

/-! ### The steps -/

/-- What a successful `proc_allocate` does. -/
structure Allocated (s s' : ProcState) (p : ProcPtr) : Prop where
  room : s.sched.processCount + 1 < MAX_PROCESSES
  table : Table s'.sched
  hint : s'.sched.processMinIndex = s'.sched.processCount
  count : s'.sched.processCount = s.sched.processCount + 1
  slot : s'.sched.processes s.sched.processCount = some p
  live : ∀ q, Live s'.sched q ↔ q = p ∨ Live s.sched q
  new : s'.sched.procs p = newProcess s.nextPid s.sched.processCount
  old : ∀ q ≠ p, s'.sched.procs q = s.sched.procs q
  rq : s'.sched.rq = s.sched.rq
  nextPid : s'.nextPid = s.nextPid + 1
  kernel : s'.kernel = s.kernel

/-- What the exit of the process at `p` does. -/
structure Exited (s s' : ProcState) (p : ProcPtr) : Prop where
  table : Table s'.sched
  hint : s'.sched.processMinIndex ≤ s'.sched.processCount
  count : s'.sched.processCount = s.sched.processCount - 1
  live : ∀ q, Live s'.sched q ↔ Live s.sched q ∧ q ≠ p
  pid : ∀ q ≠ p, (s'.sched.procs q).pid = (s.sched.procs q).pid
  nextPid : s'.nextPid = s.nextPid
  kernel : s'.kernel = s.kernel

/-- An allocation takes one pid and leaves the run queue alone. -/
theorem procAllocate_frame (h : procAllocate s p pages = .ok (some (s', rest))) :
    s'.sched.rq = s.sched.rq ∧ s'.nextPid = s.nextPid + 1 := by
  unfold procAllocate at h
  split at h
  · cases h
  split at h
  · cases h
  rename_i s₁ rest₁ hinit
  have hframe : s₁.sched.rq = s.sched.rq ∧ s₁.nextPid = s.nextPid + 1 := by
    unfold isValidProcessInit at hinit
    split at hinit
    · cases hinit
    · cases hinit
    cases hinit
    exact ⟨rfl, rfl⟩
  dsimp only at h
  split at h
  · cases h
  cases h
  exact hframe

section

variable (htable : Table s.sched) (hhint : s.sched.processMinIndex ≤ s.sched.processCount)

include htable hhint

/-- With room for one process more than the new one, and memory for its page table,
`proc_allocate` succeeds. -/
theorem procAllocate_succeeds {t : PageTree 3} (hroom : s.sched.processCount + 1 < MAX_PROCESSES)
    (hnew : vmmUserPagetableNew s.kernel.kernelPagetable pages = .ok (some t, rest)) (p : ProcPtr) :
    ∃ s', procAllocate s p pages = .ok (some (s', rest)) := by
  have hfind := findSlot_eq htable hhint (Nat.lt_of_succ_lt hroom)
  -- the slot behind the new one is free, so the search for it ends there
  have hscan : scan
      (fun i => (Function.update s.sched.processes s.sched.processCount (some p) i).isNone)
      (MAX_PROCESSES - (s.sched.processCount + 1)) (s.sched.processCount + 1) =
        some (s.sched.processCount + 1) := by
    refine scan_eq_some_of (Nat.le_refl _) (by omega) ?_ fun k h1 h2 => by omega
    have hfree := (htable.compact (s.sched.processCount + 1)).not.mpr (by omega)
    rw [Function.update_of_ne (by omega)]
    simpa using hfree
  unfold procAllocate
  rw [hfind]
  simp only [isValidProcessInit, hnew, Function.update_self, if_true, hscan]
  exact ⟨_, rfl⟩

/-- An allocation that does not panic. -/
theorem allocated_of_procAllocate (hp : ¬ Live s.sched p)
    (h : procAllocate s p pages = .ok (some (s', rest))) : Allocated s s' p := by
  obtain ⟨hroom, happ, hindex, -, hkernel, -⟩ := procAllocate_ok htable hhint h
  obtain ⟨htable', hlive⟩ := happ.table htable (Nat.lt_of_succ_lt hroom) hp rfl
  obtain ⟨hrq, hpid⟩ := procAllocate_frame h
  refine ⟨hroom, htable', hindex, happ.processCount, ?_, hlive, ?_, fun q hq => ?_, hrq, hpid,
    hkernel⟩
  · rw [happ.processes, Function.update_self]
  · rw [happ.procs, Function.update_self]
  · rw [happ.procs, Function.update_of_ne hq]

/-- The exit of the process in a slot. -/
theorem exited_of_slot {i : Nat} (hslot : s.sched.processes i = some p) :
    Exited s { s with sched := reapProcess s.sched p i } p := by
  have hlt : i < s.sched.processCount := (htable.compact i).mp (by rw [hslot]; rfl)
  obtain ⟨htable', hlive, -⟩ := reapProcess_table htable hslot
  refine ⟨htable', reapProcess_minIndex hhint hlt, ?_, hlive, fun q hq => ?_, rfl, rfl⟩
  · exact congrArg (· - 1) (coelesceFrom_counters (clearSlot s.sched p i) _ _).1
  · exact reapProcess_pid s.sched p i hq

/-- A step is an allocation or an exit. -/
theorem tableStep_cases {act : TableAct} (h : tableStep s act = some s') :
    (∃ p pages, act = .allocate p pages ∧ ¬ Live s.sched p ∧ Allocated s s' p) ∨
      ∃ i p, act = .exit i ∧ s.sched.processes i = some p ∧ Exited s s' p := by
  cases act with
  | allocate p pages =>
    rw [tableStep] at h
    split_ifs at h with hp
    split at h
    · rename_i t rest halloc
      cases h
      exact Or.inl ⟨p, pages, rfl, hp, allocated_of_procAllocate htable hhint hp halloc⟩
    · cases h
  | exit i =>
    obtain ⟨p, hslot, rfl⟩ := Option.map_eq_some_iff.mp h
    exact Or.inr ⟨i, p, rfl, hslot, exited_of_slot htable hhint hslot⟩

end

/-! ### The invariant -/

/-- The live processes are numbered by the allocations that made them: `count` of them since the
counter stood at `start`. -/
structure Numbered (start : UInt64) (count : Nat) (s : ProcState) (number : ProcPtr → Nat) :
    Prop where
  lt : ∀ p, Live s.sched p → number p < count
  pid : ∀ p, Live s.sched p → (s.sched.procs p).pid = start + UInt64.ofNat (number p)
  distinct : ∀ p q, Live s.sched p → Live s.sched q → number p = number q → p = q
  next : s.nextPid = start + UInt64.ofNat count

/-- What every run keeps. -/
structure Inv (start : UInt64) (count : Nat) (s : ProcState) : Prop where
  table : Table s.sched
  hint : s.sched.processMinIndex ≤ s.sched.processCount
  numbered : ∃ number, Numbered start count s number

theorem EmptyTable.not_live (h : EmptyTable s.sched) (p : ProcPtr) : ¬ Live s.sched p := by
  rintro ⟨i, -, hp⟩
  rw [h.processes i] at hp
  cases hp

theorem EmptyTable.inv (h : EmptyTable s.sched) : Inv s.nextPid 0 s where
  table :=
    { compact := fun i => by rw [h.processes i, h.processCount]; simp
      index := fun i p hp => by rw [h.processes i] at hp; cases hp
      le := by rw [h.processCount]; exact Nat.zero_le _ }
  hint := by rw [h.processMinIndex, h.processCount]
  numbered := ⟨fun _ => 0,
    { lt := fun p hp => absurd hp (h.not_live p)
      pid := fun p hp => absurd hp (h.not_live p)
      distinct := fun p _ hp => absurd hp (h.not_live p)
      next := by simp }⟩

variable {start : UInt64} {count : Nat}

/-- A new process gets the next number. -/
theorem Allocated.inv (h : Allocated s s' p) (hinv : Inv start count s) (hp : ¬ Live s.sched p) :
    Inv start (count + 1) s' := by
  obtain ⟨number, hnum⟩ := hinv.numbered
  have hold : ∀ q, Live s.sched q → Function.update number p count q = number q := fun q hq =>
    Function.update_of_ne (by rintro rfl; exact hp hq) _ _
  refine ⟨h.table, h.hint.le, Function.update number p count, ?_, ?_, ?_, ?_⟩
  · intro q hq
    rcases (h.live q).mp hq with rfl | hq
    · rw [Function.update_self]
      exact Nat.lt_succ_self count
    · rw [hold q hq]
      exact Nat.lt_succ_of_lt (hnum.lt q hq)
  · intro q hq
    rcases (h.live q).mp hq with rfl | hq
    · rw [Function.update_self, h.new, ← hnum.next]
      rfl
    · rw [hold q hq, h.old q fun heq => hp (heq ▸ hq)]
      exact hnum.pid q hq
  · intro q r hq hr heq
    -- the number of the new process is larger than those of the old ones
    rcases (h.live q).mp hq with rfl | hq <;> rcases (h.live r).mp hr with rfl | hr
    · rfl
    · rw [Function.update_self, hold r hr] at heq
      exact absurd heq (hnum.lt r hr).ne'
    · rw [Function.update_self, hold q hq] at heq
      exact absurd heq (hnum.lt q hq).ne
    · rw [hold q hq, hold r hr] at heq
      exact hnum.distinct q r hq hr heq
  · rw [h.nextPid, hnum.next, UInt64.ofNat_add, UInt64.add_assoc]
    rfl

theorem Exited.inv (h : Exited s s' p) (hinv : Inv start count s) : Inv start count s' := by
  obtain ⟨number, hnum⟩ := hinv.numbered
  refine ⟨h.table, h.hint, number, ?_, ?_, ?_, h.nextPid.trans hnum.next⟩
  · intro q hq
    exact hnum.lt q ((h.live q).mp hq).1
  · intro q hq
    obtain ⟨hlive, hne⟩ := (h.live q).mp hq
    rw [h.pid q hne]
    exact hnum.pid q hlive
  · intro q r hq hr
    exact hnum.distinct q r ((h.live q).mp hq).1 ((h.live r).mp hr).1

/-- The invariant goes along a run, which counts its allocations. -/
theorem Inv.run (hinv : Inv start count s) {acts : List TableAct}
    (hrun : runSteps tableStep s acts = some s') : Inv start (count + allocations acts) s' := by
  induction acts generalizing s count with
  | nil =>
    cases hrun
    exact hinv
  | cons act acts ih =>
    obtain ⟨t, hstep, hrest⟩ := runSteps_cons_some hrun
    rcases tableStep_cases hinv.table hinv.hint hstep with
      ⟨p, pages, rfl, hp, halloc⟩ | ⟨i, p, rfl, -, hexit⟩
    · have hgoal := ih (halloc.inv hinv hp) hrest
      rw [Nat.add_assoc, Nat.add_comm 1] at hgoal
      exact hgoal
    · exact ih (hexit.inv hinv) hrest

/-! ### The results for a state -/

theorem Inv.tableOk (h : Inv start count s) : TableOk s.sched :=
  ⟨fun k _ => h.table.compact k, h.table.index, h.hint⟩

/-- The process count is the number of live processes. -/
theorem liveCount_eq {s : SchedState} (h : Table s) : liveCount s = s.processCount := by
  have hfilter : (List.range MAX_PROCESSES).filter (fun k => (s.processes k).isSome) =
      List.range s.processCount := by
    have hsome : ∀ k, (s.processes k).isSome = decide (k < s.processCount) := fun k =>
      Bool.eq_iff_iff.mpr ((h.compact k).trans decide_eq_true_iff.symm)
    simp only [hsome]
    rw [← Nat.sub_add_cancel h.le, Nat.add_comm, List.range_add, List.filter_append,
      List.filter_eq_self.mpr fun k hk => decide_eq_true (List.mem_range.mp hk),
      List.filter_eq_nil_iff.mpr, List.append_nil]
    intro k hk
    obtain ⟨i, -, rfl⟩ := List.mem_map.mp hk
    simp
  rw [liveCount, hfilter, List.length_range]

theorem Inv.nextAllocates (h : Inv start count s) (hlive : liveCount s.sched ≤ 62) :
    NextAllocates s := by
  intro p pages t rest hp hnew
  rw [liveCount_eq h.table] at hlive
  have hroom : s.sched.processCount + 1 < MAX_PROCESSES :=
    Nat.lt_of_le_of_lt (Nat.succ_le_succ hlive) (by decide)
  obtain ⟨s', halloc⟩ := procAllocate_succeeds h.table h.hint hroom hnew p
  obtain ⟨-, happ, -⟩ := procAllocate_ok h.table h.hint halloc
  exact ⟨s', halloc, happ.processes, happ.processCount⟩

theorem Inv.exitKeeps (h : Inv start count s) : ExitKeeps s := by
  intro i p s' hslot hstep
  rcases tableStep_cases h.table h.hint hstep with ⟨_, _, hact, -⟩ | ⟨j, q, hact, hslot', hexit⟩
  · cases hact
  · cases hact
    rw [hslot] at hslot'
    cases hslot'
    refine ⟨hexit.live, fun k l x hk hl => ?_⟩
    rw [← hexit.table.index k x hk, hexit.table.index l x hl]

theorem Inv.pidsDistinct (h : Inv start count s) (hcount : count ≤ 2 ^ 64) :
    PidsDistinct s.sched := by
  intro p q hp hq heq
  obtain ⟨number, hnum⟩ := h.numbered
  rw [hnum.pid p hp, hnum.pid q hq, UInt64.add_right_inj] at heq
  refine hnum.distinct p q hp hq ?_
  have hsmall : ∀ r, Live s.sched r → (UInt64.ofNat (number r)).toNat = number r := fun r hr =>
    UInt64.toNat_ofNat_of_lt' (Nat.lt_of_lt_of_le (hnum.lt r hr) hcount)
  rw [← hsmall p hp, heq, hsmall q hq]

/-- The process table stays compact. After every run of allocations and exits from an empty
table, the slots in use are those below `process_count`, each process knows its slot, and the
search hint is not behind the count. An exit drops and duplicates no other process. With 62 live
processes at most, and memory for a page table, the next allocation succeeds and takes the slot
`process_count`. The pids of live processes are distinct for the first `2 ^ 64` allocations. -/
theorem processTable_compact {s₀ s : ProcState} {acts : List TableAct}
    (hboot : EmptyTable s₀.sched) (hrun : runSteps tableStep s₀ acts = some s) :
    TableOk s.sched ∧ ExitKeeps s ∧ (liveCount s.sched ≤ 62 → NextAllocates s) ∧
      (allocations acts ≤ 2 ^ 64 → PidsDistinct s.sched) := by
  have hinv := hboot.inv.run hrun
  rw [Nat.zero_add] at hinv
  exact ⟨hinv.tableOk, hinv.exitKeeps, hinv.nextAllocates, hinv.pidsDistinct⟩

theorem emptyMachine_emptyTable : EmptyTable emptyMachine.sched :=
  ⟨fun _ => rfl, rfl, rfl⟩

/-- Three processes are allocated, and the first of them exits. -/
theorem processTable_compact_three :
    ∃ s, runSteps tableStep emptyMachine
        [.allocate 1 fortyPages, .allocate 2 fortyPages, .allocate 3 fortyPages, .exit 0] = some s ∧
      TableOk s.sched ∧ PidsDistinct s.sched := by
  have hsome : (runSteps tableStep emptyMachine
      [.allocate 1 fortyPages, .allocate 2 fortyPages, .allocate 3 fortyPages,
        .exit 0]).isSome := by
    decide +kernel
  obtain ⟨s, hrun⟩ := Option.isSome_iff_exists.mp hsome
  obtain ⟨htable, -, -, hpids⟩ := processTable_compact emptyMachine_emptyTable hrun
  exact ⟨s, hrun, htable, hpids (by decide)⟩

/-! ### The pids after `2 ^ 64` allocations -/

/-- `n` processes come and go at the address 2, and a last one stays. -/
def recycle : Nat → List TableAct
  | 0 => [.allocate 2 fortyPages]
  | n + 1 => .allocate 2 fortyPages :: .exit 1 :: recycle n

/-- The state between the turns of `recycle`: the only process is the one at the address 1. -/
structure OneProcess (s : ProcState) : Prop where
  table : Table s.sched
  hint : s.sched.processMinIndex ≤ s.sched.processCount
  count : s.sched.processCount = 1
  live : ∀ x, Live s.sched x ↔ x = 1
  kernel : s.kernel = emptyMachine.kernel

/-- There is memory for a process. -/
theorem emptyMachine_memory : ∃ t rest,
    vmmUserPagetableNew emptyMachine.kernel.kernelPagetable fortyPages = .ok (some t, rest) := by
  have hsome : (vmmUserPagetableNew emptyMachine.kernel.kernelPagetable fortyPages).toOption.any
      (fun r => r.1.isSome) = true := by
    decide +kernel
  cases hnew : vmmUserPagetableNew emptyMachine.kernel.kernelPagetable fortyPages with
  | error e =>
    rw [hnew] at hsome
    cases hsome
  | ok r =>
    rw [hnew] at hsome
    obtain ⟨t, ht⟩ := Option.isSome_iff_exists.mp hsome
    exact ⟨t, r.2, by rw [← ht]⟩

/-- A second process is allocated at the address 2. -/
theorem OneProcess.allocate (h : OneProcess s) :
    ∃ t, tableStep s (.allocate 2 fortyPages) = some t ∧ Allocated s t 2 ∧
      t.sched.processCount = 2 ∧ (t.sched.procs 1).pid = (s.sched.procs 1).pid := by
  have hp : ¬ Live s.sched 2 := by
    rw [h.live]
    decide
  have hroom : s.sched.processCount + 1 < MAX_PROCESSES := by
    rw [h.count]
    decide
  obtain ⟨tree, rest, hnew⟩ := emptyMachine_memory
  rw [← h.kernel] at hnew
  obtain ⟨t, halloc⟩ := procAllocate_succeeds h.table h.hint hroom hnew 2
  have hdone := allocated_of_procAllocate h.table h.hint hp halloc
  refine ⟨t, ?_, hdone, by rw [hdone.count, h.count], by rw [hdone.old 1 (by decide)]⟩
  rw [tableStep, if_neg hp, halloc]

/-- It exits again. -/
theorem OneProcess.exit {t : ProcState} (h : OneProcess s) (halloc : Allocated s t 2) :
    ∃ u, tableStep t (.exit 1) = some u ∧ OneProcess u ∧
      (u.sched.procs 1).pid = (t.sched.procs 1).pid ∧ u.nextPid = t.nextPid := by
  have hslot : t.sched.processes 1 = some 2 := by
    rw [← h.count]
    exact halloc.slot
  have hexit := exited_of_slot halloc.table halloc.hint.le hslot
  refine ⟨_, by rw [tableStep, hslot]; rfl, ⟨hexit.table, hexit.hint, ?_, fun x => ?_, ?_⟩,
    hexit.pid 1 (by decide), rfl⟩
  · rw [hexit.count, halloc.count, h.count]
  · rw [hexit.live, halloc.live, h.live]
    constructor
    · rintro ⟨rfl | rfl, hne⟩
      · exact absurd rfl hne
      · rfl
    · rintro rfl
      exact ⟨Or.inr rfl, by decide⟩
  · exact hexit.kernel.trans (halloc.kernel.trans h.kernel)

/-- A run of `recycle`: two processes at most are live, and in the end both addresses are. -/
theorem OneProcess.run (n : Nat) (h : OneProcess s) :
    ∃ s', runSteps tableStep s (recycle n) = some s' ∧
      Throughout tableStep s (recycle n) (fun t => liveCount t.sched ≤ 62) ∧
      Live s'.sched 1 ∧ Live s'.sched 2 ∧
      (s'.sched.procs 1).pid = (s.sched.procs 1).pid ∧
      (s'.sched.procs 2).pid = s.nextPid + UInt64.ofNat n := by
  induction n generalizing s with
  | zero =>
    obtain ⟨t, hstep, halloc, hcount, hpid⟩ := h.allocate
    refine ⟨t, ?_, ?_, (halloc.live 1).mpr (Or.inr ((h.live 1).mpr rfl)),
      (halloc.live 2).mpr (Or.inl rfl), hpid, ?_⟩
    · rw [recycle, runSteps_cons hstep]
      rfl
    · rw [recycle, throughout_cons hstep, throughout_nil, liveCount_eq h.table, h.count,
        liveCount_eq halloc.table, hcount]
      decide
    · rw [halloc.new]
      simp [newProcess]
  | succ n ih =>
    obtain ⟨t, hstep, halloc, hcount, hpid⟩ := h.allocate
    obtain ⟨u, hstep', hone, hpid', hnext⟩ := h.exit halloc
    obtain ⟨s', hrun, hall, hlive1, hlive2, hpid1, hpid2⟩ := ih hone
    refine ⟨s', ?_, ?_, hlive1, hlive2, ?_, ?_⟩
    · rw [recycle, runSteps_cons hstep, runSteps_cons hstep', hrun]
    · rw [recycle, throughout_cons hstep, throughout_cons hstep', liveCount_eq h.table, h.count,
        liveCount_eq halloc.table, hcount]
      exact ⟨by decide, by decide, hall⟩
    · rw [hpid1, hpid', hpid]
    · rw [hpid2, hnext, halloc.nextPid, UInt64.add_assoc, UInt64.ofNat_add, UInt64.add_comm 1]
      rfl

/-- A process stays while `2 ^ 64 - 1` others come and go. The next one gets its pid. And without
memory for a page table, an allocation panics. -/
theorem pids_wrap :
    (∃ acts s, runSteps tableStep emptyMachine acts = some s ∧
      Throughout tableStep emptyMachine acts (fun t => liveCount t.sched ≤ 62) ∧
      ¬ PidsDistinct s.sched) ∧
    procAllocate emptyMachine 1 [] = .error "out of memory" := by
  refine ⟨?_, by rfl⟩
  have hboot := emptyMachine_emptyTable.inv
  obtain ⟨tree, rest, hnew⟩ := emptyMachine_memory
  obtain ⟨t, hfirst⟩ := procAllocate_succeeds hboot.table hboot.hint (by decide) hnew 1
  have hnone := emptyMachine_emptyTable.not_live 1
  have halloc := allocated_of_procAllocate hboot.table hboot.hint hnone hfirst
  have hstep : tableStep emptyMachine (.allocate 1 fortyPages) = some t := by
    rw [tableStep, if_neg hnone, hfirst]
  have hone : OneProcess t := by
    refine ⟨halloc.table, halloc.hint.le, halloc.count, fun x => ?_, halloc.kernel⟩
    rw [halloc.live]
    exact or_iff_left (emptyMachine_emptyTable.not_live x)
  obtain ⟨s, hrun, hall, hlive1, hlive2, hpid1, hpid2⟩ := hone.run (2 ^ 64 - 1)
  refine ⟨.allocate 1 fortyPages :: recycle (2 ^ 64 - 1), s, ?_, ?_, fun hdistinct => ?_⟩
  · rw [runSteps_cons hstep, hrun]
  · rw [throughout_cons hstep, liveCount_eq hboot.table]
    exact ⟨by decide, hall⟩
  · have heq : (s.sched.procs 1).pid = (s.sched.procs 2).pid := by
      rw [hpid1, halloc.new, hpid2, halloc.nextPid]
      rfl
    exact absurd (hdistinct 1 2 hlive1 hlive2 heq) (by decide)

end DzOS.Proofs.Sched.ProcessTable
