import DzOS.Proofs.Mem.KernelHalf
import DzOS.Proofs.Sched.StackSlots

/-!
# `DzOS.Proofs.Sched.KernelHalf`: the kernel half of all address spaces, over runs

A process gets its copy of the kernel table before its own kernel stack is mapped, and only the
kernel table gets this mapping. No later step changes a copy. So the table of a live process
never translates its own kernel stack (`Inv.missing`), and the kernel table does
(`Inv.translates`).

`agrees_iff` says that in a state of a run from boot the address spaces agree exactly when
there is no process, and `kernelHalf_agrees_iff` that they agree all through a run exactly when it
creates none.
-/

set_option autoImplicit false

namespace DzOS.Proofs.Sched.KernelHalf

open DzOS.Lib DzOS.Mem DzOS.Sched DzOS.Proofs.Mem DzOS.Proofs.Sched.StackSlots

variable {i k : Nat} {a : SpaceAct} {s s' : ProcState} {p : ProcPtr}

/-- The table of every live process translates the kernel half as the kernel table does. -/
def Agrees (s : ProcState) : Prop :=
  ∀ p, Live s.sched p → ∀ va, KERNEL_VA_MIN ≤ va →
    DzOS.Mem.translate (s.pagetable p) va = DzOS.Mem.translate s.kernel.kernelPagetable va

/-! ### The pages of a kernel stack -/

/-- The first index of a stack page. -/
theorem vaPath_stackPage (hi : i < 64) (hk : k < STACK_PAGES) :
    vaPath (stackPageVa i k) 3 = 288 := by
  have hk4 : k < 4 := hk
  have hspan : 4096 * 512 ^ 3 = 0x8000000000 := by decide
  have hquot : (0xFFFF900000000000 + i * 0x5000 + (k + 1) * 0x1000) / 0x8000000000 = 33554208 := by
    omega
  rw [vaPath_eq _ (Nat.le_refl 3), toNat_stackPageVa hi hk, Nat.div_div_eq_div_mul, hspan, hquot]

/-- A stack page has a canonical address. -/
theorem canonical_stackPage (hi : i < 64) (hk : k < STACK_PAGES) :
    canonical (stackPageVa i k) = true := by
  have hmin : (0xFFFF800000000000 : UInt64).toNat = 0xFFFF800000000000 := by decide
  have hle : (0xFFFF800000000000 : UInt64) ≤ stackPageVa i k := by
    rw [UInt64.le_iff_toNat_le, hmin, toNat_stackPageVa hi hk]
    omega
  simp [canonical, hle]

/-- A stack page lies in the kernel half. -/
theorem kernelHalf_stackPage (hi : i < 64) (hk : k < STACK_PAGES) :
    KERNEL_VA_MIN ≤ stackPageVa i k := by
  have hmin : KERNEL_VA_MIN.toNat = 2 ^ 47 := by decide
  rw [UInt64.le_iff_toNat_le, hmin, toNat_stackPageVa hi hk]
  omega

/-! ### The invariant -/

/-- What holds in every reachable state:

- `slots`: the process table and the stack slots are in order;
- `plain`: there is no huge page on the way to a kernel stack;
- `missing`: the table of a live process does not translate its own kernel stack. -/
structure Inv (s : ProcState) : Prop where
  slots : StackSlots.Inv s
  plain : ∀ i < MAX_PROCESSES, ∀ k < STACK_PAGES,
    PlainPath s.kernel.kernelPagetable (stackPageVa i k)
  missing : ∀ p, Live s.sched p → ∀ k < STACK_PAGES,
    DzOS.Mem.translate (s.pagetable p) (stackPageVa (s.origI p) k) = none

/-- The kernel table translates the stack of a live process. -/
theorem Inv.translates (h : Inv s) (hp : Live s.sched p) (hk : k < STACK_PAGES) :
    (DzOS.Mem.translate s.kernel.kernelPagetable (stackPageVa (s.origI p) k)).isSome := by
  have hslot : s.origI p < MAX_PROCESSES := Nat.lt_of_succ_lt (h.slots.slot p hp)
  rw [translate_isSome_iff (canonical_stackPage hslot hk) (h.plain _ hslot k hk)]
  exact h.slots.stack p hp k hk

/-- The address spaces agree exactly when there is no process. -/
theorem Inv.agrees_iff (h : Inv s) : Agrees s ↔ ∀ p, ¬ Live s.sched p := by
  constructor
  · intro hagrees p hp
    have hslot : s.origI p < MAX_PROCESSES := Nat.lt_of_succ_lt (h.slots.slot p hp)
    have hsome := h.translates hp (k := 0) (by decide)
    rw [← hagrees p hp _ (kernelHalf_stackPage hslot (by decide)),
      h.missing p hp 0 (by decide)] at hsome
    cases hsome
  · intro hnone p hp
    exact absurd hp (hnone p)

/-- A new process does not translate its own kernel stack. -/
theorem missing_created {pages : List UInt64} (hinv : Inv s) (h : Created s s' p pages)
    (hk : k < STACK_PAGES) :
    DzOS.Mem.translate (s'.pagetable p) (stackPageVa (s'.origI p) k) = none := by
  have hslot : s.sched.processCount < MAX_PROCESSES := Nat.lt_of_succ_lt h.room
  obtain ⟨t, rest, hnew, hpagetable⟩ := h.pagetable
  obtain ⟨top, rest₁, rest₂, hstack⟩ := h.stack
  rw [h.origI, Function.update_self, hpagetable, Function.update_self]
  -- The copy translates as the kernel table did, before the stack was mapped.
  have habsent := (vmmAllocateProcKernelStack_ok hslot hstack).1 k hk
  have hcanonical := canonical_stackPage hslot hk
  have hcopy : DzOS.Mem.translate t (stackPageVa s.sched.processCount k) =
      DzOS.Mem.translate s.kernel.kernelPagetable (stackPageVa s.sched.processCount k) := by
    unfold DzOS.Mem.translate
    rw [if_pos hcanonical, if_pos hcanonical]
    refine translateFrom_vmmUserPagetableNew hnew ?_ true true true
    rw [vaPath_stackPage hslot hk]
    decide
  rw [hcopy, ← Option.not_isSome_iff_eq_none,
    translate_isSome_iff hcanonical (hinv.plain _ hslot k hk)]
  exact habsent

/-- A step in the life of a process keeps the invariant. -/
theorem procStep_inv {a : ProcAct} (hinv : Inv s) (h : procStep s a = some s') : Inv s' := by
  have hslots := StackSlots.procStep_inv hinv.slots h
  rcases procStep_cases hinv.slots h with ⟨p, pages, -, hp, hcreated⟩ | ⟨p, -, hp, hreaped⟩
  · obtain ⟨top, rest, rest', hstack⟩ := hcreated.stack
    refine ⟨hslots, fun i hi k hk => ?_, fun q hq k hk => ?_⟩
    · exact (vmmAllocateProcKernelStack_edits hstack).plainPath (hinv.plain i hi k hk)
    · rcases (hcreated.live q).mp hq with rfl | hq
      · exact missing_created hinv hcreated hk
      · -- The other processes keep their tables.
        have hne : q ≠ p := fun hqp => hp (hqp ▸ hq)
        obtain ⟨t, rest, -, hpagetable⟩ := hcreated.pagetable
        rw [hpagetable, hcreated.origI, Function.update_of_ne hne, Function.update_of_ne hne]
        exact hinv.missing q hq k hk
  · refine ⟨hslots, fun i hi k hk => ?_, fun q hq k hk => ?_⟩
    · exact (vmmFreeProcKernelStack_edits hreaped.stack).plainPath (hinv.plain i hi k hk)
    · rw [hreaped.pagetable, hreaped.origI]
      exact hinv.missing q ((hreaped.live q).mp hq).1 k hk

/-- A step that only adds pages to the kernel table keeps the invariant. -/
theorem inv_of_edits {kernel : KernelSpace} (hinv : Inv s)
    (hedits : Edits s.kernel.kernelPagetable kernel.kernelPagetable)
    (hpresent : ∀ q, Present s.kernel.kernelPagetable q → Present kernel.kernelPagetable q) :
    Inv { s with kernel := kernel } where
  slots := {
    table := hinv.slots.table
    minIndex := hinv.slots.minIndex
    slot := hinv.slots.slot
    stack := fun p hp k hk => hpresent _ (hinv.slots.stack p hp k hk)
    distinct := hinv.slots.distinct }
  plain := fun i hi k hk => hedits.plainPath (hinv.plain i hi k hk)
  missing := hinv.missing

/-- Every step keeps the invariant. -/
theorem spaceStep_inv (hinv : Inv s) (h : spaceStep s a = some s') : Inv s' := by
  cases a with
  | proc a => exact procStep_inv hinv h
  | ioMemmap pa size pages =>
    simp only [spaceStep, vmmIoMemmap] at h
    split_ifs at h
    split at h
    · rename_i kernel hio
      cases h
      split at hio
      · cases hio
      · rename_i ok t hloop
        cases hio
        exact inv_of_edits hinv (ioMemmapFrom_edits hloop) fun q hq =>
          ioMemmapFrom_present hloop hq
    · cases h
  | mapKernelPages va pa size perm pages =>
    simp only [spaceStep] at h
    split at h
    · rename_i r t rest hmap
      cases h
      refine inv_of_edits hinv (vmmMapKernelPages_edits hmap) fun q hq => ?_
      unfold vmmMapKernelPages at hmap
      split at hmap
      · cases hmap
      · exact mapKernelPagesFrom_present hmap hq
    · cases h

/-! ### Runs -/

/-- An empty process table. The area of the kernel stacks is unmapped, without huge pages. -/
structure Boot (s : ProcState) : Prop extends StackSlots.Boot s where
  plain : ∀ i < MAX_PROCESSES, ∀ k < STACK_PAGES,
    PlainPath s.kernel.kernelPagetable (stackPageVa i k)

/-- The invariant holds at boot. -/
theorem Boot.inv (h : Boot s) : Inv s where
  slots := StackSlots.Boot.inv h.toBoot
  plain := h.plain
  missing := fun p hp => absurd hp (h.toBoot.not_live p)

/-- The address spaces agree in every state of the run. A run ends at a step that does not
succeed. -/
def AgreesRun : ProcState → List SpaceAct → Prop
  | s, [] => Agrees s
  | s, a :: acts => Agrees s ∧ ∀ s', spaceStep s a = some s' → AgreesRun s' acts

/-- No call of `proc_exec` in the run succeeds. -/
def CreatesNone : ProcState → List SpaceAct → Prop
  | _, [] => True
  | s, a :: acts => (∀ p pages, a = .proc (.exec p pages) → spaceStep s a = none) ∧
    ∀ s', spaceStep s a = some s' → CreatesNone s' acts

/-- A step other than a creation makes no process live. -/
theorem spaceStep_live (hinv : Inv s) (h : spaceStep s a = some s')
    (ha : ∀ p pages, a ≠ .proc (.exec p pages)) (hp : Live s'.sched p) : Live s.sched p := by
  cases a with
  | proc a =>
    rcases procStep_cases hinv.slots h with ⟨p', pages, rfl, -⟩ | ⟨p', rfl, -, hreaped⟩
    · exact absurd rfl (ha p' pages)
    · exact ((hreaped.live p).mp hp).1
  | ioMemmap pa size pages =>
    simp only [spaceStep] at h
    split at h
    · cases h
      exact hp
    · cases h
  | mapKernelPages va pa size perm pages =>
    simp only [spaceStep] at h
    split at h
    · cases h
      exact hp
    · cases h

/-- From a state without processes, the address spaces agree all through the run exactly when
it creates none. -/
theorem agreesRun_iff (hinv : Inv s) (hnone : ∀ p, ¬ Live s.sched p) (acts : List SpaceAct) :
    AgreesRun s acts ↔ CreatesNone s acts := by
  induction acts generalizing s with
  | nil => exact iff_of_true (hinv.agrees_iff.mpr hnone) trivial
  | cons a acts ih =>
    -- after a step that is no creation there are still no processes
    have hrest : (∀ p pages, a = .proc (.exec p pages) → spaceStep s a = none) →
        ∀ {s'}, spaceStep s a = some s' → (AgreesRun s' acts ↔ CreatesNone s' acts) := by
      intro hfirst s' hstep
      have hother : ∀ p pages, a ≠ .proc (.exec p pages) := by
        intro p pages ha
        rw [hfirst p pages ha] at hstep
        cases hstep
      exact ih (spaceStep_inv hinv hstep) fun p hp => hnone p (spaceStep_live hinv hstep hother hp)
    constructor
    · rintro ⟨-, hrun⟩
      have hfirst : ∀ p pages, a = .proc (.exec p pages) → spaceStep s a = none := by
        intro p pages ha
        cases hstep : spaceStep s a with
        | none => rfl
        | some s' =>
          exfalso
          -- The new process disagrees with the kernel at once.
          have hagrees : Agrees s' := by
            have htail := hrun s' hstep
            cases acts with
            | nil => exact htail
            | cons _ _ => exact htail.1
          have hnone' := (spaceStep_inv hinv hstep).agrees_iff.mp hagrees
          subst ha
          have hproc : procStep s (.exec p pages) = some s' := hstep
          rcases procStep_cases hinv.slots hproc with ⟨p', pages', -, -, hcreated⟩ | ⟨p', heq, -⟩
          · exact hnone' p' ((hcreated.live p').mpr (Or.inl rfl))
          · cases heq
      exact ⟨hfirst, fun s' hstep => (hrest hfirst hstep).mp (hrun s' hstep)⟩
    · rintro ⟨hfirst, hrun⟩
      exact ⟨hinv.agrees_iff.mpr hnone, fun s' hstep => (hrest hfirst hstep).mpr (hrun s' hstep)⟩

/-- When all address spaces agree on the kernel half in a run from boot: exactly when the run
creates no process. -/
theorem kernelHalf_agrees_iff (hboot : Boot s) (acts : List SpaceAct) :
    AgreesRun s acts ↔ CreatesNone s acts :=
  agreesRun_iff hboot.inv hboot.toBoot.not_live acts

/-! ### One process -/

/-- The empty machine has no huge pages. -/
theorem emptyMachine_boot : Boot emptyMachine where
  toBoot := StackSlots.emptyMachine_boot
  plain := fun i _ k _ => plainFrom_empty 3 (vaPath (stackPageVa i k))

/-- One process is created. -/
def oneProcess : List SpaceAct := [.proc (.exec 1 fortyPages)]

/-- The law for this run. -/
theorem kernelHalf_agrees_iff_oneProcess :
    AgreesRun emptyMachine oneProcess ↔ CreatesNone emptyMachine oneProcess :=
  kernelHalf_agrees_iff emptyMachine_boot oneProcess

/-- The first process cannot reach its kernel stack through its own table. -/
theorem kernelHalf_disagrees : Boot emptyMachine ∧ ¬ AgreesRun emptyMachine oneProcess := by
  refine ⟨emptyMachine_boot, fun hrun => ?_⟩
  have hnone := (agreesRun_iff emptyMachine_boot.inv
    emptyMachine_boot.toBoot.not_live oneProcess).mp hrun
  have hfails := hnone.1 1 fortyPages rfl
  have hsucceeds : (spaceStep emptyMachine (.proc (.exec 1 fortyPages))).isSome = true := by
    decide +kernel
  rw [hfails] at hsucceeds
  cases hsucceeds

end DzOS.Proofs.Sched.KernelHalf
