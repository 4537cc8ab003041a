import DzOS.Lib.Run
import Mathlib.Data.Set.Insert

/-!
# `DzOS.Lib.Monitor`: sleeping until a condition holds

Threads check a condition and go to sleep when it does not hold. Whoever makes it true wakes them,
and whoever finds it true may make it false again. `MonitorStep` says which steps are fair to the
sleepers, and `Prompt` that nobody sleeps while the condition holds. Each step keeps it
(`MonitorStep.prompt`), so no wakeup is lost in a run of a system whose steps are such steps
(`prompt_throughout`).
-/

set_option autoImplicit false

namespace DzOS.Lib

variable {α : Type}

/-- The threads that sleep, and the condition. -/
structure Monitor (α : Type) where
  waiting : Set α
  ready : Prop

/-- A step between two states of the monitor. -/
inductive MonitorStep (m m' : Monitor α) : Prop
  /-- Threads may wake up at any time. -/
  | wake (fewer : m'.waiting ⊆ m.waiting) (same : m'.ready ↔ m.ready)
  /-- A thread goes to sleep while the condition does not hold. -/
  | park (p : α) (notReady : ¬ m'.ready) (fewer : m'.waiting ⊆ insert p m.waiting)
  /-- The condition may change when everyone is woken. -/
  | signal (everyone : m'.waiting = ∅)
  /-- The condition may change when it holds. -/
  | take (ready : m.ready) (fewer : m'.waiting ⊆ m.waiting)

/-- Nobody sleeps while the condition holds. -/
def Monitor.Prompt (m : Monitor α) : Prop := m.ready → m.waiting = ∅

variable {m m' : Monitor α}

/-- No step loses a wakeup. -/
theorem MonitorStep.prompt (h : MonitorStep m m') (hm : m.Prompt) : m'.Prompt := by
  intro hready
  cases h with
  | wake fewer same => exact Set.subset_empty_iff.mp (hm (same.mp hready) ▸ fewer)
  | park p notReady => exact absurd hready notReady
  | signal everyone => exact everyone
  | take ready fewer => exact Set.subset_empty_iff.mp (hm ready ▸ fewer)

section
variable {S C : Type} {step : S → C → Option S} {s : S} {calls : List C}

/-- A system whose steps are those of a monitor, in the states with the invariant. -/
theorem prompt_throughout (monitor : S → Monitor α) {I : S → Prop}
    (hkeep : ∀ s c s', I s → step s c = some s' → I s')
    (hstep : ∀ s c s', I s → step s c = some s' → (monitor s).Prompt →
      MonitorStep (monitor s) (monitor s'))
    (h₀ : I s) (hs : (monitor s).Prompt) :
    Throughout step s calls fun t => I t ∧ (monitor t).Prompt := by
  refine throughout_of_invariant (I := fun t => I t ∧ (monitor t).Prompt) (F := fun _ => True)
    (V := fun _ _ => True) (fun t c t' ht _ hc _ => ?_) ⟨h₀, hs⟩ (fun _ _ _ _ _ => trivial)
    fun _ _ _ _ => trivial
  exact ⟨hkeep t c t' ht.1 hc, (hstep t c t' ht.1 hc ht.2).prompt ht.2⟩

/-- The last call of a run. -/
theorem runSteps_concat {c : C} {s' : S} (h : runSteps step s (calls ++ [c]) = some s') :
    ∃ t, runSteps step s calls = some t ∧ step t c = some s' := by
  induction calls generalizing s with
  | nil =>
    obtain ⟨t, hcall, hrest⟩ := runSteps_cons_some h
    cases hrest
    exact ⟨s, rfl, hcall⟩
  | cons d calls ih =>
    obtain ⟨t, hcall, hrest⟩ := runSteps_cons_some h
    obtain ⟨u, hu, hlast⟩ := ih hrest
    exact ⟨u, (runSteps_cons hcall calls).trans hu, hlast⟩

end

end DzOS.Lib
