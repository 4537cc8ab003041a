import Mathlib.Data.List.Basic

/-!
# `DzOS.Lib.Run`: runs of a partial step function

A step takes a state and a call, and has no result when it panics. `runSteps` makes the calls of
a list one after the other. A property may hold in every state of a run (`Throughout`), and every
call of a run may meet a condition in the state where it is made (`EachCall`).

`throughout_iff` is for a property that the calls break when they do not meet the condition: the
property holds throughout a run exactly if each of its calls meets it. An invariant of the calls
that do carries the proof.
-/

set_option autoImplicit false

namespace DzOS.Lib

variable {S C : Type}

/-- The state after a list of calls, or `none` when one of them panics. -/
def runSteps (step : S → C → Option S) : S → List C → Option S
  | s, [] => some s
  | s, c :: calls =>
    match step s c with
    | none => none
    | some s => runSteps step s calls

/-- The property holds in every state of the run. -/
def Throughout (step : S → C → Option S) (s : S) (calls : List C) (P : S → Prop) : Prop :=
  ∀ front t, front <+: calls → runSteps step s front = some t → P t

/-- Each call of the run meets the condition. -/
def EachCall (step : S → C → Option S) (s : S) (calls : List C) (ok : S → C → Prop) : Prop :=
  ∀ front c t, front ++ [c] <+: calls → runSteps step s front = some t → ok t c

variable {step : S → C → Option S} {s s' : S} {c : C} {calls : List C} {P : S → Prop}
  {ok : S → C → Prop}

theorem runSteps_cons (h : step s c = some s') (calls : List C) :
    runSteps step s (c :: calls) = runSteps step s' calls := by
  rw [runSteps, h]

/-- The first call of a run. -/
theorem runSteps_cons_some (h : runSteps step s (c :: calls) = some s') :
    ∃ t, step s c = some t ∧ runSteps step t calls = some s' := by
  rw [runSteps] at h
  split at h
  · cases h
  · rename_i t hcall
    exact ⟨t, hcall, h⟩

/-- The state after a run that does not panic. -/
theorem runSteps_getD (h : (runSteps step s calls).isSome) :
    runSteps step s calls = some ((runSteps step s calls).getD s) := by
  obtain ⟨s', hs'⟩ := Option.isSome_iff_exists.mp h
  rw [hs']
  rfl

/-- A run without calls. -/
theorem throughout_nil : Throughout step s [] P ↔ P s := by
  constructor
  · intro h
    exact h [] s List.nil_prefix rfl
  · intro h front t hfront ht
    rw [List.prefix_nil.mp hfront] at ht
    cases ht
    exact h

theorem eachCall_nil : EachCall step s [] ok := by
  intro front c t hfront
  have hnil := List.prefix_nil.mp hfront
  simp at hnil

/-- The property holds throughout a run if it holds before its first call and throughout the
rest. -/
theorem throughout_cons (h : step s c = some s') :
    Throughout step s (c :: calls) P ↔ P s ∧ Throughout step s' calls P := by
  constructor
  · intro hall
    refine ⟨hall [] s List.nil_prefix rfl, fun front t hfront ht => ?_⟩
    refine hall (c :: front) t (List.cons_prefix_cons.mpr ⟨rfl, hfront⟩) ?_
    rw [runSteps_cons h]
    exact ht
  · rintro ⟨hs, hrest⟩ front t hfront ht
    cases front with
    | nil =>
      cases ht
      exact hs
    | cons c' front =>
      obtain ⟨rfl, hprefix⟩ := List.cons_prefix_cons.mp hfront
      rw [runSteps_cons h] at ht
      exact hrest front t hprefix ht

theorem eachCall_cons (h : step s c = some s') :
    EachCall step s (c :: calls) ok ↔ ok s c ∧ EachCall step s' calls ok := by
  constructor
  · intro hall
    refine ⟨hall [] c s (List.cons_prefix_cons.mpr ⟨rfl, List.nil_prefix⟩) rfl,
      fun front c' t hfront ht => ?_⟩
    refine hall (c :: front) c' t (List.cons_prefix_cons.mpr ⟨rfl, hfront⟩) ?_
    rw [runSteps_cons h]
    exact ht
  · rintro ⟨hs, hrest⟩ front c' t hfront ht
    cases front with
    | nil =>
      obtain ⟨rfl, -⟩ := List.cons_prefix_cons.mp hfront
      cases ht
      exact hs
    | cons d front =>
      obtain ⟨rfl, hprefix⟩ := List.cons_prefix_cons.mp hfront
      rw [runSteps_cons h] at ht
      exact hrest front c' t hprefix ht

/-- The condition for a call that panics. -/
theorem eachCall_panic (h : step s c = none) :
    EachCall step s (c :: calls) ok ↔ ok s c := by
  constructor
  · intro hall
    exact hall [] c s (List.cons_prefix_cons.mpr ⟨rfl, List.nil_prefix⟩) rfl
  · intro hs front c' t hfront ht
    cases front with
    | nil =>
      obtain ⟨rfl, -⟩ := List.cons_prefix_cons.mp hfront
      cases ht
      exact hs
    | cons d front =>
      obtain ⟨rfl, -⟩ := List.cons_prefix_cons.mp hfront
      rw [runSteps, h] at ht
      cases ht

/-- Whether each call meets the condition can be computed. -/
instance decidableEachCall (step : S → C → Option S) (ok : S → C → Prop)
    [∀ s c, Decidable (ok s c)] :
    (calls : List C) → (s : S) → Decidable (EachCall step s calls ok)
  | [], _ => isTrue eachCall_nil
  | c :: calls, s =>
    match h : step s c with
    | none => decidable_of_iff (ok s c) (eachCall_panic h).symm
    | some s' =>
      have := decidableEachCall step ok calls s'
      decidable_of_iff (ok s c ∧ EachCall step s' calls ok) (eachCall_cons h).symm

/-- A condition on the calls alone. -/
theorem eachCall_const {q : C → Prop} (hrun : runSteps step s calls = some s') :
    EachCall step s calls (fun _ c => q c) ↔ ∀ c ∈ calls, q c := by
  induction calls generalizing s with
  | nil => exact iff_of_true eachCall_nil fun c hc => absurd hc List.not_mem_nil
  | cons c calls ih =>
    obtain ⟨t, hcall, hrest⟩ := runSteps_cons_some hrun
    rw [eachCall_cons hcall, ih hrest, List.forall_mem_cons]

/-- No call panics, so no run does. -/
theorem runSteps_isSome (htotal : ∀ s c, (step s c).isSome) (s : S) (calls : List C) :
    (runSteps step s calls).isSome := by
  induction calls generalizing s with
  | nil => rfl
  | cons c calls ih =>
    obtain ⟨t, hcall⟩ := Option.isSome_iff_exists.mp (htotal s c)
    rw [runSteps_cons hcall]
    exact ih t

/-- The property of a stronger one. -/
theorem Throughout.mono {Q : S → Prop} (h : Throughout step s calls P) (hPQ : ∀ t, P t → Q t) :
    Throughout step s calls Q := fun front t hfront ht => hPQ t (h front t hfront ht)

/-- An invariant holds throughout a run if the valid calls keep it into the states with `F`, and
each state of the run has `F`. The run may panic. -/
theorem throughout_of_invariant {I F : S → Prop} {V : S → C → Prop}
    (hkeep : ∀ s c s', I s → V s c → step s c = some s' → F s' → I s') (h₀ : I s)
    (hvalid : EachCall step s calls V) (hF : Throughout step s calls F) :
    Throughout step s calls I := by
  induction calls generalizing s with
  | nil => exact throughout_nil.mpr h₀
  | cons c calls ih =>
    cases hcall : step s c with
    | none =>
      intro front t hfront ht
      cases front with
      | nil =>
        cases ht
        exact h₀
      | cons d front =>
        obtain ⟨rfl, -⟩ := List.cons_prefix_cons.mp hfront
        rw [runSteps, hcall] at ht
        cases ht
    | some s' =>
      obtain ⟨hc, hvalid⟩ := (eachCall_cons hcall).mp hvalid
      obtain ⟨-, hF⟩ := (throughout_cons hcall).mp hF
      have hs' := hkeep s c s' h₀ hc hcall (hF [] s' List.nil_prefix rfl)
      exact (throughout_cons hcall).mpr ⟨h₀, ih hs' hvalid hF⟩

/-- Two conditions agree on the calls of a run when they do in the states with the invariant, and
the calls that meet them keep it. The run may panic. -/
theorem eachCall_congr {I : S → Prop} {Q : S → C → Prop}
    (hkeep : ∀ s c s', I s → ok s c → step s c = some s' → I s')
    (hiff : ∀ s c, I s → (Q s c ↔ ok s c)) (h₀ : I s) :
    EachCall step s calls Q ↔ EachCall step s calls ok := by
  induction calls generalizing s with
  | nil => exact iff_of_true eachCall_nil eachCall_nil
  | cons c calls ih =>
    cases hcall : step s c with
    | none => rw [eachCall_panic hcall, eachCall_panic hcall, hiff s c h₀]
    | some t =>
      rw [eachCall_cons hcall, eachCall_cons hcall, hiff s c h₀]
      exact and_congr_right fun hok => ih (hkeep s c t h₀ hok hcall)

/-- A property of the states holds throughout a run, and one of the calls at each of its calls,
exactly if each call meets the condition. The calls that do keep the invariant, which implies the
property of the states, and have the property of the calls. The others break one of the two. All
calls are valid. -/
theorem throughout_and_eachCall_iff {I : S → Prop} {V Q : S → C → Prop}
    (hI : ∀ s, I s → P s)
    (hkeep : ∀ s c s', I s → V s c → step s c = some s' → ok s c → I s' ∧ Q s c)
    (hbreak : ∀ s c s', I s → V s c → step s c = some s' → ¬ ok s c → P s' → ¬ Q s c)
    (h₀ : I s) (hvalid : EachCall step s calls V) (hrun : runSteps step s calls = some s') :
    (Throughout step s calls P ∧ EachCall step s calls Q) ↔ EachCall step s calls ok := by
  induction calls generalizing s with
  | nil => exact iff_of_true ⟨throughout_nil.mpr (hI s h₀), eachCall_nil⟩ eachCall_nil
  | cons c calls ih =>
    obtain ⟨t, hcall, hrest⟩ := runSteps_cons_some hrun
    obtain ⟨hc, hvalid⟩ := (eachCall_cons hcall).mp hvalid
    rw [throughout_cons hcall, eachCall_cons hcall, eachCall_cons hcall]
    by_cases hok : ok s c
    · obtain ⟨ht, hQ⟩ := hkeep s c t h₀ hc hcall hok
      rw [← ih ht hvalid hrest]
      exact ⟨fun h => ⟨hok, h.1.2, h.2.2⟩, fun h => ⟨⟨hI s h₀, h.2.1⟩, hQ, h.2.2⟩⟩
    · refine iff_of_false ?_ fun h => hok h.1
      rintro ⟨⟨-, hall⟩, hQ, -⟩
      exact hbreak s c t h₀ hc hcall hok (hall [] t List.nil_prefix rfl) hQ

/-- The property holds throughout a run exactly if each call meets the condition. The calls that
do keep the invariant, which implies the property, and the others break the property. All calls
are valid. -/
theorem throughout_iff {I : S → Prop} {valid : S → C → Prop} (hI : ∀ s, I s → P s)
    (hkeep : ∀ s c s', I s → valid s c → step s c = some s' → ok s c → I s')
    (hbreak : ∀ s c s', I s → valid s c → step s c = some s' → ¬ ok s c → ¬ P s') (h₀ : I s)
    (hvalid : EachCall step s calls valid) (hrun : runSteps step s calls = some s') :
    Throughout step s calls P ↔ EachCall step s calls ok := by
  rw [← throughout_and_eachCall_iff (Q := fun _ _ => True) hI
    (fun s c s' h hv hstep hok => ⟨hkeep s c s' h hv hstep hok, trivial⟩)
    (fun s c s' h hv hstep hok hP _ => hbreak s c s' h hv hstep hok hP) h₀ hvalid hrun]
  exact (and_iff_left fun _ _ _ _ _ => trivial).symm

end DzOS.Lib
