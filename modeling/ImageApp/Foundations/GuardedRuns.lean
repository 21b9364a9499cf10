import Mathlib.Logic.Basic
import Mathlib.Tactic.Common

/-!
# Runs of a step function and the guards along them

A system is given by a step function `step : State → Action → Option State`, where `none` says that
the action is not enabled. `run` plays a list of actions in order. `Guarded` says that every action
of such a run is taken in a state that meets a guard, so a guard is a condition on the state before
a step and never on what the step produces.

`invariant_of_run` is the induction over unrestricted runs, and `invariant_of_guarded` the one over
guarded runs: an invariant that every guarded step preserves holds at the end of every guarded run.
Every prefix of a guarded run is a guarded run, so the conclusion covers every state that the run
passes through. `guarded_append` and `guarded_concat` put guarded runs together, and
`exists_of_not_guarded` finds the first action that a run takes against the guard.
`guard_of_guarded` looks at one action of a guarded run, and `guarded_congr` and
`guarded_iff_of_invariant` compare two guards. `exists_alone_of_guarded` follows one actor of a
guarded run whom the actions of the others do not disturb. `flag_iff_guarded` is for a flag that a
step loses exactly when its action is taken against the guard, and `always_iff_guarded` for a
property of states that is to hold all along a run.
-/

set_option autoImplicit false
set_option relaxedAutoImplicit false

namespace ImageApp.Foundations.GuardedRuns

variable {State Action : Type*} {step : State → Action → Option State}

/-- The state after a list of actions, or `none` when one of them was not enabled. -/
def run (step : State → Action → Option State) : State → List Action → Option State
  | state, [] => some state
  | state, action :: rest => (step state action).bind fun next ↦ run step next rest

@[simp] theorem run_nil (state : State) : run step state [] = some state :=
  rfl

theorem run_cons (state : State) (action : Action) (rest : List Action) :
    run step state (action :: rest) = (step state action).bind fun next ↦ run step next rest :=
  rfl

/-- A run that starts with an action passes through the state after it. -/
theorem run_cons_eq_some {state final : State} {action : Action} {rest : List Action} :
    run step state (action :: rest) = some final ↔
      ∃ next, step state action = some next ∧ run step next rest = some final := by
  rw [run_cons, Option.bind_eq_some_iff]

/-- A run over a concatenation passes through the state after the first part. -/
theorem run_append (state : State) (first second : List Action) :
    run step state (first ++ second) =
      (run step state first).bind fun next ↦ run step next second := by
  induction first generalizing state with
  | nil => rfl
  | cons action rest ih =>
    rw [List.cons_append, run_cons, run_cons, Option.bind_assoc]
    exact Option.bind_congr fun next _ ↦ ih next

/-- Every action of the run is taken in a state that meets the guard. -/
def Guarded (step : State → Action → Option State) (guard : State → Action → Prop) :
    State → List Action → Prop
  | _, [] => True
  | state, action :: rest =>
    guard state action ∧ ∀ next, step state action = some next → Guarded step guard next rest

section Guard

variable {guard : State → Action → Prop}

@[simp] theorem guarded_nil (state : State) : Guarded step guard state [] :=
  trivial

theorem guarded_cons {state : State} {action : Action} {rest : List Action} :
    Guarded step guard state (action :: rest) ↔
      guard state action ∧ ∀ next, step state action = some next → Guarded step guard next rest :=
  Iff.rfl

/-- Guards are checked step by step, so on computable systems they can be evaluated. -/
instance decidableGuarded [∀ state action, Decidable (guard state action)] :
    ∀ state actions, Decidable (Guarded step guard state actions)
  | _, [] => isTrue trivial
  | state, action :: rest =>
    match hstep : step state action with
    | none =>
      decidable_of_iff (guard state action) (by simp [guarded_cons, hstep])
    | some next =>
      haveI := decidableGuarded next rest
      decidable_of_iff (guard state action ∧ Guarded step guard next rest)
        (by simp [guarded_cons, hstep])

/-- A run over a concatenation is guarded when its two parts are. -/
theorem guarded_append {state : State} {first second : List Action} :
    Guarded step guard state (first ++ second) ↔
      Guarded step guard state first ∧
        ∀ next, run step state first = some next → Guarded step guard next second := by
  induction first generalizing state with
  | nil => simp
  | cons action rest ih =>
    simp only [List.cons_append, guarded_cons, ih, run_cons_eq_some, forall_exists_index, and_imp]
    constructor
    · rintro ⟨hguard, hrest⟩
      refine ⟨⟨hguard, fun next hnext ↦ (hrest next hnext).1⟩, ?_⟩
      exact fun final next hnext ↦ (hrest next hnext).2 final
    · rintro ⟨⟨hguard, hrest⟩, hsecond⟩
      refine ⟨hguard, fun next hnext ↦ ⟨hrest next hnext, ?_⟩⟩
      exact fun final ↦ hsecond final next hnext

/-- A guarded run stays guarded when it goes on with an action that meets the guard. -/
theorem guarded_concat {state : State} {actions : List Action} {action : Action}
    (hguarded : Guarded step guard state actions)
    (hlast : ∀ final, run step state actions = some final → guard final action) :
    Guarded step guard state (actions ++ [action]) :=
  guarded_append.mpr ⟨hguarded, fun final hfinal ↦ ⟨hlast final hfinal, fun _ _ ↦ trivial⟩⟩

/-- A guard that every action meets in every state. -/
theorem guarded_of_forall {allowed : Action → Prop} {state : State} {actions : List Action}
    (hallowed : ∀ action ∈ actions, allowed action) :
    Guarded step (fun _ ↦ allowed) state actions := by
  induction actions generalizing state with
  | nil => trivial
  | cons action rest ih =>
    refine ⟨hallowed action List.mem_cons_self, fun next _ ↦ ih fun other hother ↦ ?_⟩
    exact hallowed other (List.mem_cons_of_mem _ hother)

/-- A run that one guard allows is allowed by every weaker one. -/
theorem guarded_mono {other : State → Action → Prop} {state : State} {actions : List Action}
    (hweaker : ∀ state, ∀ action ∈ actions, guard state action → other state action)
    (hguarded : Guarded step guard state actions) : Guarded step other state actions := by
  induction actions generalizing state with
  | nil => trivial
  | cons action rest ih =>
    refine ⟨hweaker state action List.mem_cons_self hguarded.1, fun next hnext ↦ ?_⟩
    exact ih (fun state other hother ↦ hweaker state other (List.mem_cons_of_mem _ hother))
      (hguarded.2 next hnext)

/-- An action of a guarded run was taken in a state that meets the guard. -/
theorem guard_of_guarded {state before : State} {first rest : List Action} {action : Action}
    (hguarded : Guarded step guard state (first ++ action :: rest))
    (hbefore : run step state first = some before) : guard before action := by
  induction first generalizing state with
  | nil =>
    rw [run_nil, Option.some.injEq] at hbefore
    exact hbefore ▸ hguarded.1
  | cons other first ih =>
    obtain ⟨next, hnext, hrest⟩ := run_cons_eq_some.mp hbefore
    exact ih (hguarded.2 next hnext) hrest

/-- Two guards that agree on the steps of a run guard it alike. -/
theorem guarded_congr {other : State → Action → Prop}
    (hagree : ∀ state action next, step state action = some next →
      (guard state action ↔ other state action))
    {state final : State} {actions : List Action} (hrun : run step state actions = some final) :
    Guarded step guard state actions ↔ Guarded step other state actions := by
  induction actions generalizing state with
  | nil => exact Iff.rfl
  | cons action rest ih =>
    obtain ⟨next, hnext, hrest⟩ := run_cons_eq_some.mp hrun
    rw [guarded_cons, guarded_cons, hagree state action next hnext, hnext]
    simp only [Option.some.injEq, forall_eq']
    rw [ih hrest]

/-- An invariant preserved by every guarded step holds at the end of every guarded run. -/
theorem invariant_of_guarded {Inv : State → Prop}
    (hstep : ∀ state action next, Inv state → guard state action →
      step state action = some next → Inv next)
    {state final : State} {actions : List Action} (hinit : Inv state)
    (hguarded : Guarded step guard state actions) (hrun : run step state actions = some final) :
    Inv final := by
  induction actions generalizing state with
  | nil =>
    rw [run_nil, Option.some.injEq] at hrun
    exact hrun ▸ hinit
  | cons action rest ih =>
    obtain ⟨next, hnext, hrest⟩ := run_cons_eq_some.mp hrun
    exact ih (hstep state action next hinit hguarded.1 hnext) (hguarded.2 next hnext) hrest

/-- Two guards that agree in the states of an invariant guard every run alike, also one with an
action that is not enabled. -/
theorem guarded_iff_of_invariant {other : State → Action → Prop} {Inv : State → Prop}
    (hstep : ∀ state action next, Inv state → step state action = some next → Inv next)
    (hagree : ∀ state action, Inv state → (guard state action ↔ other state action))
    {state : State} (hinit : Inv state) (actions : List Action) :
    Guarded step guard state actions ↔ Guarded step other state actions := by
  induction actions generalizing state with
  | nil => exact Iff.rfl
  | cons action rest ih =>
    rw [guarded_cons, guarded_cons, hagree state action hinit]
    refine and_congr_right fun _ ↦ forall_congr' fun next ↦ ?_
    exact imp_congr_right fun hnext ↦ ih (hstep state action next hinit hnext)

/-- When a guarded action of another actor does not change how a state is related to the state of an
actor alone, a guarded run ends related to the run that the actor makes alone. -/
theorem exists_alone_of_guarded [DecidableEq Action] {Related : State → State → Prop}
    {actor : Action}
    (hown : ∀ state alone next, Related state alone → guard state actor →
      step state actor = some next → ∃ after, step alone actor = some after ∧ Related next after)
    (hother : ∀ state alone other next, other ≠ actor → Related state alone → guard state other →
      step state other = some next → Related next alone)
    {state alone final : State} {actions : List Action} (hrelated : Related state alone)
    (hguarded : Guarded step guard state actions) (hrun : run step state actions = some final) :
    ∃ after, run step alone (List.replicate (actions.count actor) actor) = some after ∧
      Related final after := by
  induction actions generalizing state alone with
  | nil =>
    rw [run_nil, Option.some.injEq] at hrun
    exact ⟨alone, rfl, hrun ▸ hrelated⟩
  | cons action rest ih =>
    obtain ⟨next, hnext, hrest⟩ := run_cons_eq_some.mp hrun
    have hrestGuarded := hguarded.2 next hnext
    by_cases haction : action = actor
    · rw [haction] at hnext hguarded
      obtain ⟨after, hafter, hrelatedNext⟩ := hown state alone next hrelated hguarded.1 hnext
      obtain ⟨last, hlast, hrelatedLast⟩ := ih hrelatedNext hrestGuarded hrest
      rw [haction, List.count_cons_self, List.replicate_succ]
      exact ⟨last, run_cons_eq_some.mpr ⟨after, hafter, hlast⟩, hrelatedLast⟩
    · rw [List.count_cons_of_ne haction]
      exact ih (hother state alone action next haction hrelated hguarded.1 hnext) hrestGuarded hrest

/-- A run that is not guarded has a first action that is taken against the guard: the run up to it
is guarded, and the rest of the run starts with the state after it. -/
theorem exists_of_not_guarded {state final : State} {actions : List Action}
    (hunguarded : ¬ Guarded step guard state actions) (hrun : run step state actions = some final) :
    ∃ first action rest before after, actions = first ++ action :: rest ∧
      Guarded step guard state first ∧ run step state first = some before ∧
      ¬ guard before action ∧ step before action = some after ∧
      run step after rest = some final := by
  induction actions generalizing state with
  | nil => exact absurd trivial hunguarded
  | cons action rest ih =>
    obtain ⟨next, hnext, hrest⟩ := run_cons_eq_some.mp hrun
    by_cases hguard : guard state action
    · have hunguarded' : ¬ Guarded step guard next rest := by
        intro hguarded
        refine hunguarded (guarded_cons.mpr ⟨hguard, fun other hother ↦ ?_⟩)
        rw [hnext, Option.some.injEq] at hother
        exact hother ▸ hguarded
      obtain ⟨first, action', rest', before, after, rfl, hfirst, hbefore, hagainst, hafter,
        hlast⟩ := ih hunguarded' hrest
      refine ⟨action :: first, action', rest', before, after, rfl, ?_, ?_, hagainst, hafter, hlast⟩
      · refine guarded_cons.mpr ⟨hguard, fun other hother ↦ ?_⟩
        rw [hnext, Option.some.injEq] at hother
        exact hother ▸ hfirst
      · exact run_cons_eq_some.mpr ⟨next, hnext, hbefore⟩
    · exact ⟨[], action, rest, state, next, rfl, trivial, rfl, hguard, hnext, hrest⟩

end Guard

/-- An invariant preserved by every step holds at the end of every run. -/
theorem invariant_of_run {Inv : State → Prop}
    (hstep : ∀ state action next, Inv state → step state action = some next → Inv next)
    {state final : State} {actions : List Action} (hinit : Inv state)
    (hrun : run step state actions = some final) : Inv final := by
  induction actions generalizing state with
  | nil =>
    rw [run_nil, Option.some.injEq] at hrun
    exact hrun ▸ hinit
  | cons action rest ih =>
    obtain ⟨next, hnext, hrest⟩ := run_cons_eq_some.mp hrun
    exact ih (hstep state action next hinit hnext) hrest

/-- A run is guarded against taking what is in use when every action takes something else, which was
not in use at the start, and a step puts nothing into use but what its action takes. -/
theorem guarded_of_nodup {Thing : Type*} {used : State → Set Thing} {taken : Action → Option Thing}
    {guard : State → Action → Prop}
    (hstep : ∀ state action next, step state action = some next →
      ∀ thing ∈ used next, thing ∈ used state ∨ thing ∈ taken action)
    {actions : List Action}
    (hguard : ∀ state, ∀ action ∈ actions,
      (∀ thing ∈ taken action, thing ∉ used state) → guard state action)
    {state : State} (hnodup : (actions.filterMap taken).Nodup)
    (hfresh : ∀ thing ∈ actions.filterMap taken, thing ∉ used state) :
    Guarded step guard state actions := by
  induction actions generalizing state with
  | nil => trivial
  | cons action rest ih =>
    have hrest := fun state other hother ↦ hguard state other (List.mem_cons_of_mem _ hother)
    have hmem : ∀ thing ∈ rest.filterMap taken, thing ∈ (action :: rest).filterMap taken := by
      intro thing hthing
      obtain ⟨other, hother, htaken⟩ := List.mem_filterMap.mp hthing
      exact List.mem_filterMap.mpr ⟨other, List.mem_cons_of_mem _ hother, htaken⟩
    refine guarded_cons.mpr ⟨?_, fun next hnext ↦ ?_⟩
    · apply hguard state action List.mem_cons_self
      intro thing hthing
      exact hfresh thing (List.mem_filterMap.mpr ⟨action, List.mem_cons_self, hthing⟩)
    · apply ih hrest
      · cases htaken : taken action with
        | none => rwa [List.filterMap_cons_none htaken] at hnodup
        | some thing =>
          rw [List.filterMap_cons_some htaken] at hnodup
          exact hnodup.of_cons
      · intro thing hthing hused
        rcases hstep state action next hnext thing hused with hold | hnew
        · exact hfresh thing (hmem thing hthing) hold
        · rw [Option.mem_def] at hnew
          rw [List.filterMap_cons_some hnew, List.nodup_cons] at hnodup
          exact hnodup.1 hthing

/-- A goal that some kind of action brings nearer, and that no other action takes further away, is
reached in every run with enough actions of that kind. -/
theorem exists_reached_of_rank {Waiting Reached : State → Prop} {rank : State → ℕ}
    {counts : Action → Bool}
    (hstep : ∀ state action next, Waiting state → step state action = some next →
      Reached next ∨ Waiting next ∧ rank next + (if counts action then 1 else 0) ≤ rank state)
    {state final : State} {actions : List Action} (hwaiting : Waiting state)
    (hrun : run step state actions = some final) (hcount : rank state < actions.countP counts) :
    ∃ first rest middle, actions = first ++ rest ∧ run step state first = some middle ∧
      Reached middle := by
  induction actions generalizing state with
  | nil => simp at hcount
  | cons action rest ih =>
    obtain ⟨next, hnext, hrest⟩ := run_cons_eq_some.mp hrun
    rcases hstep state action next hwaiting hnext with hreached | ⟨hwaiting', hrank⟩
    · exact ⟨[action], rest, next, rfl, run_cons_eq_some.mpr ⟨next, hnext, rfl⟩, hreached⟩
    · have hleft : rank next < rest.countP counts := by
        rw [List.countP_cons] at hcount
        omega
      obtain ⟨first, later, middle, hsplit, hfirst, hreached⟩ := ih hwaiting' hrest hleft
      refine ⟨action :: first, later, middle, by rw [hsplit, List.cons_append], ?_, hreached⟩
      exact run_cons_eq_some.mpr ⟨next, hnext, hfirst⟩

/-- A flag that every step keeps exactly when the guard is met is, at the end of a run, the flag at
its start and a guarded run. -/
theorem flag_iff_guarded {Inv Flag : State → Prop} {guard : State → Action → Prop}
    (hstep : ∀ state action next, Inv state → step state action = some next →
      Inv next ∧ (Flag next ↔ Flag state ∧ guard state action))
    {state final : State} {actions : List Action} (hinit : Inv state)
    (hrun : run step state actions = some final) :
    Flag final ↔ Flag state ∧ Guarded step guard state actions := by
  induction actions generalizing state with
  | nil =>
    rw [run_nil, Option.some.injEq] at hrun
    rw [hrun]
    exact (and_iff_left (guarded_nil final)).symm
  | cons action rest ih =>
    obtain ⟨next, hnext, hrest⟩ := run_cons_eq_some.mp hrun
    obtain ⟨hinv, hflag⟩ := hstep state action next hinit hnext
    have hrestGuarded : Guarded step guard state (action :: rest) ↔
        guard state action ∧ Guarded step guard next rest := by
      rw [guarded_cons, hnext]
      simp
    rw [ih hinv hrest, hflag, hrestGuarded, and_assoc]

/-- The property holds in every state that the run passes through. -/
def Always (step : State → Action → Option State) (Property : State → Prop) :
    State → List Action → Prop
  | state, [] => Property state
  | state, action :: rest =>
    Property state ∧ ∀ next, step state action = some next → Always step Property next rest

/-- A property that an action takes from a state that has it exactly when the action is taken
against the guard holds all along a run if and only if the run is guarded. -/
theorem always_iff_guarded {Inv Property : State → Prop} {guard : State → Action → Prop}
    (hstep : ∀ state action next, Inv state → Property state → step state action = some next →
      Inv next ∧ (Property next ↔ guard state action))
    {state final : State} {actions : List Action} (hinit : Inv state) (hproperty : Property state)
    (hrun : run step state actions = some final) :
    Always step Property state actions ↔ Guarded step guard state actions := by
  induction actions generalizing state with
  | nil => exact iff_of_true hproperty trivial
  | cons action rest ih =>
    obtain ⟨next, hnext, hrest⟩ := run_cons_eq_some.mp hrun
    obtain ⟨hinv, hkept⟩ := hstep state action next hinit hproperty hnext
    have hguarded : Guarded step guard state (action :: rest) ↔
        guard state action ∧ Guarded step guard next rest := by
      rw [guarded_cons, hnext]
      simp
    have halways : Always step Property state (action :: rest) ↔
        Property state ∧ Always step Property next rest := by
      rw [Always, hnext]
      simp
    rw [hguarded, halways, and_iff_right hproperty]
    constructor
    · intro hrestAlways
      have hpropertyNext : Property next := by
        cases rest with
        | nil => exact hrestAlways
        | cons other rest => exact hrestAlways.1
      exact ⟨hkept.mp hpropertyNext, (ih hinv hpropertyNext hrest).mp hrestAlways⟩
    · rintro ⟨hguard, hrestGuarded⟩
      exact (ih hinv (hkept.mpr hguard) hrest).mpr hrestGuarded

end ImageApp.Foundations.GuardedRuns
