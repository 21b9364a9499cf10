import Mathlib.Data.Nat.Notation

/-!
# Loops by iterations

A loop whose body either goes on with a new state or ends with a result: `after body s n` is where
the loop is after `n` iterations that start in `s`. A loop that has ended stays where it is.
-/

set_option autoImplicit false
set_option relaxedAutoImplicit false

namespace ImageApp.Foundations.LoopRuns

variable {State Result : Type*}

/-- A loop on its way, or at its end with a result. -/
inductive Progress (State Result : Type*)
  | running (s : State)
  | ended (s : State) (result : Result)
  deriving DecidableEq

/-- The state of a loop on its way or at its end. -/
def Progress.state : Progress State Result → State
  | .running s => s
  | .ended s _ => s

/-- The loop after some iterations. -/
def after (body : State → Progress State Result) (s : State) : ℕ → Progress State Result
  | 0 => .running s
  | iterations + 1 =>
    match after body s iterations with
    | .running s => body s
    | .ended s result => .ended s result

@[simp] theorem after_zero (body : State → Progress State Result) (s : State) :
    after body s 0 = .running s := rfl

theorem after_succ_of_running {body : State → Progress State Result} {s t : State} {n : ℕ}
    (hrunning : after body s n = .running t) : after body s (n + 1) = body t := by
  rw [after, hrunning]

/-- What has ended stays so. -/
theorem after_add_of_ended {body : State → Progress State Result} {s t : State} {result : Result}
    {n : ℕ} (hended : after body s n = .ended t result) (more : ℕ) :
    after body s (n + more) = .ended t result := by
  induction more with
  | zero => exact hended
  | succ more ih => rw [← Nat.add_assoc, after, ih]

/-- A loop comes to one end only. -/
theorem eq_of_ended {body : State → Progress State Result} {s t u : State} {first second : Result}
    {n m : ℕ} (hfirst : after body s n = .ended t first)
    (hsecond : after body s m = .ended u second) : t = u ∧ first = second := by
  have hlater := after_add_of_ended hfirst m
  rw [Nat.add_comm, after_add_of_ended hsecond n] at hlater
  exact ⟨(Progress.ended.inj hlater).1.symm, (Progress.ended.inj hlater).2.symm⟩

/-- A predicate that every iteration keeps holds along the loop. -/
theorem after_induction {body : State → Progress State Result} {s : State}
    {motive : Progress State Result → Prop} (hstart : motive (.running s))
    (hbody : ∀ t, motive (.running t) → motive (body t)) (n : ℕ) : motive (after body s n) := by
  induction n with
  | zero => exact hstart
  | succ n ih =>
    rw [after]
    cases hprogress : after body s n with
    | running t =>
      rw [hprogress] at ih
      exact hbody t ih
    | ended t result =>
      rw [hprogress] at ih
      exact ih

/-- What is reached on the way is reached from there, too. -/
theorem after_add_of_running {body : State → Progress State Result} {s t : State} {n : ℕ}
    (hrunning : after body s n = .running t) (more : ℕ) :
    after body s (n + more) = after body t more := by
  induction more with
  | zero => exact hrunning
  | succ more ih => rw [← Nat.add_assoc, after, ih, after]

/-- The first iteration and those behind it. -/
theorem after_one_add {body : State → Progress State Result} {s t : State}
    (hbody : body s = .running t) (n : ℕ) : after body s (1 + n) = after body t n := by
  have hfirst : after body s 1 = .running t := hbody
  exact after_add_of_running hfirst n

/-- A loop ends when a measure falls as long as it goes on. -/
theorem exists_ended_of_measure {body : State → Progress State Result} {inv : State → Prop}
    (measure : State → ℕ)
    (hstep : ∀ s t, inv s → body s = .running t → inv t ∧ measure t < measure s) {s : State}
    (hs : inv s) : ∃ n t result, after body s n = .ended t result := by
  induction hmeasure : measure s using Nat.strongRecOn generalizing s with
  | ind value ih =>
    cases hbody : body s with
    | ended t result => exact ⟨1, t, result, hbody⟩
    | running t =>
      obtain ⟨ht, hless⟩ := hstep s t hs hbody
      obtain ⟨n, u, result, hended⟩ := ih (measure t) (hmeasure ▸ hless) ht rfl
      exact ⟨1 + n, u, result, (after_one_add hbody n).trans hended⟩

end ImageApp.Foundations.LoopRuns
