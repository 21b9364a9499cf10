import ImageApp.Foundations.GuardedRuns
import ImageApp.Server.AcceptLoop
import Mathlib.Logic.Function.Iterate

/-!
# The handshake of a growth

The accept loop requests a growth with a signal on `cond_realloc`, locks `mtx_realloc_end` and waits
on `cond_realloc_end`. `handle_pool` waits on `cond_realloc`, doubles the pools and signals
`cond_realloc_end`. A signal is lost when nobody waits. The two threads lock different mutexes, so a
lock never makes one of them wait for the other, and the mutexes have no state here.

`handshake_step` is the invariant of the runs in which no signal is lost: `handle_pool` works on
every request, which doubles the pools once. `lost_step` is the one of the other runs: after a lost
signal the accept loop does not come back, since `handle_pool` does nothing without another request.
`working_iff` puts them together.
-/

set_option autoImplicit false
set_option relaxedAutoImplicit false

namespace ImageApp.Pools

open Foundations.GuardedRuns Server

/-- Where the accept loop is: in front of a request, behind its signal, with the mutex in front of
the wait, in the wait, signalled, and behind the wait with the mutex. -/
inductive LoopPlace
  | accepting
  | requested
  | entering
  | waiting
  | woken
  | resumed
  deriving DecidableEq

/-- Where `handle_pool` is: in front of the lock, with the mutex in front of the wait, in the wait,
signalled, in front of the growth, in front of its signal, and in front of the unlock. -/
inductive HandlerPlace
  | unlocked
  | entering
  | waiting
  | woken
  | growing
  | grown
  | signalled
  deriving DecidableEq

/-- The two threads and the tables. `requests` counts the signals of the accept loop. -/
structure Handshake where
  loop : LoopPlace
  handler : HandlerPlace
  tables : PoolTables
  requests : ℕ
  deriving DecidableEq

/-- A step of one of the two threads. -/
inductive HandshakeAction
  | loop
  | handler
  deriving DecidableEq

/-- The place of `handle_pool` after a signal on `cond_realloc`. -/
def signalHandler (handler : HandlerPlace) : HandlerPlace :=
  if handler = .waiting then .woken else handler

/-- The place of the accept loop after a signal on `cond_realloc_end`. -/
def signalLoop (loop : LoopPlace) : LoopPlace :=
  if loop = .waiting then .woken else loop

/-- The next step of the accept loop through its growth. -/
def loopStep (state : Handshake) : Option Handshake :=
  match state.loop with
  | .accepting => some { state with
      loop := .requested
      handler := signalHandler state.handler
      requests := state.requests + 1 }
  | .requested => some { state with loop := .entering }
  | .entering => some { state with loop := .waiting }
  | .waiting => none
  | .woken => some { state with loop := .resumed }
  | .resumed => some { state with loop := .accepting }

/-- The next step of `handle_pool`. -/
def handlerStep (state : Handshake) : Option Handshake :=
  match state.handler with
  | .unlocked => some { state with handler := .entering }
  | .entering => some { state with handler := .waiting }
  | .waiting => none
  | .woken => some { state with handler := .growing }
  | .growing => some { state with handler := .grown, tables := growPools state.tables }
  | .grown => some { state with handler := .signalled, loop := signalLoop state.loop }
  | .signalled => some { state with handler := .unlocked }

/-- A step of the interleaving. -/
def handshakeStep (state : Handshake) : HandshakeAction → Option Handshake
  | .loop => loopStep state
  | .handler => handlerStep state

/-- The two threads as `init_server` leaves them. -/
def startHandshake (sizePool : ℕ) : Handshake where
  loop := .accepting
  handler := .unlocked
  tables := initPools sizePool
  requests := 0

/-- `handle_pool` has taken a request and has not signalled its completion. -/
def Working (handler : HandlerPlace) : Prop :=
  handler = .woken ∨ handler = .growing ∨ handler = .grown

instance decidableWorking (handler : HandlerPlace) : Decidable (Working handler) :=
  inferInstanceAs (Decidable (_ ∨ _ ∨ _))

/-- Every signal is sent while the other thread waits for it. -/
def Heard (state : Handshake) : HandshakeAction → Prop
  | .loop => state.loop = .accepting → state.handler = .waiting
  | .handler => state.handler = .grown → state.loop = .waiting

instance decidableHeard (state : Handshake) (action : HandshakeAction) :
    Decidable (Heard state action) :=
  match action with
  | .loop => inferInstanceAs (Decidable (_ → _))
  | .handler => inferInstanceAs (Decidable (_ → _))

/-- The accept loop is between its signal and the end of its wait. -/
def Asking (loop : LoopPlace) : Prop :=
  loop = .requested ∨ loop = .entering ∨ loop = .waiting

/-! ### Runs in which every signal is heard -/

/-- The requests that are carried out: all but the one that `handle_pool` is in front of. -/
def carriedOut (state : Handshake) : ℕ :=
  if state.handler = .woken ∨ state.handler = .growing then state.requests - 1 else state.requests

/-- `handle_pool` works exactly while the accept loop asks, and every request doubles the pools. -/
structure InStep (sizePool : ℕ) (state : Handshake) : Prop where
  working : Asking state.loop ↔ Working state.handler
  tables_eq : state.tables = growPools^[carriedOut state] (initPools sizePool)
  pending : Working state.handler → 0 < state.requests

theorem inStep_start (sizePool : ℕ) : InStep sizePool (startHandshake sizePool) where
  working := by simp [startHandshake, Asking, Working]
  tables_eq := rfl
  pending := by simp [startHandshake, Working]

/-- The steps of the accept loop, when its request is heard. -/
theorem inStep_loopStep {sizePool : ℕ} {state next : Handshake} (hinv : InStep sizePool state)
    (hheard : state.loop = .accepting → state.handler = .waiting)
    (hstep : loopStep state = some next) : InStep sizePool next := by
  obtain ⟨hworking, htables, hpending⟩ := hinv
  unfold loopStep at hstep
  cases hloop : state.loop with
  | accepting =>
    simp only [hloop, Option.some.injEq] at hstep
    subst hstep
    have hwaiting := hheard hloop
    refine ⟨?_, ?_, fun _ ↦ Nat.succ_pos _⟩
    · simp [Asking, Working, signalHandler, hwaiting]
    · simpa [carriedOut, signalHandler, hwaiting] using htables
  | waiting => simp [hloop] at hstep
  | _ =>
    simp only [hloop, Option.some.injEq] at hstep
    subst hstep
    refine ⟨?_, htables, hpending⟩
    rw [← hworking, hloop]
    simp [Asking]

/-- The steps of `handle_pool`, when its signal is heard. -/
theorem inStep_handlerStep {sizePool : ℕ} {state next : Handshake} (hinv : InStep sizePool state)
    (hheard : state.handler = .grown → state.loop = .waiting)
    (hstep : handlerStep state = some next) : InStep sizePool next := by
  obtain ⟨hworking, htables, hpending⟩ := hinv
  unfold handlerStep at hstep
  cases hhandler : state.handler with
  | growing =>
    simp only [hhandler, Option.some.injEq] at hstep
    subst hstep
    have hworks : Working state.handler := Or.inr (Or.inl hhandler)
    obtain ⟨requests, hrequests⟩ := Nat.exists_eq_add_of_lt (hpending hworks)
    refine ⟨iff_of_true (hworking.mpr hworks) (Or.inr (Or.inr rfl)), ?_, fun _ ↦ hpending hworks⟩
    simp only [carriedOut, hhandler, hrequests] at htables ⊢
    simpa [Function.iterate_succ_apply'] using congrArg growPools htables
  | grown =>
    simp only [hhandler, Option.some.injEq] at hstep
    subst hstep
    refine ⟨?_, ?_, ?_⟩
    · simp [Asking, Working, signalLoop, hheard hhandler]
    · simpa [carriedOut, hhandler] using htables
    · simp [Working]
  | waiting => simp [hhandler] at hstep
  | woken =>
    simp only [hhandler, Option.some.injEq] at hstep
    subst hstep
    have hworks : Working state.handler := Or.inl hhandler
    refine ⟨iff_of_true (hworking.mpr hworks) (Or.inr (Or.inl rfl)), ?_, fun _ ↦ hpending hworks⟩
    simpa [carriedOut, hhandler] using htables
  | _ =>
    simp only [hhandler, Option.some.injEq] at hstep
    subst hstep
    refine ⟨?_, ?_, by simp [Working]⟩
    · rw [hworking, hhandler]
      simp [Working]
    · simpa [carriedOut, hhandler] using htables

theorem inStep_step (sizePool : ℕ) (state : Handshake) (action : HandshakeAction) (next : Handshake)
    (hinv : InStep sizePool state) (hheard : Heard state action)
    (hstep : handshakeStep state action = some next) : InStep sizePool next := by
  cases action with
  | loop => exact inStep_loopStep hinv hheard hstep
  | handler => exact inStep_handlerStep hinv hheard hstep

/-- While every signal is heard, the accept loop comes back from each request with the pools
doubled once. -/
theorem tables_of_guarded {sizePool : ℕ} {actions : List HandshakeAction} {final : Handshake}
    (hguarded : Guarded handshakeStep Heard (startHandshake sizePool) actions)
    (hrun : run handshakeStep (startHandshake sizePool) actions = some final)
    (hback : final.loop = .accepting) :
    final.tables = growPools^[final.requests] (initPools sizePool) := by
  have hinv := invariant_of_guarded (inStep_step sizePool) (inStep_start sizePool) hguarded hrun
  have hidle : ¬ Working final.handler := by
    rw [← hinv.working, hback]
    simp [Asking]
  rw [hinv.tables_eq, carriedOut, if_neg]
  rintro (hwoken | hgrowing)
  · exact hidle (Or.inl hwoken)
  · exact hidle (Or.inr (Or.inl hgrowing))

/-! ### A lost signal -/

/-- The accept loop asks for a growth on which `handle_pool` does not work. -/
def Lost (state : Handshake) : Prop :=
  Asking state.loop ∧ ¬ Working state.handler

/-- A signal that nobody hears leaves the accept loop alone with its request. -/
theorem lost_of_not_heard {sizePool : ℕ} {state next : Handshake} {action : HandshakeAction}
    (hinv : InStep sizePool state) (hunheard : ¬ Heard state action)
    (hstep : handshakeStep state action = some next) : Lost next := by
  have hworking := hinv.working
  cases action with
  | loop =>
    rw [Heard, Classical.not_imp] at hunheard
    obtain ⟨hloop, hhandler⟩ := hunheard
    simp only [handshakeStep, loopStep, hloop, Option.some.injEq] at hstep
    subst hstep
    refine ⟨Or.inl rfl, ?_⟩
    simp only [signalHandler, if_neg hhandler]
    rw [← hworking, hloop]
    simp [Asking]
  | handler =>
    rw [Heard, Classical.not_imp] at hunheard
    obtain ⟨hhandler, hloop⟩ := hunheard
    simp only [handshakeStep, handlerStep, hhandler, Option.some.injEq] at hstep
    subst hstep
    refine ⟨?_, by simp [Working]⟩
    simp only [signalLoop, if_neg hloop]
    exact hworking.mpr (Or.inr (Or.inr hhandler))

/-- The accept loop stays alone with its request. -/
theorem lost_step (state : Handshake) (action : HandshakeAction) (next : Handshake)
    (hlost : Lost state) (hstep : handshakeStep state action = some next) : Lost next := by
  obtain ⟨hasking, hidle⟩ := hlost
  cases action with
  | loop =>
    simp only [handshakeStep, loopStep] at hstep
    rcases hasking with hloop | hloop | hloop
    · simp only [hloop, Option.some.injEq] at hstep
      exact hstep ▸ ⟨Or.inr (Or.inl rfl), hidle⟩
    · simp only [hloop, Option.some.injEq] at hstep
      exact hstep ▸ ⟨Or.inr (Or.inr rfl), hidle⟩
    · simp [hloop] at hstep
  | handler =>
    simp only [handshakeStep, handlerStep] at hstep
    cases hhandler : state.handler with
    | waiting => simp [hhandler] at hstep
    | woken => exact absurd (Or.inl hhandler) hidle
    | growing => exact absurd (Or.inr (Or.inl hhandler)) hidle
    | grown => exact absurd (Or.inr (Or.inr hhandler)) hidle
    | _ =>
      simp only [hhandler, Option.some.injEq] at hstep
      exact hstep ▸ ⟨hasking, by simp [Working]⟩

/-- In every state in which the accept loop waits for the end of a growth, `handle_pool` works on
the request if and only if every signal so far was heard. -/
theorem working_iff {sizePool : ℕ} {actions : List HandshakeAction} {final : Handshake}
    (hrun : run handshakeStep (startHandshake sizePool) actions = some final)
    (hwaiting : final.loop = .waiting) :
    Working final.handler ↔ Guarded handshakeStep Heard (startHandshake sizePool) actions := by
  constructor
  · intro hworking
    by_contra hunguarded
    obtain ⟨first, action, rest, before, after, -, hguarded, hfirst, hunheard, hstep, hlast⟩ :=
      exists_of_not_guarded hunguarded hrun
    have hinv := invariant_of_guarded (inStep_step sizePool) (inStep_start sizePool) hguarded hfirst
    have hlost : Lost final :=
      invariant_of_run lost_step (lost_of_not_heard hinv hunheard hstep) hlast
    exact hlost.2 hworking
  · intro hguarded
    have hinv := invariant_of_guarded (inStep_step sizePool) (inStep_start sizePool) hguarded hrun
    exact hinv.working.mp (Or.inr (Or.inr hwaiting))

/-- The accept loop asks when `handle_pool` waits, and waits before `handle_pool` has grown. -/
def heardRequest : List HandshakeAction :=
  [.handler, .handler, .loop, .handler, .loop, .loop]

theorem working_heardRequest :
    ∃ final, run handshakeStep (startHandshake 4) heardRequest = some final ∧
      final.loop = .waiting ∧
      (Working final.handler ↔
        Guarded handshakeStep Heard (startHandshake 4) heardRequest) ∧ Working final.handler := by
  obtain ⟨final, hrun, hwaiting⟩ := Option.map_eq_some_iff.mp
    (show (run handshakeStep (startHandshake 4) heardRequest).map (fun final ↦ final.loop) =
      some .waiting by decide +kernel)
  have hworking := working_iff hrun hwaiting
  exact ⟨final, hrun, hwaiting, hworking, hworking.mpr (by decide +kernel)⟩

/-- The accept loop asks before `handle_pool` has come to its wait. -/
def earlyRequest : List HandshakeAction :=
  [.loop, .loop, .loop, .handler, .handler]

/-- Both threads wait for each other, and nobody can take another step. -/
theorem not_working :
    (¬ ∀ (sizePool : ℕ) (actions : List HandshakeAction) (final : Handshake),
      run handshakeStep (startHandshake sizePool) actions = some final → final.loop = .waiting →
        Working final.handler) ∧
      ∃ final, run handshakeStep (startHandshake 4) earlyRequest = some final ∧
        final.loop = .waiting ∧ final.handler = .waiting ∧
          ∀ action, handshakeStep final action = none := by
  obtain ⟨final, hrun, hfinal⟩ := Option.map_eq_some_iff.mp
    (show (run handshakeStep (startHandshake 4) earlyRequest).map
      (fun final ↦ (final.loop, final.handler)) = some (.waiting, .waiting) by decide +kernel)
  rw [Prod.mk.injEq] at hfinal
  obtain ⟨hloop, hhandler⟩ := hfinal
  refine ⟨fun hworks ↦ ?_, final, hrun, hloop, hhandler, fun action ↦ ?_⟩
  · have hworking := hworks 4 earlyRequest final hrun hloop
    rw [hhandler] at hworking
    simp [Working] at hworking
  · cases action with
    | loop => simp [handshakeStep, loopStep, hloop]
    | handler => simp [handshakeStep, handlerStep, hhandler]

end ImageApp.Pools
