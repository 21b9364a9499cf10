import ImageApp.Foundations.GuardedRuns
import ImageApp.Server.HandleClient

/-!
# What a message slot still holds

A worker receives into its five message slots in turn, so what an iteration leaves in a slot is met
again five iterations later, by the client that is served then. An iteration that received a request
clears its slot. An iteration that ends with an empty message does not, and what was received before
the client went away stays there.

`interpretation_of_guarded` is the condition under which nothing stays: as long as every iteration
that ends with an empty message was handed over nothing but zero bytes, every message slot is zeroed
between two iterations, and what the next client sends is read alike after any two histories.
-/

set_option autoImplicit false
set_option relaxedAutoImplicit false

namespace ImageApp.Connections

open Foundations.CStrings Foundations.GuardedRuns Server

/-! ### The history of a worker -/

/-- What happens to a worker: it is assigned a connection, or it goes once through its loop. -/
inductive WorkerAction
  | dispatch (connSd : Descriptor) (clientAddr : SockaddrIn)
  | serve (input : IterationInput)

/-- A worker is assigned a connection when it is free, and goes through its loop when a message was
announced. -/
def workerStep (worker : Worker) : WorkerAction → Option Worker
  | .dispatch connSd clientAddr =>
    if worker.td.used = -1 then
      some { worker with td := assignConnection worker.td connSd clientAddr }
    else none
  | .serve input =>
    if worker.td.msgReceived = 1 then (iterate worker input).map Prod.fst else none

/-- A worker before its first connection. -/
def startedWorker : Worker where
  td := allocatedThread
  idx := 0

/-- How the worker reads what a client sends: the outcome of `receive_request`, and the parsed
request when one was received. -/
def interpretation (worker : Worker) (received : List RecvResult) :
    ReceiveOutcome × Option (RqstStat × ParsedRequest) :=
  let outcome := receiveRequest worker.nextMessage received
  (outcome,
    match outcome with
    | .returned .requestReceived message _ => parseRequest message
    | _ => none)

/-- The iteration ends with an empty message: the client has used up its requests, or it went away
before its request was complete. -/
def endsEmpty (worker : Worker) (input : IterationInput) : Bool :=
  worker.td.request = 0 ||
    match receiveRequest worker.nextMessage input.received with
    | .returned .emptyMessage _ _ => true
    | _ => false

/-- An iteration that ends with an empty message was handed over nothing. -/
def LeavesNothing (worker : Worker) : WorkerAction → Prop
  | .dispatch _ _ => True
  | .serve input => endsEmpty worker input = true → handsOverNothing input.received = true

instance decidableLeavesNothing (worker : Worker) (action : WorkerAction) :
    Decidable (LeavesNothing worker action) :=
  match action with
  | .dispatch _ _ => inferInstanceAs (Decidable True)
  | .serve _ => inferInstanceAs (Decidable (_ → _))

/-! ### The slots between two iterations -/

/-- All message slots are zeroed. -/
def AllZeroed (worker : Worker) : Prop :=
  ∀ idx, worker.td.message idx = zeros httpMessageSize

/-- An iteration leaves all message slots zeroed when it clears its slot or was handed over nothing.
-/
theorem allZeroed_of_iterate {worker worker' : Worker} {input : IterationInput}
    {effects : List Effect} (hzeroed : AllZeroed worker)
    (hguard : LeavesNothing worker (.serve input))
    (hrun : iterate worker input = some (worker', effects)) : AllZeroed worker' := by
  obtain ⟨status, message, hreceive, -, -, hmessage, -⟩ := iterate_cases hrun
  intro idx
  rw [hmessage]
  by_cases hidx : idx = worker.nextIdx
  · rw [hidx, Function.update_self]
    split_ifs with hstatus
    · rfl
    · have hempty : endsEmpty worker input = true := by
        rw [endsEmpty, hreceive]
        by_cases hspent : worker.td.request = 0
        · simp [hspent]
        · rw [effectiveStatus, if_neg hspent] at hstatus
          rcases status_of_receiveLoop hreceive with hreceived | hreceived
          · exact absurd hreceived hstatus
          · simp [hreceived]
      rw [Worker.nextMessage, hzeroed] at hreceive
      exact receiveLoop_zeros (hguard hempty) hreceive
  · rw [Function.update_of_ne hidx]
    exact hzeroed idx

/-- Every step of a worker that leaves nothing behind keeps all message slots zeroed. -/
theorem allZeroed_of_step (worker : Worker) (action : WorkerAction) (worker' : Worker)
    (hzeroed : AllZeroed worker) (hguard : LeavesNothing worker action)
    (hstep : workerStep worker action = some worker') : AllZeroed worker' := by
  cases action with
  | dispatch connSd clientAddr =>
    simp only [workerStep, Option.ite_none_right_eq_some, Option.some.injEq] at hstep
    rw [← hstep.2]
    exact hzeroed
  | serve input =>
    simp only [workerStep, Option.ite_none_right_eq_some, Option.map_eq_some_iff] at hstep
    obtain ⟨-, ⟨served, effects⟩, hrun, rfl⟩ := hstep
    exact allZeroed_of_iterate hzeroed hguard hrun

/-- All message slots are zeroed after a history that leaves nothing behind. -/
theorem allZeroed_of_guarded {history : List WorkerAction} {worker : Worker}
    (hguarded : Guarded workerStep LeavesNothing startedWorker history)
    (hrun : run workerStep startedWorker history = some worker) : AllZeroed worker :=
  invariant_of_guarded allZeroed_of_step (fun _ ↦ rfl) hguarded hrun

/-- After histories that leave nothing behind, the slot of the next request is zeroed, and what the
client sends is read alike. -/
theorem interpretation_of_guarded {history history' : List WorkerAction} {worker worker' : Worker}
    (hguarded : Guarded workerStep LeavesNothing startedWorker history)
    (hrun : run workerStep startedWorker history = some worker)
    (hguarded' : Guarded workerStep LeavesNothing startedWorker history')
    (hrun' : run workerStep startedWorker history' = some worker') (received : List RecvResult) :
    worker.nextMessage = zeros httpMessageSize ∧
      interpretation worker received = interpretation worker' received := by
  have hnext : worker.nextMessage = zeros httpMessageSize :=
    allZeroed_of_guarded hguarded hrun worker.nextIdx
  have hnext' : worker'.nextMessage = zeros httpMessageSize :=
    allZeroed_of_guarded hguarded' hrun' worker'.nextIdx
  refine ⟨hnext, ?_⟩
  rw [interpretation, interpretation, hnext, hnext']

/-- Three bytes of a request, and the end of the connection. -/
def abandonedRequest : IterationInput where
  received := [.data (bytes "GET"), .data []]
  imagePresent := true
  clientGone := false
  polls := []

theorem interpretation_photo :
    ∃ worker,
      run workerStep startedWorker [.dispatch 4 (0, 0), .serve servedPhoto] = some worker ∧
        worker.nextMessage = zeros httpMessageSize ∧
          interpretation worker servedPhoto.received =
            interpretation startedWorker servedPhoto.received := by
  obtain ⟨worker, hrun⟩ := Option.isSome_iff_exists.mp
    (show (run workerStep startedWorker [.dispatch 4 (0, 0), .serve servedPhoto]).isSome = true by
      decide +kernel)
  exact ⟨worker, hrun,
    interpretation_of_guarded (by decide +kernel) hrun (guarded_nil _) (run_nil _) _⟩

/-- The slot of an abandoned request comes round while the next client is served. -/
theorem not_nextMessage_zeroed :
    ¬ ∀ (history : List WorkerAction) (worker : Worker),
      run workerStep startedWorker history = some worker →
        worker.nextMessage = zeros httpMessageSize := by
  intro hclean
  have hleft : (run workerStep startedWorker
      [.dispatch 4 (0, 0), .serve servedPhoto, .serve abandonedRequest, .dispatch 5 (0, 0),
        .serve servedPhoto, .serve servedPhoto, .serve servedPhoto,
        .serve servedPhoto]).map Worker.nextMessage = some (padded (bytes "GET")) := by
    decide +kernel
  obtain ⟨worker, hrun, hnext⟩ := Option.map_eq_some_iff.mp hleft
  rw [hclean _ worker hrun] at hnext
  exact absurd hnext (by decide +kernel)

end ImageApp.Connections
