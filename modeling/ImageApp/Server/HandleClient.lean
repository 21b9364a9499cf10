import ImageApp.Server.Reception
import ImageApp.Server.RequestLine
import ImageApp.Server.ThreadPool

/-!
# The loop of a worker

One iteration of `handle_client`, from the return of `wait_for_connection` to the next call of it.
What the iteration learns from outside is its input: the results of `recv`, whether the image could
be found, whether the client was gone when the image was sent, and the results of `poll`. The
iteration consumes the results of `recv` exactly, and it is `none` for an input after which the
worker is still waiting, has ended the program, or has no defined behaviour. The frees of
`destroy_request` and `destroy_image` are effects and have no consequence here.

`iterate_cases` says what an iteration does to the slot and to the accounting of connections, and
`Iteration` in which of three ways it went. The other modules use these instead of the branches.
-/

set_option autoImplicit false
set_option relaxedAutoImplicit false

namespace ImageApp.Server

open Foundations.CStrings

/-- What an iteration learns from outside. -/
structure IterationInput where
  received : List RecvResult
  imagePresent : Bool
  clientGone : Bool
  polls : List ℤ
  deriving DecidableEq

/-- A worker between two iterations: its slot, and the index of the message it has used last. -/
structure Worker where
  td : ThreadData
  idx : Fin 5

/-- The index of the message that the next iteration receives into. -/
def Worker.nextIdx (worker : Worker) : Fin 5 :=
  worker.idx + 1

/-- The message that the next call of `receive_request` is given. -/
def Worker.nextMessage (worker : Worker) : List Byte :=
  worker.td.message worker.nextIdx

/-- The slot with new content in one of its messages. -/
def storeMessage (td : ThreadData) (idx : Fin 5) (message : List Byte) : ThreadData :=
  { td with message := Function.update td.message idx message }

@[simp] theorem storeMessage_message (td : ThreadData) (idx : Fin 5) (message : List Byte) :
    (storeMessage td idx message).message idx = message :=
  Function.update_self ..

/-- `bzero` on a message. -/
def clearMessage (td : ThreadData) (idx : Fin 5) : ThreadData :=
  storeMessage td idx (zeros httpMessageSize)

/-- The end of `case REQUEST_RECEIVED`: the slot is ready for another message. -/
def finishRequest (td : ThreadData) (idx : Fin 5) (effects : List Effect) :
    ThreadData × List Effect × Bool :=
  (clearMessage { td with msgReceived := 0 } idx, effects, false)

/-- `case REQUEST_RECEIVED` of the switch for a parsed request, with whether it leaves the iteration
by `continue`. -/
def respond (td : ThreadData) (idx : Fin 5) (input : IterationInput) (ret : RqstStat)
    (request : ParsedRequest) : ThreadData × List Effect × Bool :=
  match ret with
  | .requestReceived =>
    let sent := [.createRequest request.imageNameStorage, .createImage,
      .writeEventLog .imageRequested td.clientAddr]
    if input.imagePresent then
      let answered := sent ++ [.sendImage td.connSd .adapted request.cmd]
      if input.clientGone then
        let closed := closeClientWithStatus td .connectionClosed
        (clearMessage closed.1 idx,
          answered ++ closed.2 ++ [.destroyRequest .connectionClosed, .destroyImage], true)
      else finishRequest td idx answered
    else
      finishRequest td idx <| sent ++
        [.sendBadRequest td.connSd, .decrementMaxDescriptor,
          .writeEventLog .imageNotPresent td.clientAddr, .shutdown td.connSd, .close td.connSd,
          .signalNotFull]
  | .headCmd =>
    finishRequest td idx
      [.createRequest request.imageNameStorage, .sendImage td.connSd .none .headCmd]
  | .iconRequested =>
    finishRequest td idx
      [.createRequest request.imageNameStorage, .sendImage td.connSd .icon .getCmd]
  | .messageNotCorrect =>
    finishRequest td idx [.createRequest request.imageNameStorage, .sendBadRequest td.connSd]
  | _ => finishRequest td idx [.createRequest request.imageNameStorage]

/-- `case REQUEST_RECEIVED` of the switch. -/
def handleRequest (td : ThreadData) (idx : Fin 5) (input : IterationInput) :
    Option (ThreadData × List Effect × Bool) :=
  (parseRequest (td.message idx)).map fun parsed ↦ respond td idx input parsed.1 parsed.2

/-- The end of an iteration that does not `continue`: the keep-alive timer. -/
def keepAlive (td : ThreadData) (status : RqstStat) (polls : List ℤ) :
    Option (ThreadData × List Effect) :=
  match handleTimer td polls with
  | some (td, timer, []) =>
    if timer = 0 then
      let closed := closeClientWithStatus td .connectionClosed
      some (closed.1, closed.2 ++ [.destroyRequest status, .destroyImage])
    else some (td, [])
  | _ => none

/-- The switch on the status of the request, on the slot as `receive_request` has left it. -/
def handleStatus (td : ThreadData) (idx : Fin 5) (status : RqstStat) (input : IterationInput) :
    Option (ThreadData × List Effect) :=
  match status with
  | .requestReceived =>
    (handleRequest td idx input).bind fun (td, effects, continued) ↦
      if continued then some (td, effects)
      else
        (keepAlive td status input.polls).map fun (td, later) ↦ (td, effects ++ later)
  | .emptyMessage =>
    let closed := closeClientWithStatus td .connectionClosed
    some (closed.1, closed.2 ++ [.destroyRequest .connectionClosed, .destroyImage])
  | _ => keepAlive td status input.polls

/-- The status that the switch sees: a client that has used up its requests is treated as gone. -/
def effectiveStatus (td : ThreadData) (status : RqstStat) : RqstStat :=
  if td.request = 0 then .emptyMessage else status

/-- The warning of a client that has used up its requests. -/
def warning (td : ThreadData) : List Effect :=
  if td.request = 0 then [.sendServiceUnavailable td.connSd] else []

@[simp] theorem effectiveStatus_storeMessage (td : ThreadData) (idx : Fin 5) (message : List Byte)
    (status : RqstStat) :
    effectiveStatus (storeMessage td idx message) status = effectiveStatus td status :=
  rfl

/-- An iteration of the loop of `handle_client`. -/
def iterate (worker : Worker) (input : IterationInput) : Option (Worker × List Effect) :=
  match receiveRequest worker.nextMessage input.received with
  | .returned status message [] =>
    let td := storeMessage worker.td worker.nextIdx message
    (handleStatus td worker.nextIdx (effectiveStatus td status) input).map fun ended ↦
      (⟨ended.1, worker.nextIdx⟩, warning td ++ ended.2)
  | _ => none

/-! ### What an iteration does -/

/-- The end of an answer adds no effects and stays in the iteration. -/
theorem finishRequest_eq {td td' : ThreadData} {idx : Fin 5} {effects sent : List Effect}
    {continued : Bool} (hfinish : finishRequest td idx effects = (td', sent, continued)) :
    sent = effects ∧ continued = false := by
  rw [finishRequest, Prod.mk.injEq, Prod.mk.injEq] at hfinish
  exact ⟨hfinish.2.1.symm, hfinish.2.2.symm⟩

/-- The answer to a request closes the connection, or clears the flag and the message. -/
theorem respond_cases (td : ThreadData) (idx : Fin 5) (input : IterationInput) (ret : RqstStat)
    (request : ParsedRequest) :
    (∃ effects, respond td idx input ret request =
      (clearMessage (closeClientWithStatus td .connectionClosed).1 idx, effects, true)) ∨
      ∃ effects, respond td idx input ret request = finishRequest td idx effects := by
  cases ret with
  | requestReceived =>
    simp only [respond]
    split_ifs with hpresent hgone
    · exact Or.inl ⟨_, rfl⟩
    · exact Or.inr ⟨_, rfl⟩
    · exact Or.inr ⟨_, rfl⟩
  | _ => exact Or.inr ⟨_, rfl⟩

/-- The answer leaves the iteration when it has closed the connection. -/
theorem respond_left {td td' : ThreadData} {idx : Fin 5} {input : IterationInput} {ret : RqstStat}
    {request : ParsedRequest} {effects : List Effect}
    (hrespond : respond td idx input ret request = (td', effects, true)) :
    td' = clearMessage (closeClientWithStatus td .connectionClosed).1 idx := by
  rcases respond_cases td idx input ret request with ⟨sent, hclosed⟩ | ⟨sent, hfinished⟩
  · rw [hclosed, Prod.mk.injEq] at hrespond
    exact hrespond.1.symm
  · rw [hfinished, finishRequest, Prod.mk.injEq, Prod.mk.injEq] at hrespond
    exact absurd hrespond.2.2 Bool.false_ne_true

/-- The answer stays in the iteration when the slot is ready for another message. -/
theorem respond_stayed {td td' : ThreadData} {idx : Fin 5} {input : IterationInput}
    {ret : RqstStat} {request : ParsedRequest} {effects : List Effect}
    (hrespond : respond td idx input ret request = (td', effects, false)) :
    td' = clearMessage { td with msgReceived := 0 } idx := by
  rcases respond_cases td idx input ret request with ⟨sent, hclosed⟩ | ⟨sent, hfinished⟩
  · rw [hclosed, Prod.mk.injEq, Prod.mk.injEq] at hrespond
    exact absurd hrespond.2.2.symm Bool.false_ne_true
  · rw [hfinished, finishRequest, Prod.mk.injEq] at hrespond
    exact hrespond.1.symm

/-- The keep-alive timer uses up the polls, and closes the connection when it returns zero. -/
theorem keepAlive_cases {td td' : ThreadData} {status : RqstStat} {polls : List ℤ}
    {effects : List Effect} (hrun : keepAlive td status polls = some (td', effects)) :
    ∃ timed timer, handleTimer td polls = some (timed, timer, []) ∧
      ((timer = 0 ∧ td' = (closeClientWithStatus timed .connectionClosed).1 ∧
        effects = (closeClientWithStatus timed .connectionClosed).2 ++
          [.destroyRequest status, .destroyImage]) ∨
        (timer ≠ 0 ∧ td' = timed ∧ effects = [])) := by
  unfold keepAlive at hrun
  split at hrun
  · rename_i timed timer htimer
    refine ⟨timed, timer, htimer, ?_⟩
    split_ifs at hrun with hexpired
    · rw [Option.some.injEq, Prod.mk.injEq] at hrun
      exact Or.inl ⟨hexpired, hrun.1.symm, hrun.2.symm⟩
    · rw [Option.some.injEq, Prod.mk.injEq] at hrun
      exact Or.inr ⟨hexpired, hrun.1.symm, hrun.2.symm⟩
  · simp at hrun

/-- The status that the switch sees is one of two, and a client without requests left is gone. -/
theorem effectiveStatus_cases {worker : Worker} {input : IterationInput} {status : RqstStat}
    {message : List Byte} {rest : List RecvResult}
    (hreceive : receiveRequest worker.nextMessage input.received = .returned status message rest) :
    (effectiveStatus worker.td status = .requestReceived ∧ worker.td.request ≠ 0) ∨
      effectiveStatus worker.td status = .emptyMessage := by
  unfold effectiveStatus
  split_ifs with hspent
  · exact Or.inr rfl
  · rcases status_of_receiveLoop hreceive with hreceived | hempty
    · exact Or.inl ⟨hreceived, hspent⟩
    · exact Or.inr hempty

/-- What an iteration did: the client was gone when it received, or a request was answered, after
which the client was gone or the keep-alive timer was called. -/
inductive Iteration (worker : Worker) (input : IterationInput) (worker' : Worker)
    (effects : List Effect) : Prop
  | emptied {status : RqstStat} {message : List Byte}
    (hreceive : receiveRequest worker.nextMessage input.received = .returned status message [])
    (hstatus : effectiveStatus worker.td status = .emptyMessage)
    (hidx : worker'.idx = worker.nextIdx)
    (htd : worker'.td = (closeClientWithStatus
      (storeMessage worker.td worker.nextIdx message) .connectionClosed).1)
    (heffects : effects = warning worker.td ++ ((closeClientWithStatus
      (storeMessage worker.td worker.nextIdx message) .connectionClosed).2 ++
        [.destroyRequest .connectionClosed, .destroyImage]))
  | left {status ret : RqstStat} {message : List Byte} {request : ParsedRequest}
    {first : List Effect}
    (hreceive : receiveRequest worker.nextMessage input.received = .returned status message [])
    (hstatus : effectiveStatus worker.td status = .requestReceived)
    (hidx : worker'.idx = worker.nextIdx)
    (hparse : parseRequest message = some (ret, request))
    (hrespond : respond (storeMessage worker.td worker.nextIdx message) worker.nextIdx input ret
      request = (worker'.td, first, true))
    (heffects : effects = warning worker.td ++ first)
  | stayed {status ret : RqstStat} {message : List Byte} {request : ParsedRequest}
    {td : ThreadData} {first last : List Effect}
    (hreceive : receiveRequest worker.nextMessage input.received = .returned status message [])
    (hstatus : effectiveStatus worker.td status = .requestReceived)
    (hidx : worker'.idx = worker.nextIdx)
    (hparse : parseRequest message = some (ret, request))
    (hrespond : respond (storeMessage worker.td worker.nextIdx message) worker.nextIdx input ret
      request = (td, first, false))
    (hkeep : keepAlive td .requestReceived input.polls = some (worker'.td, last))
    (heffects : effects = warning worker.td ++ (first ++ last))

theorem iteration_of_iterate {worker worker' : Worker} {input : IterationInput}
    {effects : List Effect} (hrun : iterate worker input = some (worker', effects)) :
    Iteration worker input worker' effects := by
  rw [iterate] at hrun
  split at hrun
  · rename_i status message hreceive
    obtain ⟨⟨td', sent⟩, hended, heq⟩ := Option.map_eq_some_iff.mp hrun
    rw [Prod.mk.injEq] at heq
    obtain ⟨rfl, rfl⟩ := heq
    rcases effectiveStatus_cases hreceive with ⟨hstatus, -⟩ | hstatus
    · rw [effectiveStatus_storeMessage, hstatus, handleStatus] at hended
      obtain ⟨⟨td, first, continued⟩, hrequest, hnext⟩ := Option.bind_eq_some_iff.mp hended
      obtain ⟨⟨ret, request⟩, hparse, hrespond⟩ := Option.map_eq_some_iff.mp hrequest
      rw [storeMessage_message] at hparse
      cases continued with
      | true =>
        simp only [if_true, Option.some.injEq, Prod.mk.injEq] at hnext
        obtain ⟨rfl, rfl⟩ := hnext
        exact .left hreceive hstatus rfl hparse hrespond rfl
      | false =>
        simp only [Bool.false_eq_true, if_false, Option.map_eq_some_iff, Prod.mk.injEq] at hnext
        obtain ⟨⟨td₂, last⟩, hkeep, rfl, rfl⟩ := hnext
        exact .stayed hreceive hstatus rfl hparse hrespond hkeep rfl
    · rw [effectiveStatus_storeMessage, hstatus, handleStatus, Option.some.injEq,
        Prod.mk.injEq] at hended
      obtain ⟨rfl, rfl⟩ := hended
      exact .emptied hreceive hstatus rfl rfl rfl
  · simp at hrun

/-! ### The accounting of connections -/

/-- The effect decrements `max_descriptor` or closes a descriptor. -/
def isAccounting : Effect → Bool
  | .decrementMaxDescriptor | .close _ => true
  | _ => false

/-- The decrements of `max_descriptor` and the closed descriptors among the effects, in order. -/
def accounting (effects : List Effect) : List Effect :=
  effects.filter isAccounting

theorem accounting_append (first second : List Effect) :
    accounting (first ++ second) = accounting first ++ accounting second :=
  List.filter_append ..

/-- What is left of the effects of closing a connection. -/
def closing (connSd : Descriptor) : List Effect :=
  [.decrementMaxDescriptor, .close connSd]

/-- The slot after a connection was closed. -/
structure Closed (td td' : ThreadData) (effects : List Effect) : Prop where
  used_eq : td'.used = -1
  msgReceived_eq : td'.msgReceived = 0
  accounting_eq : accounting effects = closing td.connSd

/-- The slot after the connection was kept. -/
structure Kept (td td' : ThreadData) (effects : List Effect) : Prop where
  used_eq : td'.used = td.used
  accounting_eq : accounting effects = []

/-- A request whose image is missing. -/
def MissingImage (message : List Byte) (input : IterationInput) : Prop :=
  input.imagePresent = false ∧ ∃ request, parseRequest message = some (.requestReceived, request)

/-- In the accounting of connections the answer to a request is a close when it leaves the
iteration, and otherwise nothing, unless the image is missing. -/
theorem accounting_respond {td td' : ThreadData} {idx : Fin 5} {input : IterationInput}
    {ret : RqstStat} {request : ParsedRequest} {effects : List Effect} {continued : Bool}
    (hrespond : respond td idx input ret request = (td', effects, continued)) :
    (continued = true → accounting effects = closing td.connSd) ∧
      (continued = false →
        accounting effects = [] ∨ (ret = .requestReceived ∧ input.imagePresent = false)) := by
  cases ret with
  | requestReceived =>
    simp only [respond] at hrespond
    split_ifs at hrespond with hpresent hgone
    · rw [Prod.mk.injEq, Prod.mk.injEq] at hrespond
      rw [← hrespond.2.1, ← hrespond.2.2]
      exact ⟨fun _ ↦ rfl, fun hstayed ↦ absurd hstayed.symm Bool.false_ne_true⟩
    · obtain ⟨rfl, rfl⟩ := finishRequest_eq hrespond
      exact ⟨fun hleft ↦ absurd hleft Bool.false_ne_true, fun _ ↦ Or.inl rfl⟩
    · obtain ⟨rfl, rfl⟩ := finishRequest_eq hrespond
      exact ⟨fun hleft ↦ absurd hleft Bool.false_ne_true,
        fun _ ↦ Or.inr ⟨rfl, Bool.eq_false_iff.mpr hpresent⟩⟩
  | _ =>
    obtain ⟨rfl, rfl⟩ := finishRequest_eq hrespond
    exact ⟨fun hleft ↦ absurd hleft Bool.false_ne_true, fun _ ↦ Or.inl rfl⟩

/-- The warning has nothing to do with the accounting. -/
theorem accounting_warning_append (td : ThreadData) (effects : List Effect) :
    accounting (warning td ++ effects) = accounting effects := by
  have hwarning : accounting (warning td) = [] := by
    unfold warning
    split_ifs
    · rfl
    · rfl
  rw [accounting_append, hwarning, List.nil_append]

/-- The keep-alive timer closes the connection or keeps it. -/
theorem keepAlive_spec {td td' : ThreadData} {status : RqstStat} {polls : List ℤ}
    {effects : List Effect} (hrun : keepAlive td status polls = some (td', effects)) :
    td'.connSd = td.connSd ∧ td'.message = td.message ∧
      (Closed td td' effects ∨ Kept td td' effects) := by
  obtain ⟨timed, timer, htimer, ⟨-, rfl, rfl⟩ | ⟨-, rfl, rfl⟩⟩ := keepAlive_cases hrun
  · obtain ⟨hconn, hmessage, -⟩ := handleTimer_frame htimer
    refine ⟨hconn, hmessage, Or.inl ⟨rfl, rfl, ?_⟩⟩
    rw [← hconn]
    rfl
  · obtain ⟨hconn, hmessage, hused⟩ := handleTimer_frame htimer
    exact ⟨hconn, hmessage, Or.inr ⟨hused, rfl⟩⟩

/-- Quiet effects before the end of an iteration do not change how it ends. -/
theorem closed_or_kept_append {td td₁ td' : ThreadData} {first second : List Effect}
    (hconn : td₁.connSd = td.connSd) (hused : td₁.used = td.used) (hquiet : accounting first = [])
    (hend : Closed td₁ td' second ∨ Kept td₁ td' second) :
    Closed td td' (first ++ second) ∨ Kept td td' (first ++ second) := by
  rcases hend with hclosed | hkept
  · refine Or.inl ⟨hclosed.used_eq, hclosed.msgReceived_eq, ?_⟩
    rw [accounting_append, hquiet, hclosed.accounting_eq, hconn, List.nil_append]
  · refine Or.inr ⟨hkept.used_eq.trans hused, ?_⟩
    rw [accounting_append, hquiet, hkept.accounting_eq, List.nil_append]

/-- What an iteration does to the slot and to the accounting: it receives into the next message, and
clears it when a request was received. It closes the connection or keeps it, unless the image is
missing. -/
theorem iterate_cases {worker worker' : Worker} {input : IterationInput} {effects : List Effect}
    (hrun : iterate worker input = some (worker', effects)) :
    ∃ status message,
      receiveRequest worker.nextMessage input.received = .returned status message [] ∧
      worker'.idx = worker.nextIdx ∧ worker'.td.connSd = worker.td.connSd ∧
      (worker'.td.message = Function.update worker.td.message worker.nextIdx
        (if effectiveStatus worker.td status = .requestReceived then zeros httpMessageSize
          else message)) ∧
      ((effectiveStatus worker.td status = .requestReceived ∧ MissingImage message input) ∨
        Closed worker.td worker'.td effects ∨ Kept worker.td worker'.td effects) := by
  cases iteration_of_iterate hrun with
  | @emptied status message hreceive hstatus hidx htd heffects =>
    refine ⟨status, message, hreceive, hidx, ?_, ?_, Or.inr (Or.inl ⟨?_, ?_, ?_⟩)⟩
    · rw [htd]
      rfl
    · rw [htd, hstatus, if_neg (by decide)]
      rfl
    · rw [htd]
      rfl
    · rw [htd]
      rfl
    · rw [heffects, accounting_warning_append]
      rfl
  | @left status ret message request first hreceive hstatus hidx hparse hrespond heffects =>
    have htd := respond_left hrespond
    refine ⟨status, message, hreceive, hidx, ?_, ?_, Or.inr (Or.inl ⟨?_, ?_, ?_⟩)⟩
    · rw [htd]
      rfl
    · rw [htd, hstatus, if_pos rfl]
      exact Function.update_idem ..
    · rw [htd]
      rfl
    · rw [htd]
      rfl
    · rw [heffects, accounting_warning_append, (accounting_respond hrespond).1 rfl]
      rfl
  | @stayed status ret message request td first last hreceive hstatus hidx hparse hrespond hkeep
      heffects =>
    rw [respond_stayed hrespond] at hkeep
    obtain ⟨hconn, hmessage, hend⟩ := keepAlive_spec hkeep
    refine ⟨status, message, hreceive, hidx, hconn, ?_, ?_⟩
    · rw [hmessage, hstatus, if_pos rfl]
      exact Function.update_idem ..
    · rcases (accounting_respond hrespond).2 rfl with hquiet | ⟨rfl, hmissing⟩
      · have hfirst : accounting (warning worker.td ++ first) = [] := by
          rw [accounting_warning_append, hquiet]
        rw [heffects, ← List.append_assoc]
        exact Or.inr (closed_or_kept_append (by rfl) (by rfl) hfirst hend)
      · exact Or.inl ⟨hstatus, hmissing, request, hparse⟩

/-! ### How an iteration ends -/

/-- The slot at the end of an iteration, given the slot at its start: `close_client_with_status` was
called on it, or `handle_timer` has kept the client after `msg_received` was cleared. In between
only the messages change. -/
def EndsIn (td td' : ThreadData) : Prop :=
  ∃ message,
    td' = (closeClientWithStatus { td with message := message } .connectionClosed).1 ∨
      ∃ polls timer, timer ≠ 0 ∧
        handleTimer { td with message := message, msgReceived := 0 } polls = some (td', timer, [])

/-- The keep-alive timer ends an iteration that has cleared `msg_received`. -/
theorem endsIn_of_keepAlive {td td' : ThreadData} {message : Fin 5 → List Byte} {status : RqstStat}
    {polls : List ℤ} {effects : List Effect}
    (hrun : keepAlive { td with message := message, msgReceived := 0 } status polls =
      some (td', effects)) : EndsIn td td' := by
  obtain ⟨timed, timer, htimer, ⟨-, hclosed, -⟩ | ⟨hkept, rfl, -⟩⟩ := keepAlive_cases hrun
  · refine ⟨message, Or.inl ?_⟩
    rw [hclosed, closeClientWithStatus_of_handleTimer htimer]
    rfl
  · exact ⟨message, Or.inr ⟨polls, timer, hkept, htimer⟩⟩

/-- Every iteration ends with the close of the connection or in the keep-alive timer. -/
theorem endsIn_of_iterate {worker worker' : Worker} {input : IterationInput} {effects : List Effect}
    (hrun : iterate worker input = some (worker', effects)) : EndsIn worker.td worker'.td := by
  cases iteration_of_iterate hrun with
  | emptied hreceive hstatus hidx htd => exact ⟨_, Or.inl htd⟩
  | left hreceive hstatus hidx hparse hrespond =>
    have hleft := respond_left hrespond
    exact ⟨_, Or.inl hleft⟩
  | stayed hreceive hstatus hidx hparse hrespond hkeep =>
    rw [respond_stayed hrespond] at hkeep
    exact endsIn_of_keepAlive hkeep

/-! ### An iteration -/

/-- A whole request for a photo, whose client sends more before the timer runs out. -/
def servedPhoto : IterationInput where
  received := [.data (photoHead ++ photoTail)]
  imagePresent := true
  clientGone := false
  polls := [1]

end ImageApp.Server
