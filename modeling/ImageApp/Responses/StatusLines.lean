import ImageApp.Connections.KeepAlive
import ImageApp.Server.Messages

/-!
# The status of an answer

`handle_client` decides how a request is answered, and `build_message` which status line the answer
has: it looks at whether there is an image, and then at the length of the error page. The test for
the page of status 503 is the test for the one of status 400 a second time.

`answered_of_iterate` says what an iteration of a worker puts on the connection. `statusRight_iff`
is the resulting condition for an iteration: the client must have requests left.
`not_statusRight` follows a client that pauses in front of each request until the timer has run
down, and so uses up its thousand requests.
-/

set_option autoImplicit false
set_option relaxedAutoImplicit false

namespace ImageApp.Responses

open Foundations.CStrings Foundations.GuardedRuns Foundations.HeaderBlocks Connections Server

/-! ### What an iteration sends -/

/-- The answer to a request that was parsed. -/
def answerText (contents : Contents) (input : IterationInput) (ret : RqstStat)
    (request : ParsedRequest) : List Byte :=
  match ret with
  | .requestReceived =>
    if input.imagePresent then sendImage contents.adapted request.cmd
    else sendBadRequest contents.pages
  | .iconRequested => sendImage contents.icon .getCmd
  | .messageNotCorrect => sendBadRequest contents.pages
  | _ => []

/-- The answer of an iteration, by what was received: the warning of a client without requests left,
nothing for a client that is gone, or the answer to a request. -/
inductive Answered (contents : Contents) (worker : Worker) (input : IterationInput) :
    List Byte → Prop
  | spent {status : RqstStat} {message : List Byte}
      (hreceive : receiveRequest worker.nextMessage input.received = .returned status message [])
      (hrequest : worker.td.request = 0) :
      Answered contents worker input (sendServiceUnavailable contents.pages)
  | gone {message : List Byte}
      (hreceive : receiveRequest worker.nextMessage input.received =
        .returned .emptyMessage message [])
      (hrequest : worker.td.request ≠ 0) : Answered contents worker input []
  | parsed {message : List Byte} {ret : RqstStat} {request : ParsedRequest}
      (hreceive : receiveRequest worker.nextMessage input.received =
        .returned .requestReceived message [])
      (hrequest : worker.td.request ≠ 0) (hparse : parseRequest message = some (ret, request)) :
      Answered contents worker input (answerText contents input ret request)

/-- Nothing is sent when the connection is closed. -/
theorem transmitted_close (contents : Contents) (td : ThreadData) (status : RqstStat) :
    transmitted contents ((closeClientWithStatus td .connectionClosed).2 ++
      [.destroyRequest status, .destroyImage]) = some [] :=
  rfl

/-- Nothing is sent by the keep-alive timer. -/
theorem transmitted_keepAlive {contents : Contents} {td td' : ThreadData} {status : RqstStat}
    {polls : List ℤ} {effects : List Effect}
    (hrun : keepAlive td status polls = some (td', effects)) :
    transmitted contents effects = some [] := by
  obtain ⟨timed, timer, -, ⟨-, -, rfl⟩ | ⟨-, -, rfl⟩⟩ := keepAlive_cases hrun
  · exact transmitted_close contents timed status
  · rfl

/-- The answer to a request is sent once. -/
theorem transmitted_respond {contents : Contents} {td td' : ThreadData} {idx : Fin 5}
    {input : IterationInput} {ret : RqstStat} {request : ParsedRequest} {effects : List Effect}
    {continued : Bool}
    (hret : ret = .requestReceived ∨ ret = .iconRequested ∨ ret = .messageNotCorrect)
    (hrespond : respond td idx input ret request = (td', effects, continued)) :
    transmitted contents effects = some (answerText contents input ret request) := by
  rcases hret with rfl | rfl | rfl
  · simp only [respond] at hrespond
    split_ifs at hrespond with hpresent hgone
    · rw [Prod.mk.injEq, Prod.mk.injEq] at hrespond
      rw [← hrespond.2.1, List.append_assoc,
        transmitted_append_of_silent (transmitted_close contents td .connectionClosed)]
      simp [transmitted, transmit, answerText, hpresent]
    · obtain ⟨rfl, -⟩ := finishRequest_eq hrespond
      simp [transmitted, transmit, answerText, hpresent]
    · obtain ⟨rfl, -⟩ := finishRequest_eq hrespond
      simp [transmitted, transmit, answerText, hpresent]
  · obtain ⟨rfl, -⟩ := finishRequest_eq hrespond
    simp [transmitted, transmit, answerText]
  · obtain ⟨rfl, -⟩ := finishRequest_eq hrespond
    simp [transmitted, transmit, answerText]

/-- A status that the switch sees as a received request. -/
theorem requestReceived_of_effectiveStatus {td : ThreadData} {status : RqstStat}
    (hstatus : effectiveStatus td status = .requestReceived) :
    td.request ≠ 0 ∧ status = .requestReceived := by
  unfold effectiveStatus at hstatus
  split_ifs at hstatus with hspent
  exact ⟨hspent, hstatus⟩

/-- What an iteration puts on the connection. -/
theorem answered_of_iterate {contents : Contents} {worker worker' : Worker}
    {input : IterationInput} {effects : List Effect}
    (hrun : iterate worker input = some (worker', effects)) :
    ∃ answer, transmitted contents effects = some answer ∧
      Answered contents worker input answer := by
  cases iteration_of_iterate hrun with
  | emptied hreceive hstatus hidx htd heffects =>
    rw [heffects, transmitted_append_of_silent (transmitted_close contents _ .connectionClosed),
      warning]
    by_cases hspent : worker.td.request = 0
    · rw [if_pos hspent]
      exact ⟨_, by simp [transmitted, transmit], .spent hreceive hspent⟩
    · rw [if_neg hspent]
      rw [effectiveStatus, if_neg hspent] at hstatus
      rw [hstatus] at hreceive
      exact ⟨[], rfl, .gone hreceive hspent⟩
  | left hreceive hstatus hidx hparse hrespond heffects =>
    obtain ⟨hleft, rfl⟩ := requestReceived_of_effectiveStatus hstatus
    obtain ⟨-, -, -, hret⟩ := parseRequest_cases hparse
    rw [heffects, warning, if_neg hleft, List.nil_append]
    exact ⟨_, transmitted_respond hret hrespond, .parsed hreceive hleft hparse⟩
  | stayed hreceive hstatus hidx hparse hrespond hkeep heffects =>
    obtain ⟨hleft, rfl⟩ := requestReceived_of_effectiveStatus hstatus
    obtain ⟨-, -, -, hret⟩ := parseRequest_cases hparse
    rw [heffects, warning, if_neg hleft, List.nil_append,
      transmitted_append_of_silent (transmitted_keepAlive hkeep)]
    exact ⟨_, transmitted_respond hret hrespond, .parsed hreceive hleft hparse⟩

/-! ### The status line -/

/-- The status codes of the server. -/
inductive StatusCode
  | ok
  | badRequest
  | serviceUnavailable
  deriving DecidableEq

/-- How an answer with the status starts. -/
def StatusCode.start : StatusCode → List Byte
  | .ok => bytes "HTTP/1.1 200"
  | .badRequest => bytes "HTTP/1.1 400"
  | .serviceUnavailable => bytes "HTTP/1.1 503"

/-- The status that the outcome of an iteration calls for: 503 when the client has no requests left,
200 when an image or the icon is sent, 400 when the line is malformed or the image is absent, and
none when nothing was received. -/
def outcome (worker : Worker) (input : IterationInput) : Option StatusCode :=
  match receiveRequest worker.nextMessage input.received with
  | .returned status message [] =>
    if worker.td.request = 0 then some .serviceUnavailable
    else if status = .requestReceived then
      match parseRequest message with
      | some (.requestReceived, _) => if input.imagePresent then some .ok else some .badRequest
      | some (.iconRequested, _) => some .ok
      | some (.messageNotCorrect, _) => some .badRequest
      | _ => none
    else none
  | _ => none

/-- The answer of the iteration starts with the status that its outcome calls for. -/
def StatusRight (contents : Contents) (state : ConnectionRun) (input : IterationInput) : Prop :=
  ∀ worker effects code, iterate state.worker input = some (worker, effects) →
    outcome state.worker input = some code →
      ∃ answer, transmitted contents effects = some answer ∧ code.start <+: answer

/-- The client has requests left. -/
def RequestsLeft (state : ConnectionRun) (_ : IterationInput) : Prop :=
  state.worker.td.request ≠ 0

instance decidableRequestsLeft (state : ConnectionRun) (input : IterationInput) :
    Decidable (RequestsLeft state input) :=
  inferInstanceAs (Decidable (_ ≠ _))

/-- An image is announced with status 200. -/
theorem start_sendImage (content : List Byte) (cmd : RqstStat) :
    StatusCode.ok.start <+: sendImage content cmd := by
  have hline : bytes "HTTP/1.1 200 OK" = StatusCode.ok.start ++ bytes " OK" := by decide
  rw [sendImage, buildMessage_image, headerBlock, imageLines, List.flatMap_cons, hline]
  simp only [List.append_assoc]
  exact List.prefix_append _ _

/-- A page is announced with status 400. -/
theorem start_sendPage (page : List Byte) : StatusCode.badRequest.start <+: sendPage page := by
  have hline : bytes "HTTP/1.1 400 Bad Request" =
      StatusCode.badRequest.start ++ bytes " Bad Request" := by decide
  rw [sendPage, buildMessage_page, headerBlock, pageLines, List.flatMap_cons, hline]
  simp only [List.append_assoc]
  exact List.prefix_append _ _

/-- No page is announced with status 503. -/
theorem not_start_sendPage (page : List Byte) :
    ¬ StatusCode.serviceUnavailable.start <+: sendPage page := by
  intro hstart
  have hsame := List.prefix_of_prefix_length_le hstart (start_sendPage page) (by decide)
  exact absurd hsame (by decide)

/-- The answer to a request that was parsed starts with the right status. -/
theorem start_answerText {contents : Contents} {worker : Worker} {input : IterationInput}
    {message : List Byte} {ret : RqstStat} {request : ParsedRequest} {code : StatusCode}
    (hreceive : receiveRequest worker.nextMessage input.received =
      .returned .requestReceived message [])
    (hrequest : worker.td.request ≠ 0) (hparse : parseRequest message = some (ret, request))
    (hcode : outcome worker input = some code) :
    code.start <+: answerText contents input ret request := by
  obtain ⟨-, -, -, hret⟩ := parseRequest_cases hparse
  simp only [outcome, hreceive, if_neg hrequest, if_true, hparse] at hcode
  rcases hret with rfl | rfl | rfl
  · simp only at hcode
    split_ifs at hcode with hpresent
    · rw [Option.some.injEq] at hcode
      rw [answerText, if_pos hpresent, ← hcode]
      exact start_sendImage _ _
    · rw [Option.some.injEq] at hcode
      rw [answerText, if_neg hpresent, ← hcode]
      exact start_sendPage _
  · rw [Option.some.injEq] at hcode
    rw [answerText, ← hcode]
    exact start_sendImage _ _
  · rw [Option.some.injEq] at hcode
    rw [answerText, ← hcode]
    exact start_sendPage _

/-- An iteration answers with the right status exactly when the client has requests left. -/
theorem statusRight_iff_requestsLeft {contents : Contents} {state next : ConnectionRun}
    {input : IterationInput} (hstep : connectionStep state input = some next) :
    StatusRight contents state input ↔ RequestsLeft state input := by
  simp only [connectionStep, Option.ite_none_right_eq_some, Option.map_eq_some_iff] at hstep
  obtain ⟨-, ⟨worker, effects⟩, hrun, -⟩ := hstep
  constructor
  · intro hright hspent
    obtain ⟨answer, hanswer, hanswered⟩ := answered_of_iterate hrun
    cases hanswered with
    | spent hreceive =>
      have hcode : outcome state.worker input = some .serviceUnavailable := by
        simp only [outcome, hreceive, if_pos hspent]
      obtain ⟨answer', hanswer', hstart⟩ := hright worker effects _ hrun hcode
      rw [hanswer, Option.some.injEq] at hanswer'
      rw [← hanswer'] at hstart
      exact not_start_sendPage _ hstart
    | gone hreceive hleft => exact absurd hspent hleft
    | parsed hreceive hleft => exact absurd hspent hleft
  · intro hleft worker' effects' code hrun' hcode
    obtain ⟨answer, hanswer, hanswered⟩ := answered_of_iterate hrun'
    refine ⟨answer, hanswer, ?_⟩
    cases hanswered with
    | spent hreceive hspent => exact absurd hspent hleft
    | gone hreceive =>
      simp only [outcome, hreceive, if_neg hleft, reduceCtorEq, if_false] at hcode
    | parsed hreceive hleft hparse => exact start_answerText hreceive hleft hparse hcode

/-- The status of every answer of a connection is right if and only if no request comes when the
requests are used up. -/
theorem statusRight_iff {contents : Contents} {worker : Worker} {connSd : Descriptor}
    {clientAddr : SockaddrIn} {inputs : List IterationInput} {final : ConnectionRun}
    (hrun : run connectionStep (dispatched worker connSd clientAddr) inputs = some final) :
    Guarded connectionStep (StatusRight contents) (dispatched worker connSd clientAddr) inputs ↔
      Guarded connectionStep RequestsLeft (dispatched worker connSd clientAddr) inputs :=
  guarded_congr (fun _ _ _ hstep ↦ statusRight_iff_requestsLeft hstep) hrun

/-- The error pages with a photo and an icon of one byte each. -/
def photoContents : Contents where
  adapted := [1]
  icon := [2]
  pages := htmlResponse

theorem statusRight_photo :
    ∃ final, run connectionStep (dispatched ⟨allocatedThread, 0⟩ 4 (0, 0)) [servedPhoto] =
      some final ∧
      (Guarded connectionStep (StatusRight photoContents)
        (dispatched ⟨allocatedThread, 0⟩ 4 (0, 0)) [servedPhoto] ↔
        Guarded connectionStep RequestsLeft (dispatched ⟨allocatedThread, 0⟩ 4 (0, 0))
          [servedPhoto]) := by
  obtain ⟨final, hrun, -⟩ := Option.map_eq_some_iff.mp
    (show (run connectionStep (dispatched ⟨allocatedThread, 0⟩ 4 (0, 0)) [servedPhoto]).map
      ConnectionRun.parsed = some 1 by decide +kernel)
  exact ⟨final, hrun, statusRight_iff hrun⟩

/-! ### A client that uses up its requests -/

/-- A request for the photo that comes when the timer has run down. -/
def patientPhoto : IterationInput :=
  { servedPhoto with polls := [0, 0, 0, 0, 0, 1] }

/-- The connection of the client after some of its requests. -/
def patientConnection (request : ℤ) (idx : Fin 5) (parsed : ℕ) : ConnectionRun where
  worker := ⟨{ assignConnection allocatedThread 4 (0, 0) with request := request }, idx⟩
  parsed := parsed

theorem receiveRequest_patientPhoto :
    receiveRequest (zeros httpMessageSize) patientPhoto.received =
      .returned .requestReceived (padded (photoHead ++ photoTail)) [] := by
  decide +kernel

/-- A request of the client costs one of the requests it has left, and nothing else. -/
theorem connectionStep_patient {request : ℤ} (hrequest : request ≠ 0) (idx : Fin 5) (parsed : ℕ) :
    connectionStep (patientConnection request idx parsed) patientPhoto =
      some (patientConnection (request - 1) (idx + 1) (parsed + 1)) := by
  have hparse : (parseRequest (padded (photoHead ++ photoTail))).map Prod.fst =
      some .requestReceived := by decide +kernel
  obtain ⟨⟨ret, parsedRequest⟩, hparse, hret⟩ := Option.map_eq_some_iff.mp hparse
  have hret : ret = .requestReceived := hret
  rw [hret] at hparse
  have hmessage : (patientConnection request idx parsed).worker.nextMessage =
      zeros httpMessageSize := rfl
  have hparses : parses (patientConnection request idx parsed).worker patientPhoto = true := by
    rw [parses, hmessage, receiveRequest_patientPhoto]
    simp [effectiveStatus, patientConnection, hrequest]
  have hiterate : (iterate (patientConnection request idx parsed).worker patientPhoto).map
      Prod.fst = some (patientConnection (request - 1) (idx + 1) (parsed + 1)).worker := by
    rw [iterate, hmessage, receiveRequest_patientPhoto]
    simp [effectiveStatus, patientConnection, hrequest, handleStatus, handleRequest, hparse,
      respond, finishRequest, patientPhoto, servedPhoto, keepAlive, handleTimer, clearMessage,
      storeMessage, assignConnection, allocatedThread]
    rfl
  obtain ⟨⟨worker, effects⟩, hiterate, hworker⟩ := Option.map_eq_some_iff.mp hiterate
  have hworker : worker = (patientConnection (request - 1) (idx + 1) (parsed + 1)).worker := hworker
  have hopen : (patientConnection request idx parsed).worker.td.msgReceived = 1 := rfl
  rw [connectionStep, if_pos hopen, hiterate, Option.map_some, hparses, hworker]
  rfl

/-- The client has as many requests as the slot counts. -/
theorem run_patient (count : ℕ) (idx : Fin 5) (parsed : ℕ) :
    ∃ idx' parsed', run connectionStep (patientConnection count idx parsed)
      (List.replicate count patientPhoto) = some (patientConnection 0 idx' parsed') := by
  induction count generalizing idx parsed with
  | zero => exact ⟨idx, parsed, rfl⟩
  | succ count ih =>
    have hrequest : ((count + 1 : ℕ) : ℤ) ≠ 0 := by omega
    have hleft : ((count + 1 : ℕ) : ℤ) - 1 = count := by omega
    rw [List.replicate_succ, run_cons, connectionStep_patient hrequest, Option.bind_some, hleft]
    exact ih (idx + 1) (parsed + 1)

/-- The client may send another request, and the connection is closed. -/
theorem exists_connectionStep_spent (idx : Fin 5) (parsed : ℕ) :
    ∃ last, connectionStep (patientConnection 0 idx parsed) patientPhoto = some last := by
  have hmessage : (patientConnection 0 idx parsed).worker.nextMessage = zeros httpMessageSize := rfl
  have hopen : (patientConnection 0 idx parsed).worker.td.msgReceived = 1 := rfl
  rw [connectionStep, if_pos hopen, iterate, hmessage, receiveRequest_patientPhoto]
  exact ⟨_, rfl⟩

/-- A client that has used up its thousand requests is told that its request was a bad one. -/
theorem not_statusRight :
    ¬ ∀ (contents : Contents) (worker : Worker) (connSd : Descriptor) (clientAddr : SockaddrIn)
      (inputs : List IterationInput) (final : ConnectionRun),
      run connectionStep (dispatched worker connSd clientAddr) inputs = some final →
        Guarded connectionStep (StatusRight contents) (dispatched worker connSd clientAddr)
          inputs := by
  intro hright
  obtain ⟨idx, parsed, hspent⟩ := run_patient 1000 0 0
  obtain ⟨last, hlast⟩ := exists_connectionStep_spent idx parsed
  have hrun : run connectionStep (dispatched ⟨allocatedThread, 0⟩ 4 (0, 0))
      (List.replicate 1000 patientPhoto ++ [patientPhoto]) = some last := by
    rw [run_append]
    have hstart : dispatched ⟨allocatedThread, 0⟩ 4 (0, 0) = patientConnection (1000 : ℕ) 0 0 := rfl
    rw [hstart, hspent, Option.bind_some, run_cons, hlast]
    rfl
  have hguard := guard_of_guarded (hright photoContents _ _ _ _ last hrun) hspent
  exact (statusRight_iff_requestsLeft hlast).mp hguard rfl

end ImageApp.Responses
