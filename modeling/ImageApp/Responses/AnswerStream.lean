import ImageApp.Foundations.AnswerStreams
import ImageApp.Responses.StatusLines

/-!
# The answers of a connection

A connection that is kept carries one answer after another, and the client has only their content
lengths to tell them apart. `readAnswers_of_run` is about every connection of a worker: when no
answer is sent with a body that the client does not expect, or with an empty length, the client
reads from all that was sent exactly the images, the icon and the pages that its requests call for,
and nothing is left over.

`InSync` is the condition on a request. It leaves out the bodies that are sent for a HEAD, the
images whose body is not sent for another method, and the empty files.
-/

set_option autoImplicit false
set_option relaxedAutoImplicit false

namespace ImageApp.Responses

open Foundations.CStrings Foundations.DecimalRows Foundations.GuardedRuns Foundations.HeaderBlocks
  Connections Server

/-! ### Framed answers -/

/-- An image that is sent for GET is told by its length, unless it is empty. -/
theorem framed_sendImage {content : List Byte} (hcontent : content ≠ []) :
    Framed false (sendImage content .getCmd) content := by
  have hfront : ∀ line ∈ (imageLines 0).take 4,
      fieldValue (bytes "Content-Length") line = none := by decide +kernel
  have hsize : bodySize (imageLines content.length) = some content.length :=
    bodySize_append hfront _ (List.length_pos_iff.mpr hcontent).ne'
  rw [sendImage, if_pos rfl, buildMessage_image]
  exact .whole (isLine_imageLines _) hsize

/-- For HEAD the header of an image is sent alone. -/
theorem framed_sendImage_head (content : List Byte) :
    Framed true (sendImage content .headCmd) [] := by
  rw [sendImage, if_neg (by decide), List.append_nil, buildMessage_image]
  exact .head (isLine_imageLines _)

/-- A page is told by its length. -/
theorem framed_sendPage (page : List Byte) :
    Framed false (sendPage page) (untilNul page ++ [0]) := by
  have hfront : ∀ line ∈ (pageLines 0).take 3,
      fieldValue (bytes "Content-Length") line = none := by decide +kernel
  have hlength : (untilNul page ++ [0]).length = (untilNul page).length + 1 := by simp
  have hsize : bodySize (pageLines ((untilNul page).length + 1)) =
      some (untilNul page ++ [0]).length := by
    rw [hlength]
    exact bodySize_append hfront _ (Nat.succ_ne_zero _)
  rw [sendPage, buildMessage_page]
  exact .whole (isLine_pageLines _) hsize

/-! ### What the client waits for -/

/-- The request that an iteration answers, as it was parsed. -/
def answeredRequest (worker : Worker) (input : IterationInput) :
    Option (RqstStat × ParsedRequest) :=
  match receiveRequest worker.nextMessage input.received with
  | .returned .requestReceived message [] =>
    if worker.td.request = 0 then none else parseRequest message
  | _ => none

/-- What a request calls for: the image or the page, and nothing for a HEAD. -/
def wantedBody (contents : Contents) (input : IterationInput) (ret : RqstStat)
    (request : ParsedRequest) : List Byte :=
  if request.cmd = .headCmd then []
  else
    match ret with
    | .requestReceived =>
      if input.imagePresent then contents.adapted else untilNul contents.pages.badRequest ++ [0]
    | .iconRequested => contents.icon
    | _ => untilNul contents.pages.badRequest ++ [0]

/-- What is sent for the request is what its client expects: only the header for a HEAD, and else a
file that is not empty or a page. -/
def BodyExpected (contents : Contents) (input : IterationInput) (ret : RqstStat)
    (request : ParsedRequest) : Prop :=
  request.cmd = .headCmd ∧ ret = .requestReceived ∧ input.imagePresent = true ∨
    request.cmd ≠ .headCmd ∧
      (ret = .requestReceived → input.imagePresent = true →
        request.cmd = .getCmd ∧ contents.adapted ≠ []) ∧
      (ret = .iconRequested → contents.icon ≠ [])

instance decidableBodyExpected (contents : Contents) (input : IterationInput) (ret : RqstStat)
    (request : ParsedRequest) : Decidable (BodyExpected contents input ret request) :=
  inferInstanceAs (Decidable (_ ∨ _))

/-- The answer to such a request is framed. -/
theorem framed_answerText {contents : Contents} {input : IterationInput} {ret : RqstStat}
    {request : ParsedRequest}
    (hret : ret = .requestReceived ∨ ret = .iconRequested ∨ ret = .messageNotCorrect)
    (hexpected : BodyExpected contents input ret request) :
    Framed (request.cmd = .headCmd) (answerText contents input ret request)
      (wantedBody contents input ret request) := by
  rcases hexpected with ⟨hhead, rfl, hpresent⟩ | ⟨hbody, hadapted, hicon⟩
  · rw [decide_eq_true hhead, wantedBody, if_pos hhead, answerText, if_pos hpresent, hhead]
    exact framed_sendImage_head _
  · rw [decide_eq_false hbody]
    rcases hret with rfl | rfl | rfl
    · have hwanted : wantedBody contents input .requestReceived request =
          if input.imagePresent then contents.adapted
          else untilNul contents.pages.badRequest ++ [0] := if_neg hbody
      rw [hwanted, answerText]
      split_ifs with hpresent
      · obtain ⟨hget, hne⟩ := hadapted rfl hpresent
        rw [hget]
        exact framed_sendImage hne
      · exact framed_sendPage _
    · have hwanted : wantedBody contents input .iconRequested request = contents.icon :=
        if_neg hbody
      rw [hwanted]
      exact framed_sendImage (hicon rfl)
    · have hwanted : wantedBody contents input .messageNotCorrect request =
          untilNul contents.pages.badRequest ++ [0] := if_neg hbody
      rw [hwanted]
      exact framed_sendPage _

/-! ### Runs -/

/-- A connection with the bytes that were sent on it, and the answers that its client waits for:
whether they are for a HEAD, and their bodies. -/
structure SendRun where
  connection : ConnectionRun
  stream : List Byte
  awaited : List (Bool × List Byte)

/-- An iteration, with the files that are there in it. -/
def sendStep (state : SendRun) (visit : Contents × IterationInput) : Option SendRun :=
  (connectionStep state.connection visit.2).bind fun connection ↦
    (iterate state.connection.worker visit.2).bind fun (_, effects) ↦
      (transmitted visit.1 effects).map fun text ↦
        { connection := connection
          stream := state.stream ++ text
          awaited := state.awaited ++
            ((answeredRequest state.connection.worker visit.2).map fun (ret, request) ↦
              (decide (request.cmd = .headCmd), wantedBody visit.1 visit.2 ret request)).toList }

/-- A worker to which a connection was assigned. -/
def startSending (worker : Worker) (connSd : Descriptor) (clientAddr : SockaddrIn) : SendRun where
  connection := dispatched worker connSd clientAddr
  stream := []
  awaited := []

/-- The client has requests left, and its request is one with a body that it expects. -/
def InSync (state : SendRun) (visit : Contents × IterationInput) : Prop :=
  state.connection.worker.td.request ≠ 0 ∧
    ∀ parsed ∈ answeredRequest state.connection.worker visit.2,
      BodyExpected visit.1 visit.2 parsed.1 parsed.2

instance decidableInSync (state : SendRun) (visit : Contents × IterationInput) :
    Decidable (InSync state visit) :=
  inferInstanceAs (Decidable (_ ∧ ∀ parsed ∈ answeredRequest state.connection.worker visit.2, _))

/-- What was sent is framed answers with the bodies that the client waits for. -/
def Framing (state : SendRun) : Prop :=
  ∃ answers : List (Bool × List Byte × List Byte),
    (∀ answer ∈ answers, Framed answer.1 answer.2.1 answer.2.2) ∧
      state.stream = (answers.map fun answer ↦ answer.2.1).flatten ∧
      state.awaited = answers.map fun answer ↦ (answer.1, answer.2.2)

/-- An iteration sends a framed answer, or nothing when the client is gone. -/
theorem framing_step (state : SendRun) (visit : Contents × IterationInput) (state' : SendRun)
    (hframing : Framing state) (hsync : InSync state visit)
    (hstep : sendStep state visit = some state') : Framing state' := by
  obtain ⟨answers, hframed, hstream, hawaited⟩ := hframing
  obtain ⟨hleft, hexpected⟩ := hsync
  obtain ⟨connection, -, hstep⟩ := Option.bind_eq_some_iff.mp hstep
  obtain ⟨⟨worker, effects⟩, hiterate, hstep⟩ := Option.bind_eq_some_iff.mp hstep
  obtain ⟨text, htext, rfl⟩ := Option.map_eq_some_iff.mp hstep
  obtain ⟨answer, hanswer, hanswered⟩ := @answered_of_iterate visit.1 _ _ _ _ hiterate
  rw [htext, Option.some.injEq] at hanswer
  rw [← hanswer] at hanswered
  cases hanswered with
  | spent _ hspent => exact absurd hspent hleft
  | gone hreceive =>
    have hnone : answeredRequest state.connection.worker visit.2 = none := by
      simp only [answeredRequest, hreceive]
    refine ⟨answers, hframed, ?_, ?_⟩
    · rw [hstream, List.append_nil]
    · simp [hawaited, hnone]
  | @parsed message ret request hreceive hrequest hparse =>
    have hsome : answeredRequest state.connection.worker visit.2 = some (ret, request) := by
      simp only [answeredRequest, hreceive, if_neg hrequest, hparse]
    obtain ⟨-, -, -, hret⟩ := parseRequest_cases hparse
    have hnew := framed_answerText hret (hexpected (ret, request) hsome)
    refine ⟨answers ++ [(decide (request.cmd = .headCmd),
      answerText visit.1 visit.2 ret request, wantedBody visit.1 visit.2 ret request)], ?_, ?_, ?_⟩
    · intro other hother
      rcases List.mem_append.mp hother with hold | hlast
      · exact hframed other hold
      · rw [List.mem_singleton.mp hlast]
        exact hnew
    · simp [hstream]
    · simp [hawaited, hsome]

/-- Nothing was sent yet. -/
theorem framing_startSending (worker : Worker) (connSd : Descriptor) (clientAddr : SockaddrIn) :
    Framing (startSending worker connSd clientAddr) :=
  ⟨[], fun _ hmem ↦ absurd hmem List.not_mem_nil, rfl, rfl⟩

/-- From framed answers the client reads what it waits for. -/
theorem readAnswers_of_framing {state : SendRun} (hframing : Framing state) :
    readAnswers (state.awaited.map Prod.fst) state.stream =
      some (state.awaited.map Prod.snd, []) := by
  obtain ⟨answers, hframed, hstream, hawaited⟩ := hframing
  have hread := readAnswers_flatten hframed []
  rw [List.append_nil, ← hstream] at hread
  rw [hawaited, List.map_map, List.map_map]
  exact hread

/-- The client of a connection reads from what was sent the bodies that its requests call for, and
nothing is left over. -/
theorem readAnswers_of_run {worker : Worker} {connSd : Descriptor} {clientAddr : SockaddrIn}
    {visits : List (Contents × IterationInput)} {final : SendRun}
    (hsync : Guarded sendStep InSync (startSending worker connSd clientAddr) visits)
    (hrun : run sendStep (startSending worker connSd clientAddr) visits = some final) :
    readAnswers (final.awaited.map Prod.fst) final.stream =
      some (final.awaited.map Prod.snd, []) :=
  readAnswers_of_framing <|
    invariant_of_guarded framing_step (framing_startSending worker connSd clientAddr) hsync hrun

/-- Two requests for the photo, on a connection that is kept. -/
theorem readAnswers_photos :
    ∃ final, run sendStep (startSending ⟨allocatedThread, 0⟩ 4 (0, 0))
        [(photoContents, servedPhoto), (photoContents, servedPhoto)] = some final ∧
      readAnswers [false, false] final.stream = some ([[1], [1]], []) := by
  have hawaited : (run sendStep (startSending ⟨allocatedThread, 0⟩ 4 (0, 0))
      [(photoContents, servedPhoto), (photoContents, servedPhoto)]).map SendRun.awaited =
        some [(false, [1]), (false, [1])] := by decide +kernel
  obtain ⟨final, hrun, hfinal⟩ := Option.map_eq_some_iff.mp hawaited
  have hread := readAnswers_of_run (by decide +kernel) hrun
  rw [hfinal] at hread
  exact ⟨final, hrun, hread⟩

end ImageApp.Responses
